/-
# Leaving the shell

`user/gosh.c`: the search in `PATH`, the builtins, `execute_line` and the main loop, which stops
when `g_last_exit` is negative.  Left out is what is written to the terminal; the system calls are a
parameter.  The status of a finished program is the word `(exit_code & 0xff) << 8` of
`task_waitpid_from_user`.
-/
import OpenHobbyOS.Shell.Words

namespace OpenHobbyOS.Shell

open Paging List

/-- How `sys_spawn` and `sys_waitpid` end. -/
inductive Spawned where
  | refused
  | lost
  | exited (code : U32)

/-- What the shell sees of the system. -/
structure World where
  envp : List (List U8)
  stat : List U8 → Option U32
  spawn : List U8 → List (List U8) → Spawned
  chdir : List U8 → Bool

/-- `PATH_MAX`. -/
def pathMax : ℕ := 4096

/-- A colon. -/
def colon : U8 := 0x3A

/-! ## Finding a program -/

/-- `env_get`. -/
def envGet (w : World) (name : List U8) : Option (List U8) :=
  (w.envp.find? (name ++ text "=").isPrefixOf).map (·.drop (name.length + 1))

/-- The path of `cmd` in the directory `dir`, cut to the size of the buffer. -/
def candidate (dir cmd : List U8) : List U8 :=
  let resolved := dir.take (pathMax - 1)
  let resolved :=
    if resolved ≠ [] ∧ resolved.getLast? ≠ some slash ∧ resolved.length + 1 < pathMax then
      resolved ++ [slash]
    else resolved
  (resolved ++ cmd).take (pathMax - 1)

/-- `sys_stat64(…) == 0 && (st.st_mode & 0111)`. -/
def executable (w : World) (path : List U8) : Bool :=
  match w.stat path with
  | none => false
  | some mode => mode &&& 0o111 ≠ 0

/-- The loop of `find_in_path`. -/
def searchPath (w : World) (cmd : List U8) : ℕ → List U8 → Option (List U8)
  | 0, _ => none
  | fuel + 1, start =>
    if start = [] then none
    else
      let resolved := candidate (start.takeWhile (· ≠ colon)) cmd
      if executable w resolved then some resolved
      else
        match start.dropWhile (· ≠ colon) with
        | [] => none
        | _ :: start => searchPath w cmd fuel start

/-- `find_in_path`. -/
def findInPath (w : World) (cmd : List U8) : Option (List U8) :=
  if cmd = [] then none
  else if cmd.head? = some slash then some (cmd.take (pathMax - 1))
  else
    let path := ((envGet w (text "PATH")).getD (text "/bin:/usr/bin")).take (pathMax - 1)
    searchPath w cmd path.length path

/-- `execute_external`. -/
def executeExternal (w : World) (path : List U8) (argv : List (List U8)) : ℤ :=
  match w.spawn path argv with
  | .refused | .lost => 127
  | .exited code => ((code &&& 0xFF) <<< 8).toInt

/-! ## Builtins -/

/-- A decimal digit. -/
def isDigit (ch : U8) : Bool := 0x30 ≤ ch && ch ≤ 0x39

/-- `u_parse_uint`, `none` if `*ok` is 0. -/
def parseUint (text : List U8) : Option U32 :=
  if text = [] ∨ text.any (!isDigit ·) then none
  else some (text.foldl (fun value ch => value * 10 + (ch.setWidth 32 - 0x30)) 0)

/-- `builtin_exit`: the result and `g_last_exit`. -/
def builtinExit (argv : List (List U8)) : ℤ × ℤ :=
  match argv with
  | _ :: arg :: _ => (((parseUint arg).getD 0).toInt, -1)
  | _ => (0, -1)

/-- `run_builtin`, -1 if there is none, and `g_last_exit`. -/
def runBuiltin (w : World) (last : ℤ) (argv : List (List U8)) : ℤ × ℤ :=
  let name := argv.headD []
  if name = text "cd" then (if w.chdir (argv.getD 1 (text "/")) then 0 else 1, last)
  else if name = text "clear" ∨ name = text "echo" then (0, last)
  else if name = text "exit" then builtinExit argv
  else if name = text "export" then (if argv.length = 1 then 0 else 1, last)
  else if name = text "help" ∨ name = text "history" ∨ name = text "pwd" then (0, last)
  else (-1, last)

/-! ## The main loop -/

/-- `execute_line`: `g_last_exit` after the line. -/
def executeLine (w : World) (last : ℤ) (line : List U8) : ℤ :=
  let line := line.dropWhile gosh.blank
  if line = [] ∨ line.head? = some 0x23 then last
  else
    match parse gosh line with
    | some (some (name :: args)) =>
      match findInPath w name with
      | some resolved => executeExternal w resolved (name :: args)
      | none =>
        -- both ways put a new value over what the builtin left in `g_last_exit`
        let (r, _) := runBuiltin w last (name :: args)
        if 0 ≤ r then r else 127
    | _ => last

/-- One turn of the loop of `main`: the status it returns, if the loop stops. -/
def turn (w : World) (last : ℤ) (line : List U8) : Except ℤ ℤ :=
  let last := executeLine w last line
  if last < 0 then .error (if last = -1 then 0 else last) else .ok last

/-! ## No line stops the shell -/

lemma toNat_and_ff (code : U32) : (code &&& 0xFF).toNat = code.toNat % 256 := by
  rw [BitVec.toNat_and, show (0xFF : U32).toNat = 2 ^ 8 - 1 from rfl,
    Nat.and_two_pow_sub_one_eq_mod]

lemma toNat_status (code : U32) : ((code &&& 0xFF) <<< 8).toNat = code.toNat % 256 * 256 := by
  rw [BitVec.toNat_shiftLeft, toNat_and_ff, Nat.shiftLeft_eq]
  omega

lemma executeExternal_nonneg (w : World) (path : List U8) (argv : List (List U8)) :
    0 ≤ executeExternal w path argv := by
  rw [executeExternal]
  split
  · decide
  · decide
  · next code _ =>
    have hword := toNat_status code
    rw [BitVec.toInt_eq_toNat_of_lt (by omega)]
    exact Int.natCast_nonneg _

lemma executeLine_nonneg (w : World) {last : ℤ} (h : 0 ≤ last) (line : List U8) :
    0 ≤ executeLine w last line := by
  simp only [executeLine]
  split_ifs
  · exact h
  split
  · split
    · exact executeExternal_nonneg _ _ _
    · split_ifs with hr
      · exact hr
      · decide
  · exact h

lemma turn_ok (w : World) {last : ℤ} (h : 0 ≤ last) (line : List U8) :
    ∃ last', turn w last line = .ok last' ∧ 0 ≤ last' := by
  have hexec := executeLine_nonneg w h line
  exact ⟨_, if_neg (not_lt.mpr hexec), hexec⟩

/-- The lines of a session, each with the system as it is then. -/
def session (last : ℤ) : List (World × List U8) → Except ℤ ℤ
  | [] => .ok last
  | (w, line) :: lines => (turn w last line).bind (session · lines)

/-- The main loop goes on over every session. -/
theorem session_ok {last : ℤ} (h : 0 ≤ last) (lines : List (World × List U8)) :
    ∃ last', session last lines = .ok last' ∧ 0 ≤ last' := by
  induction lines generalizing last with
  | nil => exact ⟨last, rfl, h⟩
  | cons l lines ih =>
    obtain ⟨last', hturn, h'⟩ := turn_ok l.1 h l.2
    obtain ⟨last'', hrest, h''⟩ := ih h'
    refine ⟨last'', ?_, h''⟩
    rw [session, hturn]
    exact hrest

/-- The number the digits spell. -/
def decimal (digits : List U8) : ℕ :=
  digits.foldl (fun value ch => value * 10 + (ch.toNat - 0x30)) 0

/-- The line parses to `exit`, with a number or without, and asks for the status `n`. -/
def Asks (line : List U8) (n : ℤ) : Prop :=
  parse gosh (line.dropWhile gosh.blank) = some (some [text "exit"]) ∧ n = 0 ∨
  ∃ digits, parse gosh (line.dropWhile gosh.blank) = some (some [text "exit", digits]) ∧
    digits ≠ [] ∧ (∀ ch ∈ digits, isDigit ch = true) ∧ n = decimal digits

/-- **`exit` does not leave the shell.**  In every state reached by a session, a line does what it
should (stop the loop with the status it asks for, or let it go on) exactly if it does not ask to
exit. -/
theorem exit_stops_iff {before : List (World × List U8)} {last : ℤ}
    (hbefore : session 0 before = .ok last) (w : World) (line : List U8) :
    ((∀ n, Asks line n → turn w last line = .error n) ∧
      ((∀ n, ¬Asks line n) → ∃ last', turn w last line = .ok last')) ↔
    ∀ n, ¬Asks line n := by
  obtain ⟨last₀, hok, hlast⟩ := session_ok le_rfl before
  obtain rfl : last₀ = last := Except.ok.inj (hok.symm.trans hbefore)
  obtain ⟨last', hturn, -⟩ := turn_ok w hlast line
  constructor
  · rintro ⟨hstops, -⟩ n hn
    have := hstops n hn
    rw [hturn] at this
    cases this
  · intro hnone
    exact ⟨fun n hn => absurd hn (hnone n), fun _ => ⟨last', hturn⟩⟩

/-- No files, no programs, no variables. -/
def emptyWorld : World := ⟨[], fun _ => none, fun _ _ => .refused, fun _ => true⟩

theorem exit_stops_iff_pwd :
    ((∀ n, Asks (text "pwd") n → turn emptyWorld 0 (text "pwd") = .error n) ∧
      ((∀ n, ¬Asks (text "pwd") n) → ∃ last', turn emptyWorld 0 (text "pwd") = .ok last')) ↔
    ∀ n, ¬Asks (text "pwd") n :=
  exit_stops_iff (show session 0 [] = .ok 0 from rfl) emptyWorld (text "pwd")

/-- `builtin_exit` puts -1 into `g_last_exit` and returns 3, and `execute_line` puts the 3 over the
-1. -/
theorem exit_goes_on :
    findInPath emptyWorld (text "exit") = none ∧ Asks (text "exit 3") 3 ∧
    turn emptyWorld 0 (text "exit 3") = .ok 3 := by
  refine ⟨by decide +kernel, .inr ⟨text "3", by decide +kernel, by decide +kernel⟩, ?_⟩
  decide +kernel

end OpenHobbyOS.Shell
