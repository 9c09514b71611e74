/-
# The initial stack of a program

`task_prepare_user_stack` of `src/task.c` pushes the environment, the arguments and the path of the
program, leaves a gap for alignment and pushes the tables of pointers; `_start` and `start_c` of
`user/lib/start.c` read them from ESP upwards.  Every push goes below what was pushed before it, so
what one push wrote is still there in the end.
-/
import OpenHobbyOS.Lib.Bytes
import OpenHobbyOS.Vfs.Tree

namespace OpenHobbyOS

open Option hiding map_map
open Paging Lib List Nat

/-! ## The kernel's side -/

/-- `TASK_STACK_ARG_MAX`. -/
def taskStackArgMax : ℕ := 32

/-- What the stack is built from: two C strings, the second in an array of `VFS_PATH_MAX` bytes, and
the entry point. -/
structure StartTask where
  path : List U8
  cwd : List U8
  entry : U32
  path_nul : 0 ∉ path
  cwd_nul : 0 ∉ cwd
  cwd_fits : cwd.length < vfsPathMax

/-- The stack pointer and the memory. -/
structure UserStack where
  mem : ℕ → U8
  esp : ℕ

namespace UserStack

/-- `task_push_bytes` -/
def pushBytes (s : UserStack) (data : List U8) : Option UserStack :=
  if s.esp < userBase.toNat + data.length then none
  else some ⟨splice s.mem (s.esp - data.length) data, s.esp - data.length⟩

/-- `task_push_u32` -/
def pushU32 (s : UserStack) (w : ℕ) : Option UserStack := s.pushBytes (le32Bytes w)

/-- The loops that push strings, the last one first. -/
def pushStrings (s : UserStack) : List (List U8) → Option (UserStack × List ℕ)
  | [] => some (s, [])
  | x :: xs => do
    let (s, ptrs) ← s.pushStrings xs
    let s ← s.pushBytes (x ++ [0])
    return (s, s.esp :: ptrs)

/-- Words pushed one by one, the last one first. -/
def pushWords (s : UserStack) : List ℕ → Option UserStack
  | [] => some s
  | w :: ws => do
    let s ← s.pushWords ws
    s.pushU32 w

end UserStack

/-- The strings of `env_list` but the last. -/
def fixedEnv : List (List U8) :=
  [text "HOME=/root", text "USER=root", text "LOGNAME=root", text "SHELL=/bin/gosh",
    text "ENV=/etc/goshrc", text "PATH=/bin:/usr/bin", text "TERM=linux",
    text "COLORTERM=truecolor", text "LANG=C", text "XDG_CONFIG_HOME=/root/.config",
    text "XDG_CONFIG_DIRS=/etc/xdg:/etc", text "XDG_DATA_DIRS=/usr/share:/usr/local/share"]

/-- What `snprintf` leaves in `pwd_env`. -/
def pwdEnv (cwd : List U8) : List U8 :=
  (text "PWD=" ++ if cwd = [] then text "/" else cwd).take (vfsPathMax + 5 - 1)

/-- `env_list`. -/
def envList (cwd : List U8) : List (List U8) := fixedEnv ++ [pwdEnv cwd]

/-- The path that is pushed. -/
def StartTask.execPath (t : StartTask) : List U8 :=
  if t.path = [] then text "/bin/unknown" else t.path

/-- The auxiliary vector. -/
def auxiliary (entry : U32) (execfn : ℕ) : List ℕ :=
  [6, pageSize, 11, 0, 12, 0, 13, 0, 14, 0, 9, entry.toNat, 31, execfn, 0, 0]

/-- `task_prepare_user_stack`. -/
def taskPrepareUserStack (t : StartTask) (m : ℕ → U8) (argv : List (List U8)) :
    Option UserStack :=
  if taskStackArgMax < argv.length then none
  else do
    let env := envList t.cwd
    let (s, envPtrs) ← (UserStack.mk m userStackTop.toNat).pushStrings env
    let (s, argPtrs) ← s.pushStrings argv
    let s ← s.pushBytes (t.execPath ++ [0])
    let execfn := s.esp
    let metadata := 16 * 4 + (env.length + argv.length + 3) * 4
    if s.esp < userBase.toNat + metadata then none
    else do
      let s := UserStack.mk s.mem ((s.esp - metadata) / 16 * 16 + metadata)
      let s ← s.pushWords (auxiliary t.entry execfn)
      let s ← s.pushU32 0
      let s ← s.pushWords envPtrs
      let s ← s.pushU32 0
      let s ← s.pushWords argPtrs
      s.pushU32 argv.length

/-! ## The program's side -/

section Start

variable (m : ℕ → U8)

/-- A bound on the length of a string. -/
def addressSpace : ℕ := 2 ^ 32

/-- `start_strlen`, for a string that ends among the next bytes. -/
def startStrlen : ℕ → ℕ → Option ℕ
  | 0, _ => none
  | fuel + 1, p => if m p = 0 then some 0 else (startStrlen fuel (p + 1)).map (· + 1)

/-- The string at an address. -/
def stringAt (p : ℕ) : Option (List U8) := (startStrlen m addressSpace p).map (window m p)

/-- The words from an address on. -/
def words (a n : ℕ) : List ℕ := (range n).map fun i => le32 m (a + 4 * i)

/-- The pointers up to a null pointer among the next words. -/
def pointersAt : ℕ → ℕ → Option (List ℕ)
  | 0, _ => none
  | fuel + 1, a =>
    if le32 m a = 0 then some [] else (pointersAt fuel (a + 4)).map (le32 m a :: ·)

/-- `start_copy_string` for each of the pointers. -/
def startCopyStrings : List ℕ → ℕ → Option (List (List U8) × ℕ)
  | [], remaining => some ([], remaining)
  | p :: ps, remaining => do
    let x ← stringAt m p
    if remaining < x.length + 1 then none
    else do
      let (xs, remaining) ← startCopyStrings ps (remaining - (x.length + 1))
      return (x :: xs, remaining)

/-- The copies in the bootstrap arrays, if they fit there. -/
def startCopyVectors (argc argv envp : ℕ) : Option (List (List U8) × List (List U8)) :=
  if 64 ≤ argc + 1 then none
  else do
    let envPtrs ← pointersAt m 63 envp
    let (args, remaining) ← startCopyStrings m (words m argv argc) 16384
    let (env, _) ← startCopyStrings m envPtrs remaining
    return (args, env)

/-- `_start` and `start_c`: what `main` finds through its arguments, in the copies or, where these
do not fit, on the stack. -/
def startC (esp : ℕ) : Option (ℕ × List (List U8) × List (List U8)) :=
  let argc := le32 m esp
  let argv := esp + 4
  let envp := argv + 4 * argc + 4
  match startCopyVectors m argc argv envp with
  | some v => some (argc, v)
  | none => do
    let args ← (words m argv argc).mapM (stringAt m)
    let envPtrs ← pointersAt m addressSpace envp
    let env ← envPtrs.mapM (stringAt m)
    return (argc, args, env)

end Start

/-- What the program finds on its stack. -/
structure RoundTrip (t : StartTask) (argv : List (List U8)) (s : UserStack) : Prop where
  vectors : startC s.mem s.esp = some (argv.length, argv, envList t.cwd)
  /-- The tables with the null pointers between them; every string lies above them. -/
  tables : ∃ argPtrs envPtrs execfn,
    words s.mem s.esp (argv.length + (envList t.cwd).length + 19) =
        [argv.length] ++ argPtrs ++ [0] ++ envPtrs ++ [0] ++ auxiliary t.entry execfn ∧
      argPtrs.mapM (stringAt s.mem) = some argv ∧
      envPtrs.mapM (stringAt s.mem) = some (envList t.cwd) ∧
      stringAt s.mem execfn = some t.execPath ∧
      ∀ p ∈ execfn :: (argPtrs ++ envPtrs),
        s.esp + 4 * (argv.length + (envList t.cwd).length + 19) ≤ p
  aligned : s.esp % 16 = 0

/-! ## Pushes -/

namespace UserStack

variable {s s' s'' : UserStack} {p : ℕ} {x data : List U8}

/-- What was on the stack is still there. -/
structure Below (s s' : UserStack) : Prop where
  esp_le : s'.esp ≤ s.esp
  kept : ∀ a, s.esp ≤ a → s'.mem a = s.mem a

lemma Below.refl (s : UserStack) : Below s s := ⟨le_rfl, fun _ _ => rfl⟩

lemma Below.trans (h : Below s s') (h' : Below s' s'') : Below s s'' where
  esp_le := h'.esp_le.trans h.esp_le
  kept a ha := (h'.kept a (h.esp_le.trans ha)).trans (h.kept a ha)

lemma Below.holds (h : Below s s') (hp : s.esp ≤ p) (hx : Holds s.mem p x) :
    Holds s'.mem p x := by
  rw [Holds, ← hx, length_window, window_eq_iff]
  exact fun i _ => h.kept _ (by omega)

lemma pushBytes_spec (h : s.pushBytes data = some s') :
    Below s s' ∧ s'.esp + data.length = s.esp ∧ Holds s'.mem s'.esp data := by
  rw [pushBytes] at h
  by_cases hlow : s.esp < userBase.toNat + data.length
  · rw [if_pos hlow] at h
    cases h
  · rw [if_neg hlow] at h
    cases h
    refine ⟨⟨by dsimp only; omega, fun a ha => ?_⟩, by dsimp only; omega, holds_splice _ _ _⟩
    dsimp only [splice]
    rw [if_pos (by omega), getD_eq_default _ _ (by omega)]

lemma pushWords_spec {ws : List ℕ} (h : s.pushWords ws = some s') :
    Below s s' ∧ s'.esp + 4 * ws.length = s.esp ∧
      Holds s'.mem s'.esp (ws.flatMap le32Bytes) := by
  induction ws generalizing s' with
  | nil =>
    cases h
    exact ⟨Below.refl s, rfl, holds_nil _ _⟩
  | cons w ws ih =>
    obtain ⟨s₁, h₁, h₂⟩ := bind_eq_some_iff.mp h
    obtain ⟨hbelow, hesp, hws⟩ := ih h₁
    obtain ⟨hbelow', hesp', hw⟩ := pushBytes_spec h₂
    rw [length_le32Bytes] at hesp'
    refine ⟨hbelow.trans hbelow', by rw [length_cons]; omega, ?_⟩
    rw [flatMap_cons, holds_append, length_le32Bytes, hesp']
    exact ⟨hw, hbelow'.holds le_rfl hws⟩

lemma pushWords_append (s : UserStack) (ws vs : List ℕ) :
    s.pushWords (ws ++ vs) = (s.pushWords vs).bind (·.pushWords ws) := by
  induction ws with
  | nil => exact (bind_fun_some _).symm
  | cons w ws ih =>
    rw [cons_append, pushWords, ih, bind_eq_bind, bind_assoc]
    rfl

/-- The string `x` is on the stack at `p`. -/
structure Keeps (s : UserStack) (p : ℕ) (x : List U8) : Prop where
  esp_le : s.esp ≤ p
  lt_top : p + x.length < userStackTop.toNat
  holds : Holds s.mem p (x ++ [0])

lemma Below.keeps (h : Below s s') (hx : Keeps s p x) : Keeps s' p x :=
  ⟨h.esp_le.trans hx.esp_le, hx.lt_top, h.holds hx.esp_le hx.holds⟩

lemma esp_le_of_keeps {ps : List ℕ} {xs : List (List U8)} (h : Forall₂ s.Keeps ps xs) :
    ∀ p ∈ ps, s.esp ≤ p :=
  ((forall₂_and_left _ _).mp (h.imp fun _ _ hx => ⟨hx.esp_le, hx⟩)).1

lemma lt_of_keeps {ps : List ℕ} {xs : List (List U8)} (h : Forall₂ s.Keeps ps xs) :
    ∀ p ∈ ps, p < 2 ^ 32 := by
  have htop : userStackTop.toNat = 0x04FFF000 := rfl
  refine ((forall₂_and_left _ _).mp (h.imp fun p x hx => ⟨?_, hx⟩)).1
  have := hx.lt_top
  omega

lemma keeps_pushBytes (h : s.pushBytes (x ++ [0]) = some s') (htop : s.esp ≤ userStackTop.toNat) :
    Keeps s' s'.esp x := by
  obtain ⟨-, hesp, hx⟩ := pushBytes_spec h
  rw [length_append, length_singleton] at hesp
  exact ⟨le_rfl, by omega, hx⟩

lemma pushStrings_spec {xs : List (List U8)} {ptrs : List ℕ}
    (h : s.pushStrings xs = some (s', ptrs)) (htop : s.esp ≤ userStackTop.toNat) :
    Below s s' ∧ Forall₂ (Keeps s') ptrs xs := by
  induction xs generalizing s' ptrs with
  | nil =>
    cases h
    exact ⟨Below.refl s, .nil⟩
  | cons x xs ih =>
    obtain ⟨⟨s₁, ps⟩, h₁, h'⟩ := bind_eq_some_iff.mp h
    obtain ⟨s₂, h₂, h₃⟩ := bind_eq_some_iff.mp h'
    cases h₃
    obtain ⟨hbelow, hps⟩ := ih h₁
    have hbelow' := (pushBytes_spec h₂).1
    exact ⟨hbelow.trans hbelow', .cons (keeps_pushBytes h₂ (hbelow.esp_le.trans htop))
      (hps.imp fun _ _ => hbelow'.keeps)⟩

end UserStack

/-! ## Reading the tables -/

section Reading

variable {m : ℕ → U8} {a p : ℕ} {x : List U8} {ws ps : List ℕ}

lemma words_succ (a n : ℕ) : words m a (n + 1) = le32 m a :: words m (a + 4) n := by
  rw [words, range_succ_eq_map, map_cons, map_map, words]
  refine congrArg₂ _ rfl (map_congr_left fun i _ => ?_)
  rw [Function.comp_apply, mul_succ, add_comm (4 * i) 4, add_assoc]

lemma words_of_holds (hws : ∀ w ∈ ws, w < 2 ^ 32) (h : Holds m a (ws.flatMap le32Bytes)) :
    words m a ws.length = ws := by
  induction ws generalizing a with
  | nil => rfl
  | cons w ws ih =>
    rw [flatMap_cons, holds_append, length_le32Bytes] at h
    rw [length_cons, words_succ, le32_of_holds (hws w mem_cons_self) h.1,
      ih (fun v hv => hws v (mem_cons_of_mem w hv)) h.2]

lemma pointersAt_of_holds {fuel : ℕ} (hps : ∀ q ∈ ps, 0 < q ∧ q < 2 ^ 32)
    (h : Holds m a ((ps ++ [0]).flatMap le32Bytes)) (hfuel : ps.length < fuel) :
    pointersAt m fuel a = some ps := by
  induction ps generalizing a fuel with
  | nil =>
    obtain ⟨n, rfl⟩ := exists_eq_succ_of_ne_zero (by omega : fuel ≠ 0)
    rw [pointersAt, if_pos (le32_of_holds (by decide) h)]
  | cons q ps ih =>
    obtain ⟨n, rfl⟩ := exists_eq_succ_of_ne_zero (by omega : fuel ≠ 0)
    rw [cons_append, flatMap_cons, holds_append, length_le32Bytes] at h
    have hq := hps q mem_cons_self
    have hword := le32_of_holds hq.2 h.1
    rw [length_cons] at hfuel
    rw [pointersAt, if_neg (by omega), hword,
      ih (fun v hv => hps v (mem_cons_of_mem q hv)) h.2 (by omega), map_some]

lemma startStrlen_of_holds {fuel : ℕ} (hx : 0 ∉ x) (h : Holds m p (x ++ [0]))
    (hfuel : x.length < fuel) : startStrlen m fuel p = some x.length := by
  induction x generalizing p fuel with
  | nil =>
    obtain ⟨n, rfl⟩ := exists_eq_succ_of_ne_zero (by omega : fuel ≠ 0)
    rw [startStrlen, if_pos (holds_cons.mp h).1, length_nil]
  | cons c x ih =>
    obtain ⟨n, rfl⟩ := exists_eq_succ_of_ne_zero (by omega : fuel ≠ 0)
    rw [cons_append, holds_cons] at h
    rw [mem_cons, not_or] at hx
    rw [length_cons] at hfuel
    rw [startStrlen, h.1, if_neg (Ne.symm hx.1), ih hx.2 h.2 (by omega), map_some,
      length_cons]

variable {s : UserStack} {xs : List (List U8)}

lemma UserStack.Keeps.stringAt (h : s.Keeps p x) (hx : 0 ∉ x) :
    stringAt s.mem p = some x := by
  have hlt := h.lt_top
  have htop : userStackTop.toNat = 0x04FFF000 := rfl
  have hspace : addressSpace = 2 ^ 32 := rfl
  rw [OpenHobbyOS.stringAt, startStrlen_of_holds hx h.holds (by omega), map_some]
  exact congrArg some (holds_append.mp h.holds).1

lemma mapM_stringAt (h : Forall₂ s.Keeps ps xs) (hxs : ∀ x ∈ xs, 0 ∉ x) :
    ps.mapM (stringAt s.mem) = some xs := by
  induction h with
  | nil => rfl
  | @cons p x ps xs hp _ ih =>
    rw [mapM_cons, hp.stringAt (hxs x mem_cons_self),
      ih fun y hy => hxs y (mem_cons_of_mem x hy)]
    rfl

lemma startCopyStrings_eq (h : Forall₂ s.Keeps ps xs) (hxs : ∀ x ∈ xs, 0 ∉ x) (n : ℕ) :
    startCopyStrings s.mem ps n = none ∨ ∃ k, startCopyStrings s.mem ps n = some (xs, k) := by
  induction h generalizing n with
  | nil => exact .inr ⟨n, rfl⟩
  | @cons p x ps xs hp _ ih =>
    rw [startCopyStrings, hp.stringAt (hxs x mem_cons_self), bind_eq_bind,
      bind_some]
    by_cases hroom : n < x.length + 1
    · exact .inl (if_pos hroom)
    · rw [if_neg hroom]
      rcases ih (fun y hy => hxs y (mem_cons_of_mem x hy)) (n - (x.length + 1)) with h | ⟨k, h⟩
      · exact .inl (by rw [h]; rfl)
      · exact .inr ⟨k, by rw [h]; rfl⟩

end Reading

/-! ## The whole stack -/

lemma length_flatMap_le32Bytes (ws : List ℕ) : (ws.flatMap le32Bytes).length = 4 * ws.length := by
  induction ws with
  | nil => rfl
  | cons w ws ih => rw [flatMap_cons, length_append, ih, length_le32Bytes, length_cons]; omega

/-- The words below the strings. -/
def tables (argPtrs envPtrs aux : List ℕ) : List ℕ :=
  [argPtrs.length] ++ argPtrs ++ [0] ++ envPtrs ++ [0] ++ aux

section Stack

variable {t : StartTask} {m : ℕ → U8} {argv : List (List U8)} {s : UserStack}

lemma pwdEnv_eq (t : StartTask) :
    pwdEnv t.cwd = text "PWD=" ++ if t.cwd = [] then text "/" else t.cwd := by
  have hfits := t.cwd_fits
  have hmax : vfsPathMax = 256 := rfl
  have hpwd : (text "PWD=").length = 4 := rfl
  have hroot : (text "/").length = 1 := rfl
  refine take_of_length_le ?_
  rw [length_append]
  split_ifs <;> omega

lemma nul_envList (t : StartTask) : ∀ x ∈ envList t.cwd, 0 ∉ x := by
  intro x hx
  rcases mem_append.mp hx with hx | hx
  · have hfixed : ∀ x ∈ fixedEnv, 0 ∉ x := by decide
    exact hfixed x hx
  · rw [mem_singleton.mp hx, pwdEnv_eq, mem_append, not_or]
    refine ⟨by decide, ?_⟩
    split_ifs
    · decide
    · exact t.cwd_nul

lemma nul_execPath (t : StartTask) : 0 ∉ t.execPath := by
  rw [StartTask.execPath]
  split_ifs
  · decide
  · exact t.path_nul

/-- The steps of the code with the strings where they were pushed and the tables below them. -/
lemma taskPrepareUserStack_spec (h : taskPrepareUserStack t m argv = some s) :
    ∃ argPtrs envPtrs execfn,
      Forall₂ s.Keeps argPtrs argv ∧ Forall₂ s.Keeps envPtrs (envList t.cwd) ∧
      s.Keeps execfn t.execPath ∧ argv.length ≤ taskStackArgMax ∧
      (∀ p ∈ execfn :: (argPtrs ++ envPtrs),
        s.esp + 4 * (argv.length + (envList t.cwd).length + 19) ≤ p) ∧
      Holds s.mem s.esp ((tables argPtrs envPtrs (auxiliary t.entry execfn)).flatMap le32Bytes) ∧
      s.esp % 16 = 0 := by
  rw [taskPrepareUserStack] at h
  by_cases hargc : taskStackArgMax < argv.length
  · rw [if_pos hargc] at h
    cases h
  rw [if_neg hargc] at h
  obtain ⟨⟨s₁, envPtrs⟩, h₁, h⟩ := bind_eq_some_iff.mp h
  obtain ⟨⟨s₂, argPtrs⟩, h₂, h⟩ := bind_eq_some_iff.mp h
  obtain ⟨s₃, h₃, h⟩ := bind_eq_some_iff.mp h
  dsimp only at h₁ h₂ h₃ h
  generalize hmeta : 16 * 4 + ((envList t.cwd).length + argv.length + 3) * 4 = metadata at h
  by_cases hroom : s₃.esp < userBase.toNat + metadata
  · rw [if_pos hroom] at h
    cases h
  rw [if_neg hroom] at h
  obtain ⟨hb₁, henv⟩ := UserStack.pushStrings_spec h₁ le_rfl
  obtain ⟨hb₂, hargs⟩ := UserStack.pushStrings_spec h₂ hb₁.esp_le
  obtain ⟨hb₃, -, -⟩ := UserStack.pushBytes_spec h₃
  have hexec := UserStack.keeps_pushBytes h₃ (hb₂.esp_le.trans hb₁.esp_le)
  have hb₄ : s₃.Below ⟨s₃.mem, (s₃.esp - metadata) / 16 * 16 + metadata⟩ :=
    ⟨by dsimp only; omega, fun _ _ => rfl⟩
  have hpush : (UserStack.mk s₃.mem ((s₃.esp - metadata) / 16 * 16 + metadata)).pushWords
      (tables argPtrs envPtrs (auxiliary t.entry s₃.esp)) = some s := by
    rw [← h]
    simp only [tables, UserStack.pushWords_append, bind_eq_bind, ← hargs.length_eq]
    rfl
  obtain ⟨hb₅, hesp, htables⟩ := UserStack.pushWords_spec hpush
  have hlength : (tables argPtrs envPtrs (auxiliary t.entry s₃.esp)).length =
      argv.length + (envList t.cwd).length + 19 := by
    simp only [tables, auxiliary, length_append, length_cons, length_nil, hargs.length_eq,
      henv.length_eq]
    omega
  rw [hlength] at hesp
  have hlow := hb₄.esp_le
  dsimp only at hlow hesp
  have hb := hb₄.trans hb₅
  refine ⟨argPtrs, envPtrs, s₃.esp, hargs.imp fun _ _ hx => (hb₃.trans hb).keeps hx,
    henv.imp fun _ _ hx => (hb₂.trans (hb₃.trans hb)).keeps hx, hb.keeps hexec, by omega,
    fun p hp => ?_, htables, by omega⟩
  -- every pointer is at or above the place where the strings end
  have hp₃ : s₃.esp ≤ p := by
    rcases mem_cons.mp hp with rfl | hp
    · exact le_rfl
    rcases mem_append.mp hp with hp | hp
    · exact hb₃.esp_le.trans (UserStack.esp_le_of_keeps hargs p hp)
    · exact hb₃.esp_le.trans (hb₂.esp_le.trans (UserStack.esp_le_of_keeps henv p hp))
  omega

/-- The start-up code finds the strings through the tables, whether it copies them or not. -/
lemma startC_eq {argPtrs envPtrs aux : List ℕ} {env : List (List U8)}
    (hargs : Forall₂ s.Keeps argPtrs argv) (henv : Forall₂ s.Keeps envPtrs env)
    (hargv : ∀ x ∈ argv, 0 ∉ x) (hnul : ∀ x ∈ env, 0 ∉ x) (hargc : argPtrs.length < 2 ^ 32)
    (hpos : ∀ p ∈ envPtrs, 0 < p) (henvc : envPtrs.length < 63)
    (h : Holds s.mem s.esp ((tables argPtrs envPtrs aux).flatMap le32Bytes)) :
    startC s.mem s.esp = some (argv.length, argv, env) := by
  simp only [tables, append_assoc, flatMap_append, holds_append,
    length_flatMap_le32Bytes, length_singleton] at h
  obtain ⟨hcount, hargPtrs, hnull, henvPtrs, hend, -⟩ := h
  have hargc' : le32 s.mem s.esp = argPtrs.length := le32_of_holds hargc hcount
  have hwords := words_of_holds (UserStack.lt_of_keeps hargs) hargPtrs
  have hpointers : ∀ fuel, 63 ≤ fuel →
      pointersAt s.mem fuel (s.esp + 4 + 4 * argPtrs.length + 4) = some envPtrs := by
    intro fuel hfuel
    refine pointersAt_of_holds (fun p hp => ⟨hpos p hp, UserStack.lt_of_keeps henv p hp⟩) ?_
      (by omega)
    rw [flatMap_append, holds_append, length_flatMap_le32Bytes]
    exact ⟨henvPtrs, hend⟩
  have hcopies : startCopyVectors s.mem argPtrs.length (s.esp + 4)
      (s.esp + 4 + 4 * argPtrs.length + 4) = none ∨
        startCopyVectors s.mem argPtrs.length (s.esp + 4)
          (s.esp + 4 + 4 * argPtrs.length + 4) = some (argv, env) := by
    rw [startCopyVectors]
    split_ifs with hmany
    · exact .inl rfl
    rw [hpointers 63 le_rfl, hwords]
    rcases startCopyStrings_eq hargs hargv 16384 with h | ⟨n, h⟩
    · exact .inl (by rw [h]; rfl)
    rcases startCopyStrings_eq henv hnul n with h' | ⟨k, h'⟩
    · refine .inl ?_
      rw [h]
      exact congrArg (bind · _) h'
    · refine .inr ?_
      rw [h]
      exact congrArg (bind · _) h'
  rw [startC, hargc', ← hargs.length_eq]
  rcases hcopies with h | h
  · rw [h, hwords, mapM_stringAt hargs hargv, hpointers addressSpace (by decide)]
    exact congrArg (bind · _) (mapM_stringAt henv hnul)
  · rw [h]

/-- **The stack of a new program.**  The start-up code finds the argument vector and the
environment, the tables end where they should and lie below all strings, and ESP is aligned. -/
theorem stack_round_trip (t : StartTask) (m : ℕ → U8) (argv : List (List U8)) (s : UserStack)
    (hargv : ∀ x ∈ argv, 0 ∉ x) (h : taskPrepareUserStack t m argv = some s) :
    RoundTrip t argv s := by
  obtain ⟨argPtrs, envPtrs, execfn, hargs, henv, hexec, hargc, habove, htables, haligned⟩ :=
    taskPrepareUserStack_spec h
  have hmax : taskStackArgMax = 32 := rfl
  have hlen := hargs.length_eq
  have henvc : (envList t.cwd).length = 13 := rfl
  have hexecfn : execfn < 2 ^ 32 := UserStack.lt_of_keeps (.cons hexec .nil) _ mem_cons_self
  refine ⟨?_, ⟨argPtrs, envPtrs, execfn, ?_, mapM_stringAt hargs hargv,
    mapM_stringAt henv (nul_envList t), hexec.stringAt (nul_execPath t), habove⟩, haligned⟩
  · refine startC_eq hargs henv hargv (nul_envList t) (by omega) (fun p hp => ?_)
      (by rw [henv.length_eq, henvc]; decide) htables
    have := habove p (mem_cons_of_mem _ (mem_append_right _ hp))
    omega
  · have hsmall : ∀ w ∈ tables argPtrs envPtrs (auxiliary t.entry execfn), w < 2 ^ 32 := by
      have hentry := t.entry.isLt
      have hargPtrs := UserStack.lt_of_keeps hargs
      have henvPtrs := UserStack.lt_of_keeps henv
      simp only [tables, forall_mem_append, forall_mem_singleton]
      refine ⟨⟨⟨⟨⟨by omega, hargPtrs⟩, by decide⟩, henvPtrs⟩, by decide⟩, ?_⟩
      simp only [auxiliary, pageSize, forall_mem_cons, not_mem_nil, IsEmpty.forall_iff,
        implies_true, and_true]
      omega
    have hwords := words_of_holds hsmall htables
    rw [← hlen]
    refine Eq.trans (congrArg (words s.mem s.esp) ?_) hwords
    simp only [tables, auxiliary, length_append, length_cons, length_nil, henv.length_eq]
    omega

/-- A shell started in the directory `/tmp`. -/
def shellTask : StartTask where
  path := text "/bin/gosh"
  cwd := text "/tmp"
  entry := 0x02000000
  path_nul := of_decide_eq_true rfl
  cwd_nul := of_decide_eq_true rfl
  cwd_fits := of_decide_eq_true rfl

/-- The arguments of a shell. -/
def shellArgs : List (List U8) := [text "gosh", text "-c", []]

theorem stack_round_trip_shell : ∃ s, taskPrepareUserStack shellTask (fun _ => 0) shellArgs =
    some s ∧ RoundTrip shellTask shellArgs s := by
  have hsome : (taskPrepareUserStack shellTask (fun _ => 0) shellArgs).isSome = true := by
    decide +kernel
  obtain ⟨s, hs⟩ := isSome_iff_exists.mp hsome
  exact ⟨s, hs, stack_round_trip shellTask _ shellArgs s (by decide) hs⟩

end Stack

end OpenHobbyOS
