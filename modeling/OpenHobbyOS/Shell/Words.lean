/-
# Splitting a command line into words

`parse_line` of `user/gosh.c` and `sh_parse_command` of `user/sh.c` write the words over the line
they read.  `Parser` is that program, one pass of a loop at a time; `Scan` writes to other memory
than it reads.
-/
import OpenHobbyOS.Lib.Bytes
import OpenHobbyOS.Vfs.Tree

namespace OpenHobbyOS.Shell

open Lib Paging List Nat Function

/-! ## The parsers -/

/-- A blank. -/
def space : U8 := 0x20
/-- A tab. -/
def tab : U8 := 0x09
/-- A line feed. -/
def newline : U8 := 0x0A
/-- A double quote. -/
def doubleQuote : U8 := 0x22
/-- A single quote. -/
def singleQuote : U8 := 0x27
/-- A backslash. -/
def backslash : U8 := 0x5C

/-- Where the two parsers differ. -/
structure Dialect where
  blank : U8 → Bool
  argMax : ℕ

/-- `parse_line`, with `ARG_MAX - 1` arguments at most. -/
def gosh : Dialect := ⟨fun ch => ch = space || ch = tab, 63⟩

/-- `sh_parse_command`, with `SH_ARG_MAX - 1` arguments at most. -/
def sh : Dialect := ⟨fun ch => ch = space || ch = tab || ch = newline, 31⟩

/-- A quote opens or closes, a byte is written (with the byte behind it read as well, or not), or
the word ends. -/
inductive Act where
  | quote (quote : U8)
  | put (ch : U8) (skip : Bool)
  | stop

/-- The body of the inner loop for the byte `ch` with `next` behind it. -/
def act (d : Dialect) (quote ch next : U8) : Act :=
  if quote ≠ 0 then
    if ch = quote then .quote 0
    else if ch = backslash ∧ quote = doubleQuote ∧ (next = doubleQuote ∨ next = backslash) then
      .put next true
    else .put ch false
  else if ch = doubleQuote ∨ ch = singleQuote then .quote ch
  else if d.blank ch then .stop
  else if ch = backslash ∧ next ≠ 0 then .put next true
  else .put ch false

/-- The heads of the outer loop and of the inner one, and the two ways to return. -/
inductive Phase where
  | between
  | word (quote : U8)
  | done
  | failed
  deriving DecidableEq

/-- The line's memory with the two cursors, and the places of the arguments in it. -/
structure Parser where
  mem : ℕ → U8
  rp : ℕ
  wp : ℕ
  argv : List ℕ
  phase : Phase

namespace Parser

/-- The line with its zero byte. -/
def start (line : List U8) : Parser := ⟨((line ++ [0]).getD · 0), 0, 0, [], .between⟩

/-- An open quote is an error, a word gets its zero byte. -/
def endWord (p : Parser) (quote : U8) : Parser :=
  if quote ≠ 0 then { p with phase := .failed }
  else { p with mem := splice p.mem p.wp [0], wp := p.wp + 1, phase := .between }

/-- One byte read by the inner loop. -/
def read (p : Parser) (quote : U8) : Act → Parser
  | .quote q => { p with rp := p.rp + 1, phase := .word q }
  | .put ch skip =>
    { p with
      mem := splice p.mem p.wp [ch]
      wp := p.wp + 1
      rp := if skip then p.rp + 2 else p.rp + 1 }
  | .stop => { p with rp := p.rp + 1 }.endWord quote

/-- A pass of the parser. -/
def step (d : Dialect) (p : Parser) : Parser :=
  match p.phase with
  | .between =>
    if p.mem p.rp = 0 then { p with phase := .done }
    else if d.blank (p.mem p.rp) then { p with rp := p.rp + 1 }
    else if d.argMax ≤ p.argv.length then { p with phase := .failed }
    else { p with argv := p.argv ++ [p.wp], phase := .word 0 }
  | .word quote =>
    if p.mem p.rp = 0 then p.endWord quote
    else p.read quote (act d quote (p.mem p.rp) (p.mem (p.rp + 1)))
  | .done | .failed => p

/-- The string at an address of the line's memory. -/
def stringAt (mem : ℕ → U8) (size a : ℕ) : List U8 := (window mem a size).takeWhile (· ≠ 0)

end Parser

/-- A parse: three passes for a byte are enough.  The inner `none` is -1. -/
def parse (d : Dialect) (line : List U8) : Option (Option (List (List U8))) :=
  let p := (Parser.step d)^[3 * line.length + 2] (.start line)
  match p.phase with
  | .done => some (some (p.argv.map (Parser.stringAt p.mem (line.length + 1))))
  | .failed => some none
  | _ => none

/-- The line not read yet, the finished words, and the word being written. -/
structure Scan where
  rest : List U8
  args : List (List U8)
  word : List U8
  phase : Phase

namespace Scan

/-- Nothing is read yet. -/
def start (line : List U8) : Scan := ⟨line, [], [], .between⟩

/-- A word ends. -/
def endWord (s : Scan) (quote : U8) : Scan :=
  if quote ≠ 0 then { s with phase := .failed }
  else { s with args := s.args ++ [s.word], word := [], phase := .between }

/-- A byte is read. -/
def read (s : Scan) (rest : List U8) (quote : U8) : Act → Scan
  | .quote q => { s with rest := rest, phase := .word q }
  | .put ch skip =>
    { s with rest := if skip then rest.tail else rest, word := s.word ++ [ch] }
  | .stop => { s with rest := rest }.endWord quote

/-- A pass of the scan. -/
def step (d : Dialect) (s : Scan) : Scan :=
  match s.phase, s.rest with
  | .between, [] => { s with phase := .done }
  | .between, ch :: rest =>
    if d.blank ch then { s with rest := rest }
    else if d.argMax ≤ s.args.length then { s with phase := .failed }
    else { s with phase := .word 0 }
  | .word quote, [] => s.endWord quote
  | .word quote, ch :: rest => s.read rest quote (act d quote ch (rest.headD 0))
  | .done, _ | .failed, _ => s

/-- The bytes written so far, a zero byte behind each finished word. -/
def out (s : Scan) : List U8 := s.args.flatMap (· ++ [0]) ++ s.word

/-- The words begun so far. -/
def words (s : Scan) : List (List U8) :=
  match s.phase with
  | .word _ => s.args ++ [s.word]
  | _ => s.args

/-- No zero byte is left to read, and none was written into a word. -/
def Clean (s : Scan) : Prop := 0 ∉ s.rest ∧ 0 ∉ s.word ∧ ∀ w ∈ s.args, 0 ∉ w

end Scan

/-- The parse out of place. -/
def scan (d : Dialect) (line : List U8) : Option (List (List U8)) :=
  let s := (Scan.step d)^[3 * line.length + 2] (.start line)
  if s.phase = .done then some s.args else none

/-! ## In place and out of place -/

/-- Where each word starts, the first at `a`. -/
def starts : ℕ → List (List U8) → List ℕ
  | _, [] => []
  | a, w :: ws => a :: starts (a + w.length + 1) ws

lemma length_starts (a : ℕ) (ws : List (List U8)) : (starts a ws).length = ws.length := by
  induction ws generalizing a with
  | nil => rfl
  | cons w ws ih => rw [starts, length_cons, ih, length_cons]

lemma starts_concat (a : ℕ) (ws : List (List U8)) (w : List U8) :
    starts a (ws ++ [w]) = starts a ws ++ [a + (ws.flatMap (· ++ [0])).length] := by
  induction ws generalizing a with
  | nil => rfl
  | cons v ws ih =>
    rw [cons_append, starts, ih, starts, flatMap_cons, length_append, length_append]
    simp only [length_singleton, cons_append, add_assoc]

/-- The parser in place has written the bytes of the one out of place, all before the read cursor,
and the bytes from that cursor on are as they were. -/
structure Mirrors (n : ℕ) (p : Parser) (s : Scan) : Prop where
  phase : p.phase = s.phase
  written : Holds p.mem 0 s.out
  cursor : p.wp = s.out.length
  unread : Holds p.mem p.rp (s.rest ++ [0])
  place : p.rp + s.rest.length = n
  behind : p.wp ≤ p.rp ∨ s.rest = [] ∧ (∀ q, s.phase ≠ .word q) ∧ p.wp = p.rp + 1
  argv : s.phase ≠ .failed → p.argv = starts 0 s.words
  idle : s.phase = .between → s.word = []
  clean : s.Clean

lemma act_put {d : Dialect} {quote ch next c : U8} {skip : Bool}
    (h : act d quote ch next = .put c skip) :
    (c = ch ∧ skip = false) ∨ (c = next ∧ skip = true ∧ next ≠ 0) := by
  have hquote : doubleQuote ≠ 0 := by decide
  have hback : backslash ≠ 0 := by decide
  simp only [act] at h
  split_ifs at h with h1 h2 h3 h4 h5 h6 <;> cases h
  · right
    refine ⟨rfl, rfl, ?_⟩
    rcases h3.2.2 with rfl | rfl
    · exact hquote
    · exact hback
  · exact .inl ⟨rfl, rfl⟩
  · exact .inr ⟨rfl, rfl, h6.2⟩
  · exact .inl ⟨rfl, rfl⟩

namespace Mirrors

variable {n : ℕ} {p : Parser} {s : Scan} {d : Dialect}

lemma start (line : List U8) (h : 0 ∉ line) : Mirrors line.length (.start line) (.start line) where
  phase := rfl
  written := holds_nil _ _
  cursor := rfl
  unread := by
    have := holds_getD (line ++ [0]) [] (0 : U8)
    rwa [append_nil] at this
  place := zero_add _
  behind := .inl le_rfl
  argv _ := rfl
  idle _ := rfl
  clean := ⟨h, by simp [Scan.start], by simp [Scan.start]⟩

lemma endWord (h : Mirrors n p s) {quote : U8} (hphase : s.phase = .word quote) {k : ℕ}
    {rest : List U8} (hrest : Holds p.mem (p.rp + k) (rest ++ [0])) (hwp : p.wp ≤ p.rp)
    (hk : k = 0 → rest = []) (hplace : p.rp + k + rest.length = n) (hclean : 0 ∉ rest) :
    Mirrors n ({ p with rp := p.rp + k }.endWord quote)
      ({ s with rest := rest }.endWord quote) := by
  obtain ⟨-, hc2, hc3⟩ := h.clean
  have hargv := h.argv (by rw [hphase]; exact Phase.noConfusion)
  obtain ⟨-, hwritten, hcursor, -, -, -, -, -, -⟩ := h
  obtain ⟨mem, rp, wp, argv, phase⟩ := p
  obtain ⟨rest', args, word, phase'⟩ := s
  obtain rfl : phase' = .word quote := hphase
  dsimp only at *
  by_cases hq : quote ≠ 0
  · rw [Parser.endWord, Scan.endWord, if_pos hq, if_pos hq]
    exact ⟨rfl, hwritten, hcursor, hrest, hplace, .inl (hwp.trans (le_add_right _ _)),
      fun hf => absurd rfl hf, by simp, hclean, hc2, hc3⟩
  · rw [Parser.endWord, Scan.endWord, if_neg hq, if_neg hq]
    have hout : Scan.out ⟨rest, args ++ [word], [], .between⟩ =
        Scan.out ⟨rest', args, word, .word quote⟩ ++ [0] := by
      simp [Scan.out]
    refine ⟨rfl, ?_, ?_, ?_, hplace, ?_, fun _ => hargv, fun _ => rfl, hclean,
      not_mem_nil, ?_⟩
    · rw [hout]
      have := holds_splice_append hwritten [0]
      rwa [zero_add, ← hcursor] at this
    · rw [hout, length_append, ← hcursor]
      rfl
    · rcases lt_or_ge wp (rp + k) with hlt | hge
      · exact (holds_splice_of_le hlt).mpr hrest
      · -- the zero byte of the line is written over with a zero byte
        obtain rfl := hk (by omega)
        show Holds (splice mem wp [0]) (rp + k) [0]
        rw [show rp + k = wp by omega]
        exact holds_splice _ _ _
    · rcases lt_or_ge wp (rp + k) with hlt | hge
      · exact .inl hlt
      · exact .inr ⟨hk (by omega), by simp, by dsimp only; omega⟩
    · simp only [mem_append, mem_singleton]
      rintro w (hw | rfl)
      · exact hc3 w hw
      · exact hc2

lemma put (h : Mirrors n p s) {quote ch : U8} (hphase : s.phase = .word quote) {k : ℕ}
    {rest : List U8} (hrest : Holds p.mem (p.rp + k) (rest ++ [0])) (hwp : p.wp ≤ p.rp)
    (hk : 0 < k) (hplace : p.rp + k + rest.length = n) (hclean : 0 ∉ rest) (hch : ch ≠ 0) :
    Mirrors n { p with mem := splice p.mem p.wp [ch], wp := p.wp + 1, rp := p.rp + k }
      { s with rest := rest, word := s.word ++ [ch] } := by
  obtain ⟨-, hc2, hc3⟩ := h.clean
  have hargv := h.argv (by rw [hphase]; exact Phase.noConfusion)
  obtain ⟨hsame, hwritten, hcursor, -, -, -, -, -, -⟩ := h
  obtain ⟨mem, rp, wp, argv, phase⟩ := p
  obtain ⟨rest', args, word, phase'⟩ := s
  obtain rfl : phase' = .word quote := hphase
  dsimp only at *
  have hout : Scan.out ⟨rest, args, word ++ [ch], .word quote⟩ =
      Scan.out ⟨rest', args, word, .word quote⟩ ++ [ch] := by
    simp [Scan.out]
  refine ⟨hsame, ?_, ?_, ?_, hplace, .inl (show wp + 1 ≤ rp + k by omega), fun _ => ?_, by simp,
    hclean, ?_, hc3⟩
  · rw [hout]
    have := holds_splice_append hwritten [ch]
    rwa [zero_add, ← hcursor] at this
  · rw [hout, length_append, ← hcursor]
    rfl
  · exact (holds_splice_of_le (show wp + 1 ≤ rp + k by omega)).mpr hrest
  · -- where the word starts does not depend on its bytes
    rw [hargv]
    simp only [Scan.words, starts_concat]
  · rw [mem_append, mem_singleton]
    rintro (h0 | h0)
    · exact hc2 h0
    · exact hch h0.symm

lemma step_between (h : Mirrors n p s) (hphase : s.phase = .between) :
    Mirrors n (p.step d) (s.step d) := by
  obtain ⟨hsame, hwritten, hcursor, hunread, hplace, hbehind, hargv, hidle, hc1, hc2, hc3⟩ := h
  obtain ⟨mem, rp, wp, argv, phase⟩ := p
  obtain ⟨rest, args, word, phase'⟩ := s
  obtain rfl : phase' = .between := hphase
  obtain rfl : phase = .between := hsame
  dsimp only at *
  obtain rfl : argv = starts 0 args := hargv Phase.noConfusion
  obtain rfl : word = [] := hidle rfl
  cases rest with
  | nil =>
    simp only [Parser.step, Scan.step, (holds_cons.mp hunread).1, if_true]
    exact ⟨rfl, hwritten, hcursor, hunread, hplace, hbehind.imp_right (by simp), fun _ => rfl,
      by simp, hc1, hc2, hc3⟩
  | cons ch rest =>
    obtain ⟨hch, hrest⟩ := holds_cons.mp hunread
    have hne : ch ≠ 0 := fun h0 => hc1 (h0 ▸ mem_cons_self)
    have hc1' : 0 ∉ rest := fun h0 => hc1 (mem_cons_of_mem _ h0)
    have hwp : wp ≤ rp := hbehind.resolve_right (by simp)
    simp only [Parser.step, Scan.step, hch, if_neg hne, length_starts]
    split_ifs with hblank hmax
    · refine ⟨rfl, hwritten, hcursor, hrest, ?_, .inl (le_succ_of_le hwp), fun _ => rfl,
        fun _ => rfl, hc1', hc2, hc3⟩
      simp only [length_cons] at hplace ⊢
      omega
    · exact ⟨rfl, hwritten, hcursor, hunread, hplace, .inl hwp, fun hf => absurd rfl hf,
        fun _ => rfl, hc1, hc2, hc3⟩
    · refine ⟨rfl, hwritten, hcursor, hunread, hplace, .inl hwp, fun _ => ?_, fun _ => rfl,
        hc1, hc2, hc3⟩
      rw [Scan.words, starts_concat, hcursor]
      simp [Scan.out]

lemma step_word (h : Mirrors n p s) {quote : U8} (hphase : s.phase = .word quote) :
    Mirrors n (p.step d) (s.step d) := by
  have hmirrors := h
  obtain ⟨hsame, hwritten, hcursor, hunread, hplace, hbehind, hargv, -, hc1, hc2, hc3⟩ := h
  obtain ⟨mem, rp, wp, argv, phase⟩ := p
  obtain ⟨rest, args, word, phase'⟩ := s
  obtain rfl : phase' = .word quote := hphase
  obtain rfl : phase = .word quote := hsame
  dsimp only at *
  have hwp : wp ≤ rp := hbehind.resolve_right fun hlast => hlast.2.1 quote rfl
  cases rest with
  | nil =>
    simp only [Parser.step, Scan.step, (holds_cons.mp hunread).1, if_true]
    exact hmirrors.endWord (k := 0) rfl hunread hwp (fun _ => rfl) hplace hc1
  | cons ch rest =>
    obtain ⟨hch, hrest⟩ := holds_cons.mp hunread
    have hne : ch ≠ 0 := fun h0 => hc1 (h0 ▸ mem_cons_self)
    have hc1' : 0 ∉ rest := fun h0 => hc1 (mem_cons_of_mem _ h0)
    have hplace' : rp + 1 + rest.length = n := by
      rw [length_cons] at hplace
      omega
    have hnext : mem (rp + 1) = rest.headD 0 := by
      cases rest <;> exact (holds_cons.mp hrest).1
    simp only [Parser.step, Scan.step, hch, if_neg hne, hnext]
    cases hact : act d quote ch (rest.headD 0) with
    | quote q =>
      exact ⟨rfl, hwritten, hcursor, hrest, hplace', .inl (le_succ_of_le hwp),
        fun _ => hargv Phase.noConfusion, by simp [Scan.read], hc1', hc2, hc3⟩
    | stop => exact hmirrors.endWord (k := 1) rfl hrest hwp (by simp) hplace' hc1'
    | put c skip =>
      rcases act_put hact with ⟨rfl, rfl⟩ | ⟨rfl, rfl, hnext0⟩
      · exact hmirrors.put (k := 1) rfl hrest hwp one_pos hplace' hc1' hne
      · cases rest with
        | nil => exact absurd rfl hnext0
        | cons next rest =>
          have hplace'' : rp + 2 + rest.length = n := by
            rw [length_cons] at hplace'
            omega
          exact hmirrors.put (k := 2) rfl (holds_cons.mp hrest).2 hwp two_pos hplace''
            (fun h0 => hc1' (mem_cons_of_mem _ h0)) hnext0

/-- **One pass of a loop** keeps the two parsers together. -/
lemma step (h : Mirrors n p s) : Mirrors n (p.step d) (s.step d) := by
  have hsame := h.phase
  cases hphase : s.phase with
  | between => exact h.step_between hphase
  | word quote => exact h.step_word hphase
  | done =>
    rw [hphase] at hsame
    simpa only [Parser.step, Scan.step, hphase, hsame] using h
  | failed =>
    rw [hphase] at hsame
    simpa only [Parser.step, Scan.step, hphase, hsame] using h

lemma iterate (h : Mirrors n p s) (k : ℕ) :
    Mirrors n ((Parser.step d)^[k] p) ((Scan.step d)^[k] s) := by
  induction k with
  | zero => exact h
  | succ k ih =>
    rw [iterate_succ_apply', iterate_succ_apply']
    exact ih.step

end Mirrors

lemma map_stringAt {mem : ℕ → U8} {size a : ℕ} {ws : List (List U8)}
    (h : Holds mem a (ws.flatMap (· ++ [0]))) (hsize : ∀ w ∈ ws, w.length < size)
    (hclean : ∀ w ∈ ws, 0 ∉ w) : (starts a ws).map (Parser.stringAt mem size) = ws := by
  induction ws generalizing a with
  | nil => rfl
  | cons w ws ih =>
    rw [flatMap_cons, append_assoc, holds_append, holds_append] at h
    obtain ⟨hw, hzero, hws⟩ := h
    have hfirst : Parser.stringAt mem size a = w := by
      obtain ⟨m, rfl⟩ := Nat.exists_eq_add_of_lt (hsize w mem_cons_self)
      have hsplit : window mem a (w.length + m + 1) =
          w ++ 0 :: window mem (a + w.length + 1) m := by
        rw [add_assoc, add_comm m, ← window_append, ← window_append, hw,
          show window mem (a + w.length) 1 = [0] from hzero, singleton_append]
      rw [Parser.stringAt, hsplit, takeWhile_append_of_pos, takeWhile_cons_of_neg (by simp),
        append_nil]
      intro x hx
      exact decide_eq_true fun h0 => hclean w mem_cons_self (h0 ▸ hx)
    rw [starts, map_cons, hfirst]
    congr 1
    exact ih hws (fun v hv => hsize v (mem_cons_of_mem _ hv))
      fun v hv => hclean v (mem_cons_of_mem _ hv)

/-! ## Every parse returns -/

namespace Scan

variable {d : Dialect} {s t : Scan}

/-- The scan has come to a return. -/
def Returned (s : Scan) : Prop := s.phase = .done ∨ s.phase = .failed

/-- A bound on the passes that are left. -/
def weight (s : Scan) : ℕ :=
  match s.phase, s.rest with
  | .between, rest => 3 * rest.length + 1
  | .word _, [] => 2
  | .word _, rest => 3 * rest.length
  | _, _ => 0

lemma weight_step (s : Scan) : s.Returned ∨ (s.step d).weight < s.weight := by
  obtain ⟨rest, args, word, phase⟩ := s
  cases phase with
  | between =>
    right
    cases rest with
    | nil => exact one_pos
    | cons ch rest =>
      simp only [step]
      split_ifs <;> simp [weight]
  | word quote =>
    right
    cases rest with
    | nil =>
      simp only [step, endWord]
      split_ifs <;> simp [weight]
    | cons ch rest =>
      simp only [step]
      have hrest : ∀ r : List U8, r.length ≤ rest.length → ∀ args word q,
          weight ⟨r, args, word, .word q⟩ < 3 * (rest.length + 1) := by
        intro r hr args word q
        cases r with
        | nil => simp [weight]; omega
        | cons b r => simp [weight] at hr ⊢; omega
      cases act d quote ch (rest.headD 0) with
      | quote q => exact hrest rest le_rfl _ _ _
      | put c skip => exact hrest _ (by cases skip <;> simp) _ _ _
      | stop =>
        simp only [read, endWord]
        split_ifs <;> simp [weight]
        omega
  | done => exact .inl (.inl rfl)
  | failed => exact .inl (.inr rfl)

lemma step_of_returned (h : s.Returned) : s.step d = s := by
  obtain ⟨rest, args, word, phase⟩ := s
  obtain rfl | rfl := h <;> rfl

lemma returned_iterate {k : ℕ} (h : s.weight ≤ k) : ((step d)^[k] s).Returned := by
  induction k generalizing s with
  | zero => exact (weight_step (d := d) s).resolve_right (by omega)
  | succ k ih =>
    rw [iterate_succ_apply]
    refine ih ?_
    rcases weight_step (d := d) s with hr | hlt
    · rw [step_of_returned hr]
      obtain ⟨rest, args, word, phase⟩ := s
      obtain rfl | rfl := hr <;> exact zero_le _
    · omega

lemma iterate_eq {k n : ℕ} (hk : s.weight ≤ k) (hn : (step d)^[n] s = t) (ht : t.Returned) :
    (step d)^[k] s = t := by
  rcases le_total n k with hle | hle
  · obtain ⟨m, rfl⟩ := Nat.exists_eq_add_of_le hle
    rw [add_comm, iterate_add_apply, hn, iterate_fixed (step_of_returned ht)]
  · obtain ⟨m, rfl⟩ := Nat.exists_eq_add_of_le hle
    rw [add_comm, iterate_add_apply,
      iterate_fixed (step_of_returned (returned_iterate hk))] at hn
    exact hn

end Scan

/-- **The parse in place is the one out of place.** -/
lemma parse_eq (d : Dialect) {line : List U8} (h : 0 ∉ line) :
    parse d line = some (scan d line) := by
  have hmirrors := (Mirrors.start line h).iterate (d := d) (3 * line.length + 2)
  have hreturned : ((Scan.step d)^[3 * line.length + 2] (.start line)).Returned :=
    Scan.returned_iterate (le_succ _)
  simp only [parse, scan]
  generalize (Parser.step d)^[3 * line.length + 2] (.start line) = p at hmirrors
  generalize (Scan.step d)^[3 * line.length + 2] (.start line) = s at hmirrors hreturned
  obtain ⟨hphase, hwritten, hcursor, -, hplace, hbehind, hargv, -, -, hclean, hcleans⟩ := hmirrors
  rcases hreturned with hdone | hfailed
  · have hwords : s.words = s.args := by rw [Scan.words, hdone]
    rw [hphase, hdone, if_pos rfl, hargv (by rw [hdone]; exact Phase.noConfusion), hwords]
    refine congrArg (some <| some ·) (map_stringAt (holds_append.mp hwritten).1 ?_ hcleans)
    intro w hw
    have hlen : (w ++ [0]).length ≤ (s.args.flatMap (· ++ [0])).length := by
      rw [flatMap_def]
      exact (sublist_flatten_of_mem (mem_map_of_mem (f := (· ++ [0])) hw)).length_le
    rw [length_append, length_singleton] at hlen
    rw [Scan.out, length_append] at hcursor
    rcases hbehind with hle | ⟨hnil, -, hle⟩
    · omega
    · rw [hnil, length_nil] at hplace
      omega
  · rw [hphase, hfailed, if_neg Phase.noConfusion]

/-! ## Quoting -/

/-- A quote or a backslash with a backslash before it. -/
def escape (ch : U8) : List U8 :=
  if ch = doubleQuote ∨ ch = backslash then [backslash, ch] else [ch]

/-- An argument in double quotes. -/
def quoted (arg : List U8) : List U8 := doubleQuote :: (arg.flatMap escape ++ [doubleQuote])

/-- The line is the quoted arguments, with spaces and tabs between them. -/
inductive Joined : List (List U8) → List U8 → Prop
  | nil : Joined [] []
  | one (arg : List U8) : Joined [arg] (quoted arg)
  | cons (arg : List U8) {gap : List U8} {args : List (List U8)} {line : List U8}
      (hne : gap ≠ []) (hgap : ∀ ch ∈ gap, ch = space ∨ ch = tab) (h : Joined args line) :
      Joined (arg :: args) (quoted arg ++ (gap ++ line))

lemma Joined.clean {args : List (List U8)} {line : List U8} (h : Joined args line)
    (hargs : ∀ arg ∈ args, 0 ∉ arg) : 0 ∉ line := by
  have hquoted : ∀ arg : List U8, 0 ∉ arg → 0 ∉ quoted arg := by
    intro arg harg h0
    simp only [quoted, mem_cons, mem_append, mem_flatMap, not_mem_nil, or_false] at h0
    rcases h0 with h0 | ⟨ch, hch, h0⟩ | h0
    · exact absurd h0 (by decide)
    · rw [escape] at h0
      have hback : (0 : U8) ≠ backslash := by decide
      split_ifs at h0 <;> simp only [mem_cons, not_mem_nil, or_false, hback, false_or] at h0 <;>
        exact harg (h0 ▸ hch)
    · exact absurd h0 (by decide)
  induction h with
  | nil => exact not_mem_nil
  | one arg => exact hquoted arg (hargs arg mem_cons_self)
  | cons arg hne hgap _ ih =>
    simp only [mem_append, not_or]
    refine ⟨hquoted arg (hargs arg mem_cons_self), fun h0 => ?_,
      ih fun a ha => hargs a (mem_cons_of_mem _ ha)⟩
    rcases hgap 0 h0 with h0 | h0 <;> exact absurd h0 (by decide)

section Quoting

variable {d : Dialect} {args : List (List U8)} {word : List U8}

/-- Spaces and tabs are blanks, the double quote is none. -/
structure Ordinary (d : Dialect) : Prop where
  quote : d.blank doubleQuote = false
  blank : ∀ {ch}, ch = space ∨ ch = tab → d.blank ch = true

lemma Ordinary.gosh : Ordinary gosh := ⟨rfl, by rintro _ (rfl | rfl) <;> rfl⟩

lemma Ordinary.sh : Ordinary sh := ⟨rfl, by rintro _ (rfl | rfl) <;> rfl⟩

/-- One state is reached from another. -/
def Leads (d : Dialect) (s t : Scan) : Prop := ∃ n, (Scan.step d)^[n] s = t

lemma Leads.trans {s t u : Scan} (h : Leads d s t) (h' : Leads d t u) : Leads d s u := by
  obtain ⟨n, rfl⟩ := h
  obtain ⟨m, rfl⟩ := h'
  exact ⟨m + n, iterate_add_apply _ _ _ _⟩

lemma Leads.step {s t : Scan} (h : s.step d = t) : Leads d s t := ⟨1, h⟩

lemma leads_escaped (arg rest : List U8) :
    Leads d ⟨arg.flatMap escape ++ doubleQuote :: rest, args, word, .word doubleQuote⟩
      ⟨rest, args, word ++ arg, .word 0⟩ := by
  have hquote : doubleQuote ≠ 0 := by decide
  induction arg generalizing word with
  | nil =>
    refine .step ?_
    rw [append_nil]
    rfl
  | cons ch arg ih =>
    have hput : Leads d
        ⟨escape ch ++ (arg.flatMap escape ++ doubleQuote :: rest), args, word, .word doubleQuote⟩
        ⟨arg.flatMap escape ++ doubleQuote :: rest, args, word ++ [ch], .word doubleQuote⟩ := by
      refine .step ?_
      rw [escape]
      split_ifs with hspecial
      · have hact : act d doubleQuote backslash ch = .put ch true := by
          rw [act, if_pos hquote, if_neg (by decide), if_pos ⟨rfl, rfl, hspecial⟩]
        show Scan.read _ _ _ (act d doubleQuote backslash ch) = _
        rw [hact]
        rfl
      · have hact : ∀ next, act d doubleQuote ch next = .put ch false := by
          intro next
          rw [not_or] at hspecial
          rw [act, if_pos hquote, if_neg hspecial.1, if_neg fun h => hspecial.2 h.1]
        show Scan.read _ _ _ (act d doubleQuote ch _) = _
        rw [hact]
        rfl
    rw [flatMap_cons, append_assoc]
    have := hput.trans ih
    rwa [append_assoc] at this

lemma leads_quoted (hd : Ordinary d) (hlen : args.length < d.argMax) (arg rest : List U8) :
    Leads d ⟨quoted arg ++ rest, args, [], .between⟩ ⟨rest, args, arg, .word 0⟩ := by
  have hbegin : Leads d ⟨quoted arg ++ rest, args, [], .between⟩
      ⟨quoted arg ++ rest, args, [], .word 0⟩ := by
    refine .step ?_
    show (if d.blank doubleQuote = true then _ else if d.argMax ≤ args.length then _ else _) = _
    rw [hd.quote, if_neg Bool.false_ne_true, if_neg (by omega)]
  have hopen : Leads d ⟨quoted arg ++ rest, args, [], .word 0⟩
      ⟨arg.flatMap escape ++ doubleQuote :: rest, args, [], .word doubleQuote⟩ := by
    refine .step ?_
    rw [quoted, cons_append, append_assoc]
    rfl
  exact hbegin.trans (hopen.trans (leads_escaped arg rest))

lemma leads_gap (hd : Ordinary d) {gap : List U8} (hne : gap ≠ [])
    (hgap : ∀ ch ∈ gap, ch = space ∨ ch = tab) (line : List U8) :
    Leads d ⟨gap ++ line, args, word, .word 0⟩ ⟨line, args ++ [word], [], .between⟩ := by
  have hskip : ∀ gap : List U8, (∀ ch ∈ gap, ch = space ∨ ch = tab) → ∀ args : List (List U8),
      Leads d ⟨gap ++ line, args, [], .between⟩ ⟨line, args, [], .between⟩ := by
    intro gap hgap args
    induction gap with
    | nil => exact ⟨0, rfl⟩
    | cons ch gap ih =>
      refine (Leads.step ?_).trans (ih fun c hc => hgap c (mem_cons_of_mem _ hc))
      exact if_pos (hd.blank (hgap ch mem_cons_self))
  obtain ⟨ch, gap, rfl⟩ := exists_cons_of_ne_nil hne
  have hch := hgap ch mem_cons_self
  refine (Leads.step ?_).trans (hskip gap (fun c hc => hgap c (mem_cons_of_mem _ hc)) _)
  have hact : ∀ next, act d 0 ch next = .stop := by
    intro next
    have hnot : ¬(ch = doubleQuote ∨ ch = singleQuote) := by
      rcases hch with rfl | rfl <;> decide
    rw [act, if_neg (by simp), if_neg hnot, if_pos (hd.blank hch)]
  show Scan.read _ _ _ (act d 0 ch _) = _
  rw [hact]
  rfl

lemma leads_joined (hd : Ordinary d) {more : List (List U8)} {line : List U8}
    (h : Joined more line) (args : List (List U8)) (hlen : args.length + more.length ≤ d.argMax) :
    Leads d ⟨line, args, [], .between⟩ ⟨[], args ++ more, [], .done⟩ := by
  induction h generalizing args with
  | nil =>
    rw [append_nil]
    exact .step rfl
  | one arg =>
    rw [length_singleton] at hlen
    have hlt : args.length < d.argMax := by omega
    have := leads_quoted hd hlt arg []
    rw [append_nil] at this
    exact this.trans ⟨2, rfl⟩
  | cons arg hne hgap _ ih =>
    rw [length_cons] at hlen
    have hrest := ih (args ++ [arg]) (by rw [length_append, length_singleton]; omega)
    rw [append_assoc] at hrest
    exact ((leads_quoted hd (by omega) arg _).trans (leads_gap hd hne hgap _)).trans hrest

lemma parse_joined (hd : Ordinary d) {line : List U8} (h : Joined args line)
    (hargs : ∀ arg ∈ args, 0 ∉ arg) (hlen : args.length ≤ d.argMax) :
    parse d line = some (some args) := by
  obtain ⟨n, hn⟩ := leads_joined hd h [] (by rw [length_nil]; omega)
  have hend := Scan.iterate_eq (s := .start line) (k := 3 * line.length + 2) (le_succ _) hn
    (.inl rfl)
  rw [parse_eq d (h.clean hargs), scan, hend]
  rfl

end Quoting

/-- **Quoted arguments come back, in both shells.**  At most 30 arguments, quoted and joined by
blanks, are split into the same arguments.  The write cursor stays behind what is still to be read
(only the zero byte at the end is written over, with a zero byte), and the parse in place returns
what one out of place does. -/
theorem words_split :
    (∀ args line, args.length ≤ 30 → (∀ arg ∈ args, 0 ∉ arg ∧ newline ∉ arg) →
      Joined args line →
      parse gosh line = some (some args) ∧ parse sh line = some (some args)) ∧
    ∀ d ∈ [gosh, sh], ∀ line : List U8, 0 ∉ line →
      (∀ n, ((Parser.step d)^[n] (.start line)).wp ≤ ((Parser.step d)^[n] (.start line)).rp ∨
        ((Parser.step d)^[n] (.start line)).rp = line.length ∧
        ((Parser.step d)^[n] (.start line)).wp = line.length + 1) ∧
      parse d line = some (scan d line) := by
  constructor
  · intro args line hlen hargs h
    have hclean := fun arg harg => (hargs arg harg).1
    exact ⟨parse_joined .gosh h hclean (hlen.trans (by decide)),
      parse_joined .sh h hclean (hlen.trans (by decide))⟩
  · intro d _ line hline
    refine ⟨fun n => ?_, parse_eq d hline⟩
    obtain ⟨-, -, -, -, hplace, hbehind, -, -, -⟩ := (Mirrors.start line hline).iterate (d := d) n
    rcases hbehind with hle | ⟨hnil, -, hwp⟩
    · exact .inl hle
    · rw [hnil] at hplace
      exact .inr ⟨hplace, hwp.trans (congrArg (· + 1) hplace)⟩

end OpenHobbyOS.Shell
