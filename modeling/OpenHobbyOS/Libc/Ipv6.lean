/-
# IPv6 addresses as text

`oh_parse_ipv6` of `ports/newlib/openhobbyos/compat_net.c`.  The parser collects its groups in
`words[8]`, a local array that is not initialised; the model keeps the memory around it, so that a
read below the array is visible.  A text is the bytes before the terminating zero.  `errno` and the
other address family are left out.
-/
import Mathlib.Data.List.Basic
import Mathlib.Data.List.GetD
import Mathlib.Data.List.TakeWhile
import Mathlib.Algebra.Order.Group.Nat
import Mathlib.Tactic.IntervalCases

namespace OpenHobbyOS.Libc

open List Option Nat Function

/-! ## The parser -/

/-- The bytes of an ASCII text. -/
def ascii (s : String) : List UInt8 := s.toList.map fun c => UInt8.ofNat c.toNat

/-- A colon. -/
def colon : UInt8 := 0x3A

/-- The hex digit that `ch` is. -/
def nibble (ch : UInt8) : Option ℕ :=
  if 0x30 ≤ ch ∧ ch ≤ 0x39 then some (ch - 0x30).toNat
  else if 0x61 ≤ ch ∧ ch ≤ 0x66 then some (ch - 0x61 + 10).toNat
  else if 0x41 ≤ ch ∧ ch ≤ 0x46 then some (ch - 0x41 + 10).toNat
  else none

/-- The digits of a group: value, number and cursor, or `none` on a fifth digit. -/
def readGroup (value digits : ℕ) : List UInt8 → Option (ℕ × ℕ × List UInt8)
  | [] => some (value, digits, [])
  | ch :: cursor =>
    match nibble ch with
    | none => some (value, digits, ch :: cursor)
    | some n =>
      if digits + 1 > 4 then none else readGroup (value <<< 4 ||| n) (digits + 1) cursor

/-- The loop over the groups: `compress` is `none` for -1, and `ok` is false once 0 is returned. -/
structure Scan where
  ok : Bool
  words : List UInt16
  compress : Option ℕ
  cursor : List UInt8

/-- The return of 0. -/
def Scan.fail (s : Scan) : Scan := { s with ok := false }

/-- What follows a group. -/
def Scan.separator (s : Scan) : Scan :=
  match s.cursor with
  | [] => s
  | ch :: cursor =>
    if ch ≠ colon then s.fail
    else if cursor.head? = some colon then
      if s.compress.isSome then s.fail
      else { s with compress := some s.words.length, cursor := cursor.tail }
    else { s with cursor := cursor }

/-- The body of the loop over the groups. -/
def Scan.step (s : Scan) : Scan :=
  if 8 ≤ s.words.length then s.fail
  else
    match readGroup 0 0 s.cursor with
    | none => s.fail
    | some (value, digits, cursor) =>
      if digits = 0 then s.fail
      else Scan.separator { s with words := s.words ++ [UInt16.ofNat value], cursor := cursor }

/-- The loop; the length of the text is fuel enough. -/
def Scan.run : ℕ → Scan → Scan
  | 0, s => s
  | fuel + 1, s => if s.ok = false ∨ s.cursor = [] then s else Scan.run fuel s.step

/-- `oh_parse_ipv6` up to the end of the text. -/
def scanIpv6 (src : List UInt8) : Scan :=
  if src.head? = some colon then
    if src.tail.head? ≠ some colon then ⟨false, [], none, src⟩
    else Scan.run src.length ⟨true, [], some 0, src.tail.tail⟩
  else Scan.run src.length ⟨true, [], none, src⟩

/-- The memory by index of `words`, and the indices used. -/
structure Frame where
  mem : ℤ → UInt16
  touched : List ℤ

/-- The frame with the words of the scan stored from index 0 on. -/
def Frame.start (stack : ℤ → UInt16) (words : List UInt16) : Frame where
  mem i := if 0 ≤ i ∧ i < words.length then words.getD i.toNat 0 else stack i
  touched := (range words.length).map Int.ofNat

/-- `words[i] = value`. -/
def Frame.store (f : Frame) (i : ℤ) (value : UInt16) : Frame :=
  ⟨update f.mem i value, i :: f.touched⟩

/-- `words[i] = words[j]`. -/
def Frame.copy (f : Frame) (i j : ℤ) : Frame :=
  Frame.store ⟨f.mem, j :: f.touched⟩ i (f.mem j)

/-- The first loop of the expansion. -/
def Frame.shift (used gap : ℕ) : ℕ → Frame → Frame
  | 0, f => f
  | n + 1, f => Frame.shift used gap n (f.copy (used + n) (used + n - gap))

/-- The second loop, for `n` indices from `i` on. -/
def Frame.clear : ℕ → ℕ → Frame → Frame
  | _, 0, f => f
  | i, n + 1, f => Frame.clear (i + 1) n (f.store i 0)

/-- The expansion of `::`; `compress + tail` is `used`. -/
def Frame.expand (f : Frame) (compress used : ℕ) : Frame :=
  let tail := used - compress
  (f.shift (compress + tail) (8 - used) (8 - (compress + tail))).clear compress
    (8 - tail - compress)

/-- The result: the eight words of the address, or `none` for 0. -/
structure Parsed where
  words : Option (List UInt16)
  touched : List ℤ

/-- The loop that writes the address. -/
def Frame.finish (f : Frame) : Parsed :=
  ⟨some ((range 8).map fun i : ℕ => f.mem i), f.touched ++ (range 8).map Int.ofNat⟩

/-- `oh_parse_ipv6`, with `stack` the memory before the call. -/
def parseIpv6 (stack : ℤ → UInt16) (src : List UInt8) : Parsed :=
  let s := scanIpv6 src
  let f := Frame.start stack s.words
  if s.ok = false then ⟨none, f.touched⟩
  else
    match s.compress with
    | some compress => (f.expand compress s.words.length).finish
    | none => if s.words.length ≠ 8 then ⟨none, f.touched⟩ else f.finish

/-! ## The texts of addresses -/

/-- A hexadecimal digit. -/
def IsHex (ch : UInt8) : Bool := (nibble ch).isSome

/-- One to four hex digits. -/
structure IsGroup (g : List UInt8) : Prop where
  hex : ∀ ch ∈ g, IsHex ch
  pos : 0 < g.length
  le : g.length ≤ 4

/-- The value of the digits. -/
def groupFold (value : ℕ) (g : List UInt8) : ℕ :=
  g.foldl (fun v ch => v <<< 4 ||| (nibble ch).getD 0) value

/-- The number a group denotes. -/
def groupWord (g : List UInt8) : UInt16 := UInt16.ofNat (groupFold 0 g)

/-- Every list is a group. -/
abbrev Groups (gs : List (List UInt8)) : Prop := ∀ g ∈ gs, IsGroup g

/-- The groups with a colon between any two. -/
abbrev joined (gs : List (List UInt8)) : List UInt8 := [colon].intercalate gs

/-- Two lists of groups with `::` between them. -/
abbrev around (pre post : List (List UInt8)) : List UInt8 :=
  joined pre ++ colon :: colon :: joined post

/-- The words with zeros put in at `c` to make eight. -/
def filled (words : List UInt16) (c : ℕ) : List UInt16 :=
  words.take c ++ replicate (8 - words.length) 0 ++ words.drop c

/-- `src` is the text of an address of the given words. -/
inductive Denotes : List UInt8 → List UInt16 → Prop
  | full (gs : List (List UInt8)) : Groups gs → gs.length = 8 →
      Denotes (joined gs) (gs.map groupWord)
  | compressed (pre post : List (List UInt8)) : Groups (pre ++ post) →
      (pre ++ post).length ≤ 7 →
      Denotes (around pre post) (filled ((pre ++ post).map groupWord) pre.length)

/-- Accepted and no address: a colon after the last group, or `::` next to eight groups. -/
inductive Sloppy : List UInt8 → Prop
  | trailing (gs : List (List UInt8)) : Groups gs → gs.length = 8 →
      Sloppy (joined gs ++ [colon])
  | trailingPost (pre post : List (List UInt8)) : Groups (pre ++ post) →
      (pre ++ post).length ≤ 8 → post ≠ [] → Sloppy (around pre post ++ [colon])
  | eight (pre post : List (List UInt8)) : Groups (pre ++ post) →
      (pre ++ post).length = 8 → Sloppy (around pre post)

/-- The words after `::` repeat after `gap` words. -/
def Periodic (post : List UInt16) (gap : ℕ) : Prop :=
  ∀ k, k + gap < post.length → post.getD k 0 = post.getD (k + gap) 0

/-- The addresses whose expansion goes wrong. -/
inductive Misread : List UInt8 → Prop
  | below (pre post : List (List UInt8)) : Groups (pre ++ post) → (pre ++ post).length < 4 →
      Misread (around pre post)
  | unshifted (pre post : List (List UInt8)) : Groups (pre ++ post) →
      (pre ++ post).length ≤ 7 →
      ¬ Periodic (post.map groupWord) (8 - (pre ++ post).length) → Misread (around pre post)

/-! ## The scan -/

lemma readGroup_eq (cursor : List UInt8) {value digits : ℕ} (hd : digits ≤ 4) :
    readGroup value digits cursor =
      if digits + (cursor.takeWhile IsHex).length ≤ 4 then
        some (groupFold value (cursor.takeWhile IsHex),
          digits + (cursor.takeWhile IsHex).length, cursor.dropWhile IsHex)
      else none := by
  induction cursor generalizing value digits with
  | nil => simp [readGroup, groupFold, hd]
  | cons ch cursor ih =>
    unfold readGroup
    cases hn : nibble ch with
    | none => simp [IsHex, hn, groupFold, hd]
    | some n =>
      have hhex : IsHex ch = true := by simp [IsHex, hn]
      simp only [takeWhile_cons, dropWhile_cons, hhex, if_true, length_cons]
      by_cases hlt : digits + 1 > 4
      · rw [if_pos hlt, if_neg (by omega)]
      · rw [if_neg hlt, ih (by omega), add_assoc, add_comm 1]
        simp [groupFold, hn]

lemma not_isHex_colon : IsHex colon = false := by decide

/-- The text after a group does not go on with a digit. -/
def Ended (rest : List UInt8) : Prop := ∀ ch ∈ rest.head?, IsHex ch = false

lemma ended_colon (rest : List UInt8) : Ended (colon :: rest) := by
  intro ch hch
  simp only [head?_cons, mem_some_iff] at hch
  exact hch ▸ not_isHex_colon

lemma ended_nil : Ended [] := by
  intro ch hch
  simp at hch

lemma takeWhile_group {g rest : List UInt8} (hg : ∀ ch ∈ g, IsHex ch) (hrest : Ended rest) :
    (g ++ rest).takeWhile IsHex = g ∧ (g ++ rest).dropWhile IsHex = rest := by
  rw [takeWhile_append_of_pos hg, dropWhile_append_of_pos hg]
  cases rest with
  | nil => simp
  | cons ch rest =>
    have := hrest ch rfl
    simp [this]

lemma step_group {s : Scan} {g rest : List UInt8} (hg : IsGroup g) (hrest : Ended rest)
    (hlen : s.words.length < 8) (hcur : s.cursor = g ++ rest) :
    s.step = Scan.separator { s with words := s.words ++ [groupWord g], cursor := rest } := by
  obtain ⟨htake, hdrop⟩ := takeWhile_group hg.hex hrest
  have hpos := hg.pos
  rw [Scan.step, if_neg (by omega), hcur, readGroup_eq _ (zero_le 4), htake, hdrop,
    zero_add, if_pos hg.le]
  simp only [if_neg hpos.ne', groupWord]

lemma step_ok {s : Scan} (h : s.step.ok = true) :
    ∃ g rest, IsGroup g ∧ Ended rest ∧ s.cursor = g ++ rest ∧ s.words.length < 8 := by
  unfold Scan.step at h
  split at h
  · simp [Scan.fail] at h
  · rename_i hlen
    rw [readGroup_eq _ (zero_le 4)] at h
    refine ⟨s.cursor.takeWhile IsHex, s.cursor.dropWhile IsHex, ⟨fun ch => mem_takeWhile_imp,
      ?_, ?_⟩, ?_, (takeWhile_append_dropWhile).symm, by omega⟩
    · by_contra hpos
      have : (s.cursor.takeWhile IsHex).length = 0 := by omega
      simp [this, Scan.fail] at h
    · by_contra hle
      rw [if_neg (by omega)] at h
      simp [Scan.fail] at h
    · intro ch hch
      by_contra hhex
      have := head?_dropWhile_not IsHex s.cursor
      simp_all

lemma separator_words (s : Scan) : s.separator.words = s.words := by
  unfold Scan.separator Scan.fail
  repeat' split
  all_goals rfl

lemma separator_colon {cursor : List UInt8} (h : cursor.head? ≠ some colon) (ok : Bool)
    (words : List UInt16) (compress : Option ℕ) :
    Scan.separator ⟨ok, words, compress, colon :: cursor⟩ = ⟨ok, words, compress, cursor⟩ := by
  simp [Scan.separator, h]

lemma separator_double (cursor : List UInt8) (ok : Bool) (words : List UInt16) :
    Scan.separator ⟨ok, words, none, colon :: colon :: cursor⟩ =
      ⟨ok, words, some words.length, cursor⟩ := by
  simp [Scan.separator]

lemma separator_ok {words : List UInt16} {compress : Option ℕ} {rest : List UInt8}
    (h : (Scan.separator ⟨true, words, compress, rest⟩).ok = true) :
    rest = [] ∨ (∃ cursor, rest = colon :: cursor ∧ cursor.head? ≠ some colon) ∨
      ∃ cursor, rest = colon :: colon :: cursor ∧ compress = none := by
  cases rest with
  | nil => exact .inl rfl
  | cons ch rest =>
    simp only [Scan.separator] at h
    split_ifs at h with hch hnext hc
    · simp [Scan.fail] at h
    · simp [Scan.fail] at h
    · obtain rfl := not_not.1 hch
      exact .inr (.inr ⟨rest.tail, by rw [cons_head?_tail hnext], by simpa using hc⟩)
    · obtain rfl := not_not.1 hch
      exact .inr (.inl ⟨rest, rfl, hnext⟩)

lemma step_words_le {s : Scan} (h : s.words.length ≤ 8) : s.step.words.length ≤ 8 := by
  unfold Scan.step
  split
  · exact h
  split
  · exact h
  split
  · exact h
  · simp only [separator_words, length_append, length_singleton]
    omega

lemma run_fail {s : Scan} (h : s.ok = false) (fuel : ℕ) : s.run fuel = s := by
  cases fuel with
  | zero => rfl
  | succ fuel => rw [Scan.run, if_pos (Or.inl h)]

lemma run_end {s : Scan} (h : s.cursor = []) (fuel : ℕ) : s.run fuel = s := by
  cases fuel with
  | zero => rfl
  | succ fuel => rw [Scan.run, if_pos (Or.inr h)]

/-- A colon at the end, or none. -/
def trail (b : Bool) : List UInt8 := if b then [colon] else []

lemma append_trail_false (src : List UInt8) : src ++ trail false = src := append_nil src

/-- What is left of an accepted text: groups, with `::` among them if there was none yet; a colon
may follow the last group. -/
def Shaped (s : Scan) : Prop :=
  (∃ gs b, Groups gs ∧ (b = true → gs ≠ []) ∧ s.words.length + gs.length ≤ 8 ∧
    s.cursor = joined gs ++ trail b) ∨
  (s.compress = none ∧ ∃ pre post b, Groups (pre ++ post) ∧ pre ≠ [] ∧ (b = true → post ≠ []) ∧
    s.words.length + (pre ++ post).length ≤ 8 ∧ s.cursor = around pre post ++ trail b)

lemma groups_nil : Groups [] := by simp [Groups]

lemma shaped_nil {s : Scan} (hlen : s.words.length ≤ 8) (h : s.cursor = []) : Shaped s :=
  Or.inl ⟨[], false, groups_nil, by simp, by simpa using hlen, by simpa [trail] using h⟩

lemma joined_cons (g : List UInt8) {gs : List (List UInt8)} (h : gs ≠ []) :
    joined (g :: gs) = g ++ colon :: joined gs := by
  obtain ⟨g', gs, rfl⟩ := exists_cons_of_ne_nil h
  simp [joined, intercalate_cons_cons]

lemma groups_cons {g : List UInt8} {gs : List (List UInt8)} (hg : IsGroup g) (hgs : Groups gs) :
    Groups (g :: gs) :=
  forall_mem_cons.2 ⟨hg, hgs⟩

section Shapes

variable {ok : Bool} {words : List UInt16} {compress : Option ℕ} {g cursor : List UInt8}
variable {w : UInt16}

lemma shaped_last (hg : IsGroup g) (hlen : words.length < 8) :
    Shaped ⟨ok, words, compress, g⟩ :=
  .inl ⟨[g], false, groups_cons hg groups_nil, by simp, hlen, by simp [trail, joined]⟩

lemma shaped_colon (hg : IsGroup g) (hlen : words.length < 8)
    (h : Shaped ⟨ok, words ++ [w], compress, cursor⟩) :
    Shaped ⟨ok, words, compress, g ++ colon :: cursor⟩ := by
  rcases h with ⟨gs, b, hgs, hb, hle, rfl⟩ | ⟨hnone, pre, post, b, hgs, hpre, hb, hle, rfl⟩
  · simp only [length_append, length_singleton] at hle
    rcases eq_or_ne gs [] with rfl | hne
    · -- nothing follows: the colon is the last byte
      obtain rfl : b = false := by simpa using hb
      exact .inl ⟨[g], true, groups_cons hg groups_nil, by simp, hlen, by simp [trail, joined]⟩
    · refine .inl ⟨g :: gs, b, groups_cons hg hgs, by simp, by simp only [length_cons]; omega, ?_⟩
      rw [joined_cons g hne, append_assoc, cons_append]
  · simp only [length_append, length_singleton] at hle
    refine .inr ⟨hnone, g :: pre, post, b, groups_cons hg hgs, by simp, hb, ?_, ?_⟩
    · simp only [cons_append, length_cons, length_append]
      omega
    · rw [around, around, joined_cons g hpre]
      simp

lemma shaped_double (hg : IsGroup g) {c : ℕ} (h : Shaped ⟨ok, words ++ [w], some c, cursor⟩) :
    Shaped ⟨ok, words, none, g ++ colon :: colon :: cursor⟩ := by
  rcases h with ⟨gs, b, hgs, hb, hle, rfl⟩ | ⟨hnone, -⟩
  · simp only [length_append, length_singleton] at hle
    refine .inr ⟨rfl, [g], gs, b, groups_cons hg hgs, by simp, hb, ?_, by simp [around, joined]⟩
    simp only [singleton_append, length_cons]
    omega
  · exact absurd hnone (by simp)

end Shapes

lemma run_shaped {fuel : ℕ} {s : Scan} (hlen : s.words.length ≤ 8) (hfuel : s.cursor.length ≤ fuel)
    (hok : (s.run fuel).ok = true) : Shaped s := by
  induction fuel generalizing s with
  | zero => exact shaped_nil hlen (length_eq_zero_iff.1 (by omega))
  | succ fuel ih =>
    by_cases hnil : s.cursor = []
    · exact shaped_nil hlen hnil
    have hs : s.ok = true := by
      by_contra hs
      rw [run_fail (by simpa using hs)] at hok
      exact hs hok
    rw [Scan.run, if_neg (by simp [hs, hnil])] at hok
    have hstep : s.step.ok = true := by
      by_contra hstep
      rw [run_fail (by simpa using hstep)] at hok
      exact hstep hok
    obtain ⟨g, rest, hg, hrest, hcur, hlt⟩ := step_ok hstep
    have hsep := step_group hg hrest hlt hcur
    have hlen' := step_words_le hlen
    have hpos := hg.pos
    rw [hsep] at hok hstep hlen'
    obtain ⟨ok, words, compress, cursor⟩ := s
    obtain rfl : ok = true := hs
    obtain rfl : cursor = g ++ rest := hcur
    simp only [length_append] at hfuel
    rcases separator_ok hstep with rfl | ⟨cursor, rfl, hhead⟩ | ⟨cursor, rfl, rfl⟩
    · rw [append_nil]
      exact shaped_last hg hlt
    · rw [separator_colon hhead] at hok hlen'
      rw [length_cons] at hfuel
      exact shaped_colon hg hlt (ih hlen' (by dsimp only; omega) hok)
    · rw [separator_double] at hok hlen'
      rw [length_cons, length_cons] at hfuel
      exact shaped_double hg (ih hlen' (by dsimp only; omega) hok)

lemma IsGroup.head {g : List UInt8} (hg : IsGroup g) (rest : List UInt8) :
    (g ++ rest).head? ≠ some colon := by
  obtain ⟨ch, g', rfl⟩ := exists_cons_of_length_pos hg.pos
  intro h
  simp only [cons_append, head?_cons, some.injEq] at h
  have hch := hg.hex ch mem_cons_self
  rw [h, not_isHex_colon] at hch
  exact Bool.noConfusion hch

lemma joined_head {gs : List (List UInt8)} (hgs : Groups gs) (hne : gs ≠ [])
    (rest : List UInt8) : (joined gs ++ rest).head? ≠ some colon := by
  obtain ⟨g, gs, rfl⟩ := exists_cons_of_ne_nil hne
  have hg := hgs g mem_cons_self
  rcases eq_or_ne gs [] with rfl | hne'
  · simpa [joined] using hg.head rest
  · rw [joined_cons g hne', append_assoc]
    exact hg.head _

lemma run_group {g rest : List UInt8} (hg : IsGroup g) (hrest : Ended rest)
    {words : List UInt16} (hlen : words.length < 8) {compress : Option ℕ} {fuel : ℕ} :
    Scan.run (fuel + 1) ⟨true, words, compress, g ++ rest⟩ =
      Scan.run fuel (Scan.separator ⟨true, words ++ [groupWord g], compress, rest⟩) := by
  have hpos := hg.pos
  rw [Scan.run, if_neg, step_group hg hrest hlen rfl]
  rintro (h | h)
  · simp at h
  · simp only [append_eq_nil_iff] at h
    rw [h.1] at hpos
    simp at hpos

lemma run_groups {gs : List (List UInt8)} {b : Bool} (hgs : Groups gs)
    (hb : b = true → gs ≠ []) (words : List UInt16) (hlen : words.length + gs.length ≤ 8)
    (compress : Option ℕ) (fuel : ℕ) (hfuel : (joined gs ++ trail b).length ≤ fuel) :
    Scan.run fuel ⟨true, words, compress, joined gs ++ trail b⟩ =
      ⟨true, words ++ gs.map groupWord, compress, []⟩ := by
  induction gs generalizing words fuel with
  | nil =>
    obtain rfl : b = false := by simpa using hb
    rw [run_end (by simp [trail])]
    simp [trail]
  | cons g gs ih =>
    have hg := hgs g mem_cons_self
    have hpos := hg.pos
    rw [length_cons] at hlen
    rcases eq_or_ne gs [] with rfl | hne
    · simp only [joined, intercalate_singleton, length_append] at hfuel ⊢
      obtain ⟨fuel, rfl⟩ : ∃ n, fuel = n + 1 := ⟨fuel - 1, by omega⟩
      cases b with
      | false =>
        rw [run_group hg (by simpa [trail] using ended_nil) (by omega)]
        exact run_end rfl fuel
      | true =>
        rw [run_group hg (by simpa [trail] using ended_colon []) (by omega)]
        exact run_end rfl fuel
    · have hgs' : Groups gs := fun g' hg' => hgs g' (mem_cons_of_mem g hg')
      rw [joined_cons g hne, append_assoc, length_append, cons_append, length_cons] at hfuel
      obtain ⟨fuel, rfl⟩ : ∃ n, fuel = n + 1 := ⟨fuel - 1, by omega⟩
      rw [joined_cons g hne, append_assoc, cons_append, run_group hg (ended_colon _) (by omega),
        separator_colon (joined_head hgs' hne _), ih hgs' (fun _ => hne) _
          (by simp; omega) _ (by omega)]
      simp

lemma run_pre {pre : List (List UInt8)} (hpre : Groups pre) (hne : pre ≠ [])
    (words : List UInt16) (hlen : words.length + pre.length ≤ 8) {cursor : List UInt8} (fuel : ℕ)
    (hfuel : (joined pre ++ colon :: colon :: cursor).length ≤ fuel) :
    ∃ n, cursor.length ≤ n ∧
      Scan.run fuel ⟨true, words, none, joined pre ++ colon :: colon :: cursor⟩ =
        Scan.run n
          ⟨true, words ++ pre.map groupWord, some (words.length + pre.length), cursor⟩ := by
  induction pre generalizing words fuel with
  | nil => exact absurd rfl hne
  | cons g pre ih =>
    have hg := hpre g mem_cons_self
    have hpos := hg.pos
    rw [length_cons] at hlen
    rcases eq_or_ne pre [] with rfl | hne'
    · simp only [joined, intercalate_singleton, length_append, length_cons] at hfuel ⊢
      obtain ⟨fuel, rfl⟩ : ∃ n, fuel = n + 1 := ⟨fuel - 1, by omega⟩
      refine ⟨fuel, by omega, ?_⟩
      rw [run_group hg (ended_colon _) (by omega), separator_double]
      simp
    · have hpre' : Groups pre := fun g' hg' => hpre g' (mem_cons_of_mem g hg')
      rw [joined_cons g hne', append_assoc, length_append, cons_append, length_cons] at hfuel
      obtain ⟨fuel, rfl⟩ : ∃ n, fuel = n + 1 := ⟨fuel - 1, by omega⟩
      obtain ⟨n, hn, hrun⟩ := ih hpre' hne' (words ++ [groupWord g]) (by simp; omega) fuel
        (by omega)
      refine ⟨n, hn, ?_⟩
      rw [joined_cons g hne', append_assoc, cons_append, run_group hg (ended_colon _) (by omega),
        separator_colon (joined_head hpre' hne' _), hrun]
      simp [add_assoc, add_comm 1]

lemma scan_full {gs : List (List UInt8)} {b : Bool} (hgs : Groups gs)
    (hb : b = true → gs ≠ []) (hlen : gs.length ≤ 8) :
    scanIpv6 (joined gs ++ trail b) = ⟨true, gs.map groupWord, none, []⟩ := by
  have hhead : (joined gs ++ trail b).head? ≠ some colon := by
    rcases eq_or_ne gs [] with rfl | hne
    · obtain rfl : b = false := by simpa using hb
      simp [trail]
    · exact joined_head hgs hne _
  rw [scanIpv6, if_neg hhead, run_groups hgs hb [] (by simpa using hlen) none _ le_rfl]
  simp

lemma scan_around {pre post : List (List UInt8)} {b : Bool} (hgs : Groups (pre ++ post))
    (hb : b = true → post ≠ []) (hlen : (pre ++ post).length ≤ 8) :
    scanIpv6 (around pre post ++ trail b) =
      ⟨true, (pre ++ post).map groupWord, some pre.length, []⟩ := by
  obtain ⟨hpre, hpost⟩ := forall_mem_append.1 hgs
  rw [length_append] at hlen
  rcases eq_or_ne pre [] with rfl | hne
  · have := run_groups hpost hb [] (by simpa using hlen) (some 0)
      ((joined post ++ trail b).length + 2) (by omega)
    simpa [scanIpv6, around] using this
  · rw [around, append_assoc, cons_append, cons_append, scanIpv6, if_neg (joined_head hpre hne _)]
    obtain ⟨n, hn, hrun⟩ := run_pre hpre hne [] (by simp; omega) _ le_rfl
    rw [hrun, run_groups hpost hb _ (by simp; omega) _ _ hn]
    simp

lemma scan_ok {src : List UInt8} (h : (scanIpv6 src).ok = true) :
    (∃ gs b, Groups gs ∧ (b = true → gs ≠ []) ∧ gs.length ≤ 8 ∧ src = joined gs ++ trail b) ∨
    ∃ pre post b, Groups (pre ++ post) ∧ (b = true → post ≠ []) ∧ (pre ++ post).length ≤ 8 ∧
      src = around pre post ++ trail b := by
  unfold scanIpv6 at h
  split_ifs at h with hhead hnext
  · obtain ⟨rest, rfl⟩ : ∃ r, src = colon :: colon :: r := by
      rw [not_not] at hnext
      exact ⟨src.tail.tail, by rw [cons_head?_tail hnext, cons_head?_tail hhead]⟩
    rcases run_shaped (by simp) (by simp; omega) h with ⟨gs, b, hgs, hb, hlen, hcur⟩ | ⟨hnone, -⟩
    · exact Or.inr ⟨[], gs, b, hgs, hb, by simpa using hlen, by simpa [around] using hcur⟩
    · simp at hnone
  · rcases run_shaped (by simp) (by simp) h with ⟨gs, b, hgs, hb, hlen, hcur⟩ |
      ⟨-, pre, post, b, hgs, -, hb, hlen, hcur⟩
    · exact Or.inl ⟨gs, b, hgs, hb, by simpa using hlen, hcur⟩
    · exact Or.inr ⟨pre, post, b, hgs, hb, by simpa using hlen, hcur⟩

lemma scan_words_le (src : List UInt8) : (scanIpv6 src).words.length ≤ 8 := by
  have hrun : ∀ fuel (s : Scan), s.words.length ≤ 8 → (s.run fuel).words.length ≤ 8 := by
    intro fuel
    induction fuel with
    | zero => exact fun s h => h
    | succ fuel ih =>
      intro s h
      unfold Scan.run
      split
      exacts [h, ih _ (step_words_le h)]
  unfold scanIpv6
  split
  · split
    exacts [by simp, hrun _ _ (by simp)]
  · exact hrun _ _ (by simp)

lemma Denotes.scan {src : List UInt8} {ws : List UInt16} (h : Denotes src ws) :
    (scanIpv6 src).ok = true ∧
      ((scanIpv6 src).compress = none ∧ (scanIpv6 src).words.length = 8 ∧
          ws = (scanIpv6 src).words ∨
        ∃ c, (scanIpv6 src).compress = some c ∧ (scanIpv6 src).words.length ≤ 7 ∧
          ws = filled (scanIpv6 src).words c) := by
  cases h with
  | full gs hgs hlen =>
    have hscan := scan_full (b := false) hgs (by simp) hlen.le
    rw [append_trail_false] at hscan
    simp [hscan, hlen]
  | compressed pre post hgs hlen =>
    have hscan := scan_around (b := false) hgs (by simp) (by omega)
    rw [append_trail_false] at hscan
    rw [hscan]
    exact ⟨rfl, Or.inr ⟨_, rfl, by simpa using hlen, rfl⟩⟩

lemma joined_last {gs : List (List UInt8)} (hgs : Groups gs) (hne : gs ≠ []) :
    ∃ x d, IsHex d ∧ joined gs = x ++ [d] := by
  induction gs with
  | nil => exact absurd rfl hne
  | cons g gs ih =>
    rcases eq_or_ne gs [] with rfl | hne'
    · have hg := hgs g mem_cons_self
      have hg' : g ≠ [] := length_pos_iff.1 hg.pos
      exact ⟨g.dropLast, g.getLast hg', hg.hex _ (getLast_mem hg'),
        by simp [joined, dropLast_append_getLast]⟩
    · obtain ⟨x, d, hd, hx⟩ := ih (fun g' hg' => hgs g' (mem_cons_of_mem g hg')) hne'
      exact ⟨g ++ colon :: x, d, hd, by rw [joined_cons g hne', hx]; simp⟩

lemma Denotes.last {src x : List UInt8} {ws : List UInt16} {d : UInt8} (hd : IsHex d)
    (hsrc : src = x ++ [d] ++ [colon]) : ¬ Denotes src ws := by
  have hlast : ∀ y e, IsHex e → src ≠ y ++ [e] := by
    rintro y e he rfl
    obtain ⟨-, h⟩ := append_inj' hsrc rfl
    rw [cons.inj h |>.1, not_isHex_colon] at he
    exact Bool.noConfusion he
  intro h
  cases h with
  | full gs hgs hlen =>
    obtain ⟨y, e, he, hy⟩ := joined_last hgs (by rintro rfl; simp at hlen)
    exact hlast y e he hy
  | compressed pre post hgs hlen =>
    rcases eq_or_ne post [] with rfl | hne
    · have hdd : joined pre ++ [colon] ++ [colon] = x ++ [d] ++ [colon] := by
        simpa [around] using hsrc
      obtain ⟨-, h⟩ := append_inj' (append_inj' hdd rfl).1 rfl
      rw [← (cons.inj h).1, not_isHex_colon] at hd
      exact Bool.noConfusion hd
    · obtain ⟨y, e, he, hy⟩ := joined_last (forall_mem_append.1 hgs).2 hne
      exact hlast (joined pre ++ colon :: colon :: y) e he (by simp [around, hy])

/-! ## The expansion in place -/

lemma shift_mem (used gap n : ℕ) (f : Frame) (j : ℤ) :
    (f.shift used gap n).mem j =
      if used ≤ j ∧ j < used + n then f.mem (j - gap) else f.mem j := by
  induction n generalizing f with
  | zero => rw [Frame.shift, if_neg (by omega)]
  | succ n ih =>
    -- a word is read before anything at or below it is written
    have hcopy : ∀ k, (f.copy (used + n) (used + n - gap)).mem k =
        if k = used + n then f.mem (used + n - gap) else f.mem k := by
      intro k
      simp only [Frame.copy, Frame.store, update_apply]
    rw [Frame.shift, ih, hcopy, hcopy]
    by_cases hj : j = used + n
    · subst hj
      rw [if_neg (by omega), if_pos rfl, if_pos (by push_cast; omega)]
    · by_cases hin : used ≤ j ∧ j < used + n
      · rw [if_pos hin, if_neg (by omega), if_pos (by push_cast; omega)]
      · rw [if_neg hin, if_neg hj, if_neg (by push_cast; omega)]

lemma clear_mem (i n : ℕ) (f : Frame) (j : ℤ) :
    (f.clear i n).mem j = if i ≤ j ∧ j < i + n then 0 else f.mem j := by
  induction n generalizing i f with
  | zero => rw [Frame.clear, if_neg (by omega)]
  | succ n ih =>
    simp only [Frame.clear, ih, Frame.store, update_apply]
    by_cases hj : j = i
    · rw [if_neg (by push_cast; omega), if_pos hj, if_pos (by push_cast; omega)]
    · rw [if_neg hj]
      congr 1
      push_cast
      exact propext (by omega)

/-- All indices are of the array. -/
def Inside (touched : List ℤ) : Prop := ∀ i ∈ touched, 0 ≤ i ∧ i < 8

lemma inside_cons {i : ℤ} {touched : List ℤ} :
    Inside (i :: touched) ↔ (0 ≤ i ∧ i < 8) ∧ Inside touched := by
  simp [Inside]

lemma inside_range {n : ℕ} (hn : n ≤ 8) : Inside ((range n).map Int.ofNat) := by
  intro i hi
  obtain ⟨k, hk, rfl⟩ := mem_map.1 hi
  have := mem_range.1 hk
  simp only [Int.ofNat_eq_natCast]
  omega

lemma shift_inside {used gap n : ℕ} (hn : used + n ≤ 8) (f : Frame) :
    Inside (f.shift used gap n).touched ↔
      Inside f.touched ∧ ∀ k < n, gap ≤ used + k := by
  induction n generalizing f with
  | zero => simp [Frame.shift]
  | succ n ih =>
    rw [Frame.shift, ih (by omega), Frame.copy, Frame.store, inside_cons, inside_cons,
      forall_lt_succ_right]
    constructor
    · rintro ⟨⟨-, h, hf⟩, hk⟩
      exact ⟨hf, hk, by omega⟩
    · rintro ⟨hf, hk, h⟩
      exact ⟨⟨by omega, by omega, hf⟩, hk⟩

lemma clear_inside {i n : ℕ} (hn : i + n ≤ 8) (f : Frame) :
    Inside (f.clear i n).touched ↔ Inside f.touched := by
  induction n generalizing i f with
  | zero => rfl
  | succ n ih =>
    rw [Frame.clear, ih (by omega), Frame.store, inside_cons]
    exact and_iff_right (by omega)

lemma getD_drop (words : List UInt16) (c k : ℕ) :
    (words.drop c).getD k 0 = words.getD (c + k) 0 := by
  simp only [getD_eq_getElem?_getD, getElem?_drop]

section Expand

variable {words : List UInt16} {c : ℕ} (stack : ℤ → UInt16)

lemma start_mem {i : ℕ} (hi : i < words.length) :
    (Frame.start stack words).mem i = words.getD i 0 := by
  simp only [Frame.start]
  rw [if_pos (by omega), Int.toNat_natCast]

/-- The words after the expansion: those from `c + (8 - used)` up to `used` are not moved. -/
lemma expand_mem (hc : c ≤ words.length) (hlen : words.length ≤ 8) {i : ℕ} (hi : i < 8) :
    ((Frame.start stack words).expand c words.length).mem i =
      if i < c then words.getD i 0
      else if i < c + (8 - words.length) then 0
      else if words.length ≤ i then words.getD (i - (8 - words.length)) 0
      else words.getD i 0 := by
  simp only [Frame.expand, clear_mem, shift_mem]
  rw [show c + (words.length - c) = words.length by omega]
  by_cases hlow : i < c
  · rw [if_neg (by omega), if_neg (by omega), if_pos hlow, start_mem stack (by omega)]
  rw [if_neg hlow]
  by_cases hgap : i < c + (8 - words.length)
  · rw [if_pos (by omega), if_pos hgap]
  rw [if_neg (by omega), if_neg hgap]
  by_cases hhigh : words.length ≤ i
  · rw [if_pos (by omega), if_pos hhigh, ← start_mem stack (by omega)]
    congr 1
    omega
  · rw [if_neg (by omega), if_neg hhigh, start_mem stack (by omega)]

lemma filled_eq (hc : c ≤ words.length) (hlen : words.length ≤ 8) :
    filled words c = (range 8).map fun i =>
      if i < c then words.getD i 0
      else if i < c + (8 - words.length) then 0
      else words.getD (i - (8 - words.length)) 0 := by
  refine ext_getElem (by simp [filled]; omega) ?_
  intro i h₁ h₂
  have hi : i < 8 := by simpa using h₂
  simp only [filled, getElem_map, getElem_range, getElem_append, length_append, length_take,
    length_replicate, getElem_take, getElem_replicate, getElem_drop, min_eq_left hc]
  by_cases hlow : i < c
  · rw [dif_pos (by omega), dif_pos hlow, if_pos hlow, getD_eq_getElem _ _ (by omega)]
  rw [if_neg hlow]
  by_cases hgap : i < c + (8 - words.length)
  · rw [dif_pos hgap, dif_neg hlow, if_pos hgap]
  · rw [dif_neg hgap, if_neg hgap, getD_eq_getElem _ _ (by omega)]
    congr 1
    omega

lemma expand_eq_filled_iff (hc : c ≤ words.length) (hlen : words.length ≤ 8) :
    ((Frame.start stack words).expand c words.length).finish.words = some (filled words c) ↔
      Periodic (words.drop c) (8 - words.length) := by
  rw [Frame.finish, some.injEq, filled_eq hc hlen, map_inj_left]
  constructor
  · intro h k hk
    rw [length_drop] at hk
    have hi := h (c + (8 - words.length) + k) (by simp; omega)
    rw [expand_mem stack hc hlen (by omega), if_neg (by omega), if_neg (by omega),
      if_neg (by omega), if_neg (by omega), if_neg (by omega)] at hi
    rw [getD_drop, getD_drop, add_comm k, ← add_assoc, hi]
    congr 1
    omega
  · intro h i hi
    have hi := mem_range.1 hi
    rw [expand_mem stack hc hlen hi]
    by_cases hlow : i < c
    · rw [if_pos hlow, if_pos hlow]
    rw [if_neg hlow, if_neg hlow]
    by_cases hgap : i < c + (8 - words.length)
    · rw [if_pos hgap, if_pos hgap]
    rw [if_neg hgap, if_neg hgap]
    by_cases hhigh : words.length ≤ i
    · rw [if_pos hhigh]
    have hk := h (i - (8 - words.length) - c) (by rw [length_drop]; omega)
    rw [getD_drop, getD_drop] at hk
    rw [if_neg hhigh, show i - (8 - words.length) = c + (i - (8 - words.length) - c) by omega, hk]
    congr 1
    omega

lemma expand_inside (hc : c ≤ words.length) (hlen : words.length ≤ 8) :
    Inside ((Frame.start stack words).expand c words.length).finish.touched ↔
      4 ≤ words.length := by
  have hstart : Inside (Frame.start stack words).touched := inside_range hlen
  have happ : ∀ l, Inside (l ++ (range 8).map Int.ofNat) ↔ Inside l := fun l =>
    forall_mem_append.trans (and_iff_left (inside_range le_rfl))
  rw [Frame.finish, happ, Frame.expand, clear_inside (by omega), shift_inside (by omega)]
  constructor
  · rintro ⟨-, h⟩
    by_contra hlt
    have := h 0 (by omega)
    omega
  · intro h
    exact ⟨hstart, by omega⟩

lemma start_finish (hlen : words.length = 8) :
    (Frame.start stack words).finish.words = some words ∧
      Inside (Frame.start stack words).finish.touched := by
  constructor
  · rw [Frame.finish, some.injEq]
    refine ext_getElem (by simp [hlen]) ?_
    intro i h₁ h₂
    rw [getElem_map, getElem_range, start_mem stack h₂, getD_eq_getElem]
  · exact forall_mem_append.2 ⟨inside_range hlen.le, inside_range le_rfl⟩

end Expand

/-! ## The language of the parser -/

section Language

variable (stack : ℤ → UInt16)

lemma parse_full {gs : List (List UInt8)} {b : Bool} (hgs : Groups gs)
    (hb : b = true → gs ≠ []) (hlen : gs.length = 8) :
    parseIpv6 stack (joined gs ++ trail b) = (Frame.start stack (gs.map groupWord)).finish := by
  simp [parseIpv6, scan_full hgs hb hlen.le, hlen]

lemma parse_around {pre post : List (List UInt8)} {b : Bool} (hgs : Groups (pre ++ post))
    (hb : b = true → post ≠ []) (hlen : (pre ++ post).length ≤ 8) :
    parseIpv6 stack (around pre post ++ trail b) =
      ((Frame.start stack ((pre ++ post).map groupWord)).expand pre.length
        ((pre ++ post).map groupWord).length).finish := by
  simp only [parseIpv6, scan_around hgs hb hlen]
  rfl

/-- What is asked of the parser at a text. -/
structure Right (src : List UInt8) : Prop where
  accepts : (parseIpv6 stack src).words.isSome ↔ ∃ ws, Denotes src ws
  denoted : ∀ ws, (parseIpv6 stack src).words = some ws → Denotes src ws
  inside : Inside (parseIpv6 stack src).touched

lemma Denotes.unique {src : List UInt8} {ws ws' : List UInt16} (h : Denotes src ws)
    (h' : Denotes src ws') : ws = ws' := by
  obtain ⟨-, ⟨hc, -, rfl⟩ | ⟨c, hc, -, rfl⟩⟩ := h.scan <;>
    obtain ⟨-, ⟨hc', -, rfl⟩ | ⟨c', hc', -, rfl⟩⟩ := h'.scan <;> simp_all

variable {stack}

lemma Right.not_sloppy {src : List UInt8} (h : Right stack src) : ¬ Sloppy src := by
  intro hs
  cases hs with
  | trailing gs hgs hlen =>
    have hne : gs ≠ [] := by
      rintro rfl
      simp at hlen
    have hden := h.denoted _ (by
      rw [show [colon] = trail true from rfl, parse_full stack hgs (fun _ => hne) hlen]; rfl)
    obtain ⟨x, d, hd, hx⟩ := joined_last hgs hne
    exact Denotes.last hd (by rw [hx]) hden
  | trailingPost pre post hgs hlen hne =>
    have hden := h.denoted _ (by
      rw [show [colon] = trail true from rfl, parse_around stack hgs (fun _ => hne) hlen]; rfl)
    obtain ⟨x, d, hd, hx⟩ := joined_last (forall_mem_append.1 hgs).2 hne
    exact Denotes.last (x := joined pre ++ colon :: colon :: x) hd (by simp [around, hx]) hden
  | eight pre post hgs hlen =>
    have hparse := parse_around stack (b := false) hgs (by simp) hlen.le
    have hscan := scan_around (b := false) hgs (by simp) hlen.le
    rw [append_trail_false] at hparse hscan
    have hden := h.denoted _ (by rw [hparse]; rfl)
    obtain ⟨-, ⟨hc, -⟩ | ⟨c, -, hle, -⟩⟩ := hden.scan
    · simp [hscan] at hc
    · rw [hscan, length_map] at hle
      omega

lemma Right.not_misread {src : List UInt8} (h : Right stack src) : ¬ Misread src := by
  intro hm
  cases hm with
  | below pre post hgs hlen =>
    have hparse := parse_around stack (b := false) hgs (by simp) (by omega)
    rw [append_trail_false] at hparse
    have hin := h.inside
    rw [hparse, expand_inside stack (by simp) (by simp at hlen ⊢; omega), length_map] at hin
    omega
  | unshifted pre post hgs hlen hper =>
    have hparse := parse_around stack (b := false) hgs (by simp) (by omega)
    rw [append_trail_false] at hparse
    have hden := h.denoted _ (by rw [hparse]; rfl)
    have heq := (hden.unique (Denotes.compressed pre post hgs hlen))
    refine hper ?_
    have := (expand_eq_filled_iff stack (by simp) (by simp at hlen ⊢; omega)).1 (congrArg some heq)
    simpa using this

lemma right_accepted {src : List UInt8} {ws : List UInt16}
    (hwords : (parseIpv6 stack src).words = some ws) (hden : Denotes src ws)
    (hin : Inside (parseIpv6 stack src).touched) : Right stack src where
  accepts := by
    rw [hwords]
    exact iff_of_true rfl ⟨ws, hden⟩
  denoted ws' h' := by
    rw [hwords, some.injEq] at h'
    exact h' ▸ hden
  inside := hin

lemma right_refused {src : List UInt8}
    (hparse : parseIpv6 stack src = ⟨none, (Frame.start stack (scanIpv6 src).words).touched⟩)
    (hden : ∀ ws, ¬ Denotes src ws) : Right stack src where
  accepts := by simp [hparse, hden]
  denoted ws h := by simp [hparse] at h
  inside := by
    rw [hparse]
    exact inside_range (scan_words_le src)

lemma right_of_not {src : List UInt8} (hs : ¬ Sloppy src) (hm : ¬ Misread src) :
    Right stack src := by
  by_cases hok : (scanIpv6 src).ok = true
  swap
  · refine right_refused (by simp [parseIpv6, hok]) ?_
    exact fun ws h => hok h.scan.1
  rcases scan_ok hok with ⟨gs, b, hgs, hb, hlen, rfl⟩ | ⟨pre, post, b, hgs, hb, hlen, rfl⟩
  · have hscan := scan_full hgs hb hlen
    by_cases h8 : gs.length = 8
    · have hparse := parse_full stack hgs hb h8
      cases b with
      | true => exact absurd (Sloppy.trailing gs hgs h8) hs
      | false =>
        have hlen8 : (gs.map groupWord).length = 8 := by rw [length_map, h8]
        obtain ⟨hwords, hin⟩ := start_finish stack hlen8
        rw [← hparse] at hwords hin
        refine right_accepted hwords ?_ hin
        rw [append_trail_false]
        exact Denotes.full gs hgs h8
    · refine right_refused (by simp [parseIpv6, hscan, h8]) ?_
      intro ws h
      obtain ⟨-, ⟨-, h', -⟩ | ⟨c, hc, -⟩⟩ := h.scan
      · simp [hscan, h8] at h'
      · simp [hscan] at hc
  · have hparse := parse_around stack hgs hb hlen
    cases b with
    | true => exact absurd (Sloppy.trailingPost pre post hgs hlen (hb rfl)) hs
    | false =>
      rw [append_trail_false] at *
      have h7 : (pre ++ post).length ≤ 7 := by
        by_contra h
        exact hs (Sloppy.eight pre post hgs (by omega))
      have h4 : 4 ≤ (pre ++ post).length := by
        by_contra h
        exact hm (Misread.below pre post hgs (by omega))
      have hper : Periodic (post.map groupWord) (8 - (pre ++ post).length) := by
        by_contra h
        exact hm (Misread.unshifted pre post hgs h7 h)
      have hc : pre.length ≤ ((pre ++ post).map groupWord).length := by simp
      rw [← length_map groupWord] at hlen h4
      refine right_accepted ?_ (Denotes.compressed pre post hgs h7) ?_
      · rw [hparse, expand_eq_filled_iff stack hc hlen]
        simpa using hper
      · rw [hparse, expand_inside stack hc hlen]
        exact h4

variable (stack)

/-- For every text and whatever the stack holds, the parser accepts exactly the texts of
addresses, gives the address and stays in its array, unless the text is one of the two
kinds. -/
theorem parse_ipv6_right_iff (src : List UInt8) :
    Right stack src ↔ ¬ Sloppy src ∧ ¬ Misread src :=
  ⟨fun h => ⟨h.not_sloppy, h.not_misread⟩, fun h => right_of_not h.1 h.2⟩

end Language

/-- A colon after eight groups is accepted, `1::2:3:4:5:6` is read as `1:0:0:4:5:6:5:6`, and
`::` makes the parser read below its array. -/
theorem parse_ipv6_wrong :
    (parseIpv6 (fun _ => 0) (ascii "1:2:3:4:5:6:7:8:")).words = some [1, 2, 3, 4, 5, 6, 7, 8] ∧
      (parseIpv6 (fun _ => 0) (ascii "1::2:3:4:5:6")).words = some [1, 0, 0, 4, 5, 6, 5, 6] ∧
      -8 ∈ (parseIpv6 (fun _ => 0) (ascii "::")).touched ∧
      ¬ Right (fun _ => 0) (ascii "::") := by
  have hout : -8 ∈ (parseIpv6 (fun _ => 0) (ascii "::")).touched := by decide +kernel
  refine ⟨by decide +kernel, by decide +kernel, hout, fun h => ?_⟩
  have := (h.inside (-8) hout).1
  omega

end OpenHobbyOS.Libc
