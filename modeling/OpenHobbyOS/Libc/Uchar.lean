/-
# From UTF-16 to UTF-8

`c32rtomb` and `c16rtomb` of `ports/newlib/openhobbyos/compat_uchar.c`, against the UTF-8 of Lean's
strings.  `errno` is left out: the only error is `EILSEQ`, and it comes with the result
`(size_t)-1`.
-/
import Mathlib.Data.List.Basic
import Mathlib.Tactic.IntervalCases

namespace OpenHobbyOS.Libc

open List Nat

/-! ## The functions -/

/-- `mbstate_t`: a high surrogate `wch` waits for its partner if `count` is not 0. -/
structure MbState where
  count : ℕ
  wch : UInt16
  deriving DecidableEq

/-- `oh_uchar_reset_state`. -/
def MbState.initial : MbState := ⟨0, 0⟩

/-- What a call returns (`none` for `(size_t)-1`), writes and leaves as the state. -/
structure Converted where
  ret : Option ℕ
  bytes : List UInt8
  state : MbState

/-- `oh_uchar_is_high_surrogate`. -/
def isHighSurrogate (value : UInt16) : Bool := 0xD800 ≤ value && value ≤ 0xDBFF

/-- `oh_uchar_is_low_surrogate`. -/
def isLowSurrogate (value : UInt16) : Bool := 0xDC00 ≤ value && value ≤ 0xDFFF

/-- `oh_uchar_combine_surrogates`. -/
def combineSurrogates (high low : UInt16) : UInt32 :=
  ((high.toUInt32 - 0xD800) <<< 10) + (low.toUInt32 - 0xDC00) + 0x10000

/-- `(char)(marker | (unsigned char)payload)`. -/
def marked (marker : UInt8) (payload : UInt32) : UInt8 := marker ||| payload.toUInt8

/-- `c32rtomb`; `s` says whether there is a buffer. -/
def c32rtomb (s : Bool) (c32 : UInt32) : Converted :=
  if !s then ⟨some 1, [], .initial⟩
  else if c32 ≤ 0x7F then ⟨some 1, [c32.toUInt8], .initial⟩
  else if c32 ≤ 0x7FF then
    ⟨some 2, [marked 0xC0 (c32 >>> 6), marked 0x80 (c32 &&& 0x3F)], .initial⟩
  else if 0xD800 ≤ c32 ∧ c32 ≤ 0xDFFF then ⟨none, [], .initial⟩
  else if c32 ≤ 0xFFFF then
    ⟨some 3, [marked 0xE0 (c32 >>> 12), marked 0x80 ((c32 >>> 6) &&& 0x3F),
      marked 0x80 (c32 &&& 0x3F)], .initial⟩
  else if c32 ≤ 0x10FFFF then
    ⟨some 4, [marked 0xF0 (c32 >>> 18), marked 0x80 ((c32 >>> 12) &&& 0x3F),
      marked 0x80 ((c32 >>> 6) &&& 0x3F), marked 0x80 (c32 &&& 0x3F)], .initial⟩
  else ⟨none, [], .initial⟩

/-- `c16rtomb`. -/
def c16rtomb (s : Bool) (c16 : UInt16) (state : MbState) : Converted :=
  if !s then ⟨some 1, [], .initial⟩
  else if state.count ≠ 0 then
    if !isLowSurrogate c16 then ⟨none, [], .initial⟩
    else c32rtomb s (combineSurrogates state.wch c16)
  else if isHighSurrogate c16 then ⟨some 0, [], ⟨1, c16⟩⟩
  else if isLowSurrogate c16 then ⟨none, [], state⟩
  else c32rtomb s c16.toUInt32

/-- The units given to `c16rtomb` one after the other: all bytes, of each call as many as it
returns, and the last state, or the number of the first call that reports `EILSEQ`. -/
def feed (number : ℕ) (state : MbState) (out : List UInt8) :
    List UInt16 → Except ℕ (List UInt8 × MbState)
  | [] => .ok (out, state)
  | unit :: units =>
    let r := c16rtomb true unit state
    match r.ret with
    | none => .error number
    | some n => feed (number + 1) r.state (out ++ r.bytes.take n) units

/-! ## The two encodings -/

/-- UTF-16. -/
def utf16 (c : Char) : List UInt16 :=
  if c.toNat ≤ 0xFFFF then [.ofNat c.toNat]
  else [.ofNat (0xD800 + (c.toNat - 0x10000) / 0x400),
    .ofNat (0xDC00 + (c.toNat - 0x10000) % 0x400)]

/-- The UTF-16 of a text. -/
def encode16 (text : List Char) : List UInt16 := text.flatMap utf16

/-- The UTF-8 of a text. -/
def encode8 (text : List Char) : List UInt8 := text.flatMap String.utf8EncodeChar

/-- Some well-formed sequence starts with these units. -/
def Extends (units : List UInt16) : Prop := ∃ rest text, units ++ rest = encode16 text

lemma marked_eq {m : UInt8} {payload : UInt32} (i a : ℕ) {b : ℕ} (hm : m.toNat = 2 ^ i * a)
    (hpayload : payload.toNat % 2 ^ 8 = b) (hb : b < 2 ^ i) :
    marked m payload = UInt8.ofNat (b + m.toNat) := by
  have hor : (marked m payload).toNat = b + m.toNat := by
    rw [marked, UInt8.toNat_or, UInt32.toNat_toUInt8, hm, hpayload,
      ← two_pow_add_eq_or_of_lt hb, add_comm]
  rw [← hor, UInt8.ofNat_toNat]

lemma marked_tail (x : UInt32) : marked 0x80 (x &&& 0x3F) = UInt8.ofNat (x.toNat % 64 + 0x80) := by
  refine marked_eq 7 1 rfl ?_ (by omega)
  rw [UInt32.toNat_and, show (0x3F : UInt32).toNat = 2 ^ 6 - 1 from rfl,
    and_two_pow_sub_one_eq_mod]
  omega

lemma toNat_shift (x k : UInt32) : (x >>> k).toNat = x.toNat / 2 ^ (k.toNat % 32) := by
  rw [UInt32.toNat_shiftRight, shiftRight_eq_div_pow]

lemma c32rtomb_char (c : Char) :
    c32rtomb true c.val =
      ⟨some (String.utf8EncodeChar c).length, String.utf8EncodeChar c, .initial⟩ := by
  have hvalid := c.valid
  simp only [UInt32.isValidChar, Nat.isValidChar] at hvalid
  have h6 : (c.val >>> 6).toNat = c.val.toNat / 64 := toNat_shift _ _
  have h12 : (c.val >>> 12).toNat = c.val.toNat / 4096 := toNat_shift _ _
  have h18 : (c.val >>> 18).toNat = c.val.toNat / 262144 := toNat_shift _ _
  simp only [c32rtomb, String.utf8EncodeChar, UInt32.le_iff_toNat_le, Bool.not_true,
    Bool.false_eq_true, if_false, UInt32.reduceToNat]
  -- one goal is left for each length of the encoding, the first byte apart
  split_ifs <;> try omega
  all_goals
    simp only [Converted.mk.injEq, length_cons, length_nil, cons.injEq, and_true, true_and,
      marked_tail, h6, h12]
  · rw [← UInt8.toNat_inj, UInt32.toNat_toUInt8, UInt8.toNat_ofNat']
  · exact marked_eq 6 3 rfl (by omega) (by omega)
  · exact marked_eq 5 7 rfl (by omega) (by omega)
  · exact marked_eq 4 15 rfl (by omega) (by omega)

/-! ## One character at a time -/

lemma isHighSurrogate_iff {u : UInt16} :
    isHighSurrogate u = true ↔ 0xD800 ≤ u.toNat ∧ u.toNat ≤ 0xDBFF := by
  simp [isHighSurrogate, UInt16.le_iff_toNat_le]

lemma isLowSurrogate_iff {u : UInt16} :
    isLowSurrogate u = true ↔ 0xDC00 ≤ u.toNat ∧ u.toNat ≤ 0xDFFF := by
  simp [isLowSurrogate, UInt16.le_iff_toNat_le]

lemma toNat_combine {high low : UInt16} (hhigh : isHighSurrogate high = true)
    (hlow : isLowSurrogate low = true) : (combineSurrogates high low).toNat =
      (high.toNat - 0xD800) * 0x400 + (low.toNat - 0xDC00) + 0x10000 := by
  rw [isHighSurrogate_iff] at hhigh
  rw [isLowSurrogate_iff] at hlow
  have hh : (high.toUInt32 - 0xD800).toNat = high.toNat - 0xD800 :=
    UInt32.toNat_sub_of_le _ _ (UInt32.le_iff_toNat_le.mpr hhigh.1)
  have hl : (low.toUInt32 - 0xDC00).toNat = low.toNat - 0xDC00 :=
    UInt32.toNat_sub_of_le _ _ (UInt32.le_iff_toNat_le.mpr hlow.1)
  rw [combineSurrogates, UInt32.toNat_add, UInt32.toNat_add, UInt32.toNat_shiftLeft, hh, hl,
    shiftLeft_eq, show (10 : UInt32).toNat % 32 = 10 from rfl,
    show (0x10000 : UInt32).toNat = 65536 from rfl]
  omega

lemma exists_char {x : UInt32} {n : ℕ} (hx : x.toNat = n) (h : n.isValidChar) :
    ∃ c : Char, c.val = x ∧ c.toNat = n :=
  ⟨⟨x, show x.toNat.isValidChar from hx ▸ h⟩, rfl, hx⟩

lemma exists_utf16_single {u : UInt16} (hhigh : isHighSurrogate u = false)
    (hlow : isLowSurrogate u = false) : ∃ c : Char, utf16 c = [u] ∧ c.val = u.toUInt32 := by
  rw [Bool.eq_false_iff, ne_eq, isHighSurrogate_iff] at hhigh
  rw [Bool.eq_false_iff, ne_eq, isLowSurrogate_iff] at hlow
  have hlt := u.toNat_lt
  obtain ⟨c, hval, hc⟩ := exists_char (UInt16.toNat_toUInt32 u) (by rw [Nat.isValidChar]; omega)
  refine ⟨c, ?_, hval⟩
  rw [utf16, hc, if_pos (by omega), UInt16.ofNat_toNat]

lemma exists_utf16_pair {high low : UInt16} (hhigh : isHighSurrogate high = true)
    (hlow : isLowSurrogate low = true) :
    ∃ c : Char, utf16 c = [high, low] ∧ c.val = combineSurrogates high low := by
  have hcombine := toNat_combine hhigh hlow
  rw [isHighSurrogate_iff] at hhigh
  rw [isLowSurrogate_iff] at hlow
  obtain ⟨c, hval, hc⟩ := exists_char hcombine (by rw [Nat.isValidChar]; omega)
  refine ⟨c, ?_, hval⟩
  have hfirst : 0xD800 + (c.toNat - 0x10000) / 0x400 = high.toNat := by omega
  have hsecond : 0xDC00 + (c.toNat - 0x10000) % 0x400 = low.toNat := by omega
  rw [utf16, if_neg (by omega), hfirst, hsecond, UInt16.ofNat_toNat, UInt16.ofNat_toNat]

lemma utf16_cases (c : Char) :
    (∃ u, utf16 c = [u] ∧ isHighSurrogate u = false ∧ isLowSurrogate u = false ∧
      u.toUInt32 = c.val) ∨
    ∃ high low, utf16 c = [high, low] ∧ isHighSurrogate high = true ∧
      isLowSurrogate low = true ∧ combineSurrogates high low = c.val := by
  have hvalid : c.toNat.isValidChar := c.valid
  rw [Nat.isValidChar] at hvalid
  rw [utf16]
  split_ifs with hshort
  · left
    have hu : (UInt16.ofNat c.toNat).toNat = c.toNat :=
      UInt16.toNat_ofNat_of_lt' (show _ < 2 ^ 16 by omega)
    refine ⟨_, rfl, ?_, ?_, UInt32.toNat_inj.mp hu⟩
    · rw [Bool.eq_false_iff, ne_eq, isHighSurrogate_iff, hu]
      omega
    · rw [Bool.eq_false_iff, ne_eq, isLowSurrogate_iff, hu]
      omega
  · right
    have hh := UInt16.toNat_ofNat_of_lt'
      (show 0xD800 + (c.toNat - 0x10000) / 0x400 < 2 ^ 16 by omega)
    have hl := UInt16.toNat_ofNat_of_lt'
      (show 0xDC00 + (c.toNat - 0x10000) % 0x400 < 2 ^ 16 by omega)
    have hhigh := isHighSurrogate_iff.mpr (by rw [hh]; omega)
    have hlow := isLowSurrogate_iff.mpr (by rw [hl]; omega)
    refine ⟨_, _, rfl, hhigh, hlow, UInt32.toNat_inj.mp ?_⟩
    rw [toNat_combine hhigh hlow, hh, hl]
    show _ = c.toNat
    omega

lemma feed_utf16 (number : ℕ) (out : List UInt8) (c : Char) (units : List UInt16) :
    feed number .initial out (utf16 c ++ units) =
      feed (number + (utf16 c).length) .initial (out ++ String.utf8EncodeChar c) units := by
  rcases utf16_cases c with ⟨u, hu, hhigh, hlow, hval⟩ | ⟨high, low, hu, hhigh, hlow, hval⟩
  · have hcall : c16rtomb true u .initial = c32rtomb true c.val := by
      simp [c16rtomb, MbState.initial, hhigh, hlow, hval]
    rw [hu, singleton_append, feed, hcall, c32rtomb_char]
    dsimp only
    rw [take_length]
    rfl
  · have hfirst : c16rtomb true high .initial = ⟨some 0, [], ⟨1, high⟩⟩ := by
      simp [c16rtomb, MbState.initial, hhigh]
    have hsecond : c16rtomb true low ⟨1, high⟩ = c32rtomb true c.val := by
      simp [c16rtomb, hlow, hval]
    rw [hu, cons_append, singleton_append, feed, hfirst]
    dsimp only
    rw [feed, hsecond, c32rtomb_char]
    dsimp only
    rw [take_length, take_nil, append_nil]
    rfl

lemma feed_encode16 (number : ℕ) (out : List UInt8) (text : List Char) (units : List UInt16) :
    feed number .initial out (encode16 text ++ units) =
      feed (number + (encode16 text).length) .initial (out ++ encode8 text) units := by
  induction text generalizing number out with
  | nil => simp [encode16, encode8]
  | cons c text ih =>
    have h16 : encode16 (c :: text) = utf16 c ++ encode16 text := flatMap_cons
    have h8 : encode8 (c :: text) = String.utf8EncodeChar c ++ encode8 text := flatMap_cons
    rw [h16, append_assoc, feed_utf16, ih, h8, length_append, append_assoc, add_assoc]

/-! ## Sequences that are not well formed -/

/-- What is left of a sequence when no further character can be read off. -/
inductive Stop : List UInt16 → Prop
  | done : Stop []
  | pending {high : UInt16} (h : isHighSurrogate high = true) : Stop [high]
  | low {low : UInt16} {rest : List UInt16} (h : isLowSurrogate low = true) : Stop (low :: rest)
  | unpaired {high u : UInt16} {rest : List UInt16} (h : isHighSurrogate high = true)
      (hu : isLowSurrogate u = false) : Stop (high :: u :: rest)

lemma exists_stop : ∀ units, ∃ text rest, units = encode16 text ++ rest ∧ Stop rest
  | [] => ⟨[], [], rfl, .done⟩
  | u :: units => by
    by_cases hhigh : isHighSurrogate u = true
    · cases units with
      | nil => exact ⟨[], [u], rfl, .pending hhigh⟩
      | cons v units =>
        by_cases hlow : isLowSurrogate v = true
        · obtain ⟨c, hc, -⟩ := exists_utf16_pair hhigh hlow
          obtain ⟨text, rest, heq, hstop⟩ := exists_stop units
          refine ⟨c :: text, rest, ?_, hstop⟩
          rw [heq, encode16, encode16, flatMap_cons, hc, append_assoc, cons_append, cons_append,
            nil_append]
        · exact ⟨[], _, rfl, .unpaired hhigh (Bool.eq_false_iff.mpr hlow)⟩
    · by_cases hlow : isLowSurrogate u = true
      · exact ⟨[], _, rfl, .low hlow⟩
      · obtain ⟨c, hc, -⟩ := exists_utf16_single (Bool.eq_false_iff.mpr hhigh)
          (Bool.eq_false_iff.mpr hlow)
        obtain ⟨text, rest, heq, hstop⟩ := exists_stop units
        refine ⟨c :: text, rest, ?_, hstop⟩
        rw [heq, encode16, encode16, flatMap_cons, hc, append_assoc, cons_append, nil_append]
termination_by units => units.length

/-- A call that reports `EILSEQ` whatever follows stands where no well-formed sequence has
its unit. -/
lemma not_extends {units : List UInt16} {i : ℕ}
    (h : ∀ rest, feed 0 .initial [] (units ++ rest) = .error i) : ¬Extends units := by
  rintro ⟨rest, text, heq⟩
  have hok := feed_encode16 0 [] text []
  rw [append_nil, ← heq, h rest] at hok
  cases hok

section Errors

variable (text : List Char) (rest : List UInt16)

lemma feed_text (units : List UInt16) :
    feed 0 .initial [] (encode16 text ++ units) =
      feed (encode16 text).length .initial (encode8 text) units := by
  simpa using feed_encode16 0 [] text units

lemma feed_low {low : UInt16} (hlow : isLowSurrogate low = true) :
    feed 0 .initial [] (encode16 text ++ low :: rest) = .error (encode16 text).length ∧
      Extends ((encode16 text ++ low :: rest).take (encode16 text).length) ∧
      ¬Extends ((encode16 text ++ low :: rest).take ((encode16 text).length + 1)) := by
  have hhigh : isHighSurrogate low = false := by
    rw [isLowSurrogate_iff] at hlow
    rw [Bool.eq_false_iff, ne_eq, isHighSurrogate_iff]
    omega
  have herror : ∀ rest, feed 0 .initial [] (encode16 text ++ low :: rest) =
      .error (encode16 text).length := by
    intro rest
    rw [feed_text]
    simp [feed, c16rtomb, MbState.initial, hhigh, hlow]
  refine ⟨herror rest, ⟨[], text, by simp⟩, ?_⟩
  rw [take_length_add_append]
  exact not_extends fun more => by simpa using herror more

lemma feed_unpaired {high u : UInt16} (hhigh : isHighSurrogate high = true)
    (hu : isLowSurrogate u = false) :
    feed 0 .initial [] (encode16 text ++ high :: u :: rest) =
        .error ((encode16 text).length + 1) ∧
      Extends ((encode16 text ++ high :: u :: rest).take ((encode16 text).length + 1)) ∧
      ¬Extends ((encode16 text ++ high :: u :: rest).take ((encode16 text).length + 1 + 1)) := by
  have herror : ∀ rest, feed 0 .initial [] (encode16 text ++ high :: u :: rest) =
      .error ((encode16 text).length + 1) := by
    intro rest
    rw [feed_text]
    simp [feed, c16rtomb, MbState.initial, hhigh, hu]
  refine ⟨herror rest, ?_, ?_⟩
  · -- with a low surrogate behind it the high one is a character
    obtain ⟨c, hc, -⟩ := exists_utf16_pair hhigh (show isLowSurrogate 0xDC00 = true from rfl)
    have hmore : encode16 (text ++ [c]) = encode16 text ++ [high, 0xDC00] := by
      simp [encode16, hc]
    exact ⟨[0xDC00], text ++ [c], by simp [take_length_add_append, hmore]⟩
  · rw [add_assoc, take_length_add_append]
    exact not_extends fun more => by simpa using herror more

end Errors

/-- **UTF-16 comes out as UTF-8.**  A well-formed sequence gives the UTF-8 of its text and leaves
the initial state.  For any other, a call reports `EILSEQ`, the first whose unit no well-formed
sequence has there, or a high surrogate at the end is kept in the state. -/
theorem c16rtomb_utf8 (units : List UInt16) :
    (∀ text, units = encode16 text → feed 0 .initial [] units = .ok (encode8 text, .initial)) ∧
    ((∀ text, units ≠ encode16 text) →
      (∃ i < units.length, feed 0 .initial [] units = .error i ∧ Extends (units.take i) ∧
        ¬Extends (units.take (i + 1))) ∨
      ∃ text high state, isHighSurrogate high = true ∧ units = encode16 text ++ [high] ∧
        feed 0 .initial [] units = .ok (encode8 text, state) ∧ state ≠ .initial) := by
  constructor
  · rintro text rfl
    simpa [feed] using feed_encode16 0 [] text []
  · intro hnot
    obtain ⟨text, rest, rfl, hstop⟩ := exists_stop units
    cases hstop with
    | done => exact absurd (append_nil _) (hnot text)
    | @pending high hhigh =>
      right
      refine ⟨text, high, ⟨1, high⟩, hhigh, rfl, ?_, by simp [MbState.initial]⟩
      rw [feed_text]
      simp [feed, c16rtomb, MbState.initial, hhigh]
    | @low low rest hlow => exact .inl ⟨_, by simp, feed_low text rest hlow⟩
    | @unpaired high u rest hhigh hu => exact .inl ⟨_, by simp, feed_unpaired text rest hhigh hu⟩

end OpenHobbyOS.Libc
