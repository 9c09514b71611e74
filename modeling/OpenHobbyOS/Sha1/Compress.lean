/-
# The SHA-1 compression function

`sha1_transform` of `ports/libsha1/libsha1.c`, and the same function as FIPS 180-4 gives it
(sections 4.1.1, 4.2.1 and 6.1.2).
-/
import Mathlib.Data.List.GetD
import OpenHobbyOS.Paging.Entry

namespace OpenHobbyOS.Sha1

open BitVec List

/-- The five words of the state: `H` of the standard, `a` to `e` in a round. -/
structure Words where
  a : U32
  b : U32
  c : U32
  d : U32
  e : U32
  deriving DecidableEq

/-! ## The source -/

/-- `sha1_rotl32`. -/
def sha1Rotl32 (value : U32) (bits : ℕ) : U32 := value <<< bits ||| value >>> (32 - bits)

/-- `sha1_load_be32` at the byte `i` of a block. -/
def sha1LoadBe32 (input : List U8) (i : ℕ) : U32 :=
  (input.getD i 0).setWidth 32 <<< 24 ||| (input.getD (i + 1) 0).setWidth 32 <<< 16 |||
    (input.getD (i + 2) 0).setWidth 32 <<< 8 ||| (input.getD (i + 3) 0).setWidth 32

/-- One round of the loop that extends `schedule` from 16 words to 80. -/
def extend (schedule : List U32) (i : ℕ) : List U32 :=
  schedule ++ [sha1Rotl32 (schedule.getD (i - 3) 0 ^^^ schedule.getD (i - 8) 0 ^^^
    schedule.getD (i - 14) 0 ^^^ schedule.getD (i - 16) 0) 1]

/-- The first loop: the words of the block. -/
def blockWords (block : List U8) : List U32 :=
  (range 16).map fun i => sha1LoadBe32 block (i * 4)

/-- The array `schedule` after both loops. -/
def schedule (block : List U8) : List U32 := (range' 16 64).foldl extend (blockWords block)

/-- The body of the loop over the rounds. -/
def round (schedule : List U32) (w : Words) (i : ℕ) : Words :=
  let choice : U32 × U32 :=
    if i < 20 then ((w.b &&& w.c) ||| (~~~w.b &&& w.d), 0x5A827999)
    else if i < 40 then (w.b ^^^ w.c ^^^ w.d, 0x6ED9EBA1)
    else if i < 60 then ((w.b &&& w.c) ||| (w.b &&& w.d) ||| (w.c &&& w.d), 0x8F1BBCDC)
    else (w.b ^^^ w.c ^^^ w.d, 0xCA62C1D6)
  let temp := sha1Rotl32 w.a 5 + choice.1 + w.e + choice.2 + schedule.getD i 0
  ⟨temp, w.a, sha1Rotl32 w.b 30, w.c, w.d⟩

/-- `sha1_transform`. -/
def sha1Transform (state : Words) (block : List U8) : Words :=
  let w := (range 80).foldl (round (schedule block)) state
  ⟨state.a + w.a, state.b + w.b, state.c + w.c, state.d + w.d, state.e + w.e⟩

/-! ## The standard -/

namespace Fips

/-- Ch. -/
def ch (x y z : U32) : U32 := (x &&& y) ^^^ (~~~x &&& z)

/-- Parity. -/
def parity (x y z : U32) : U32 := x ^^^ y ^^^ z

/-- Maj. -/
def maj (x y z : U32) : U32 := (x &&& y) ^^^ (x &&& z) ^^^ (y &&& z)

/-- The function of round `t`. -/
def f (t : ℕ) : U32 → U32 → U32 → U32 :=
  if t < 20 then ch else if t < 40 then parity else if t < 60 then maj else parity

/-- The constant of round `t`. -/
def K (t : ℕ) : U32 :=
  if t < 20 then 0x5A827999 else if t < 40 then 0x6ED9EBA1 else if t < 60 then 0x8F1BBCDC
  else 0xCA62C1D6

/-- The message schedule of a block with the words `M`. -/
def W (M : ℕ → U32) (t : ℕ) : U32 :=
  if t < 16 then M t
  else (W M (t - 3) ^^^ W M (t - 8) ^^^ W M (t - 14) ^^^ W M (t - 16)).rotateLeft 1
termination_by t

/-- The working variables after `t` rounds. -/
def working (M : ℕ → U32) (H : Words) : ℕ → Words
  | 0 => H
  | t + 1 =>
    let v := working M H t
    ⟨v.a.rotateLeft 5 + f t v.b v.c v.d + v.e + K t + W M t, v.a, v.b.rotateLeft 30, v.c, v.d⟩

/-- The intermediate hash value after the block with the words `M`. -/
def compress (H : Words) (M : ℕ → U32) : Words :=
  let v := working M H 80
  ⟨v.a + H.a, v.b + H.b, v.c + H.c, v.d + H.d, v.e + H.e⟩

end Fips

variable {block : List U8} {M : ℕ → U32} {t : ℕ} {sched : List U32}

/-! ## They agree -/

lemma sha1Rotl32_eq {bits : ℕ} (h : bits < 32) (value : U32) :
    sha1Rotl32 value bits = value.rotateLeft bits := by
  rw [sha1Rotl32, rotateLeft_eq_rotateLeftAux_of_lt h, BitVec.rotateLeftAux]

lemma ch_eq (x y z : U32) : (x &&& y) ||| (~~~x &&& z) = Fips.ch x y z := by
  ext i hi
  simp only [Fips.ch, getElem_or, getElem_xor, getElem_and, getElem_not]
  cases x[i] <;> simp

lemma maj_eq (x y z : U32) : (x &&& y) ||| (x &&& z) ||| (y &&& z) = Fips.maj x y z := by
  ext i hi
  simp only [Fips.maj, getElem_or, getElem_xor, getElem_and]
  cases x[i] <;> cases y[i] <;> simp

lemma schedule_upto (hM : ∀ t < 16, sha1LoadBe32 block (t * 4) = M t) (n : ℕ) :
    ((range' 16 n).foldl extend (blockWords block)).length = 16 + n ∧
      ∀ t < 16 + n, ((range' 16 n).foldl extend (blockWords block)).getD t 0 = Fips.W M t := by
  induction n with
  | zero =>
    refine ⟨by simp [blockWords], fun t ht => ?_⟩
    rw [Fips.W, if_pos ht, ← hM t ht]
    simp [blockWords, getD_eq_getElem?_getD, ht]
  | succ n ih =>
    obtain ⟨hlen, hword⟩ := ih
    rw [range'_concat, foldl_append, foldl_cons, foldl_nil, Nat.one_mul]
    -- the word that is appended reads words that are already there
    refine ⟨by rw [extend, length_append, hlen]; rfl, fun t ht => ?_⟩
    rw [extend]
    by_cases hlt : t < 16 + n
    · rw [getD_append _ _ _ _ (by omega), hword t hlt]
    · obtain rfl : t = 16 + n := by omega
      rw [getD_append_right _ _ _ _ (by omega), hlen, Nat.sub_self, Fips.W,
        if_neg (by omega), getD_cons_zero, sha1Rotl32_eq (by decide), hword _ (by omega),
        hword _ (by omega), hword _ (by omega), hword _ (by omega)]

lemma schedule_getD (hM : ∀ t < 16, sha1LoadBe32 block (t * 4) = M t) (ht : t < 80) :
    (schedule block).getD t 0 = Fips.W M t :=
  (schedule_upto hM 64).2 t ht

lemma round_eq (hW : sched.getD t 0 = Fips.W M t) (v : Words) :
    round sched v t = ⟨v.a.rotateLeft 5 + Fips.f t v.b v.c v.d + v.e + Fips.K t + Fips.W M t, v.a,
      v.b.rotateLeft 30, v.c, v.d⟩ := by
  rw [round, hW, ch_eq, maj_eq, sha1Rotl32_eq (by decide), sha1Rotl32_eq (by decide), Fips.f,
    Fips.K]
  split_ifs <;> rfl

lemma rounds_eq (hW : ∀ t < 80, sched.getD t 0 = Fips.W M t) (H : Words) {n : ℕ} (hn : n ≤ 80) :
    (range n).foldl (round sched) H = Fips.working M H n := by
  induction n with
  | zero => rfl
  | succ n ih =>
    rw [range_succ, foldl_append, ih (by omega), foldl_cons, foldl_nil,
      round_eq (hW n (by omega)), Fips.working]

/-- **The compression function.**  `sha1_transform` is the one of the standard. -/
theorem sha1Transform_eq (hM : ∀ t < 16, sha1LoadBe32 block (t * 4) = M t) (state : Words) :
    sha1Transform state block = Fips.compress state M := by
  rw [sha1Transform, rounds_eq (fun t ht => schedule_getD hM ht) state le_rfl, Fips.compress]
  simp only [BitVec.add_comm]

end OpenHobbyOS.Sha1
