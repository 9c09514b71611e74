/-
# Windows of a store

A store is a function from addresses to values, a window the list of the values from one address
on.  Numbers are read from a store of bytes in little-endian order.
-/
import Mathlib.Data.List.GetD
import Mathlib.Tactic

namespace OpenHobbyOS.Lib

open List Option Nat

variable {α : Type}

/-- The `n` values from address `a` on. -/
def window (f : ℕ → α) (a n : ℕ) : List α := (List.range' a n).map f

variable {f g : ℕ → α} {a b m n i : ℕ}

@[simp] lemma length_window : (window f a n).length = n := by simp [window]

@[simp] lemma window_zero : window f a 0 = [] := rfl

lemma getElem?_window (h : i < n) : (window f a n)[i]? = some (f (a + i)) := by
  simp [window, h]

lemma getD_window (h : i < n) (d : α) : (window f a n).getD i d = f (a + i) := by
  rw [getD_eq_getElem?_getD, getElem?_window h, getD_some]

lemma window_append (f : ℕ → α) (a m n : ℕ) :
    window f a m ++ window f (a + m) n = window f a (m + n) := by
  rw [window, window, window, ← map_append]
  congr 1
  have := @range'_append a m n 1
  rwa [Nat.one_mul] at this

lemma take_window (h : m ≤ n) : (window f a n).take m = window f a m := by
  rw [← Nat.add_sub_cancel' h, ← window_append, take_append_of_le_length (by simp),
    take_of_length_le (by simp)]

lemma drop_window (h : m ≤ n) : (window f a n).drop m = window f (a + m) (n - m) := by
  conv_lhs => rw [← Nat.add_sub_cancel' h, ← window_append]
  rw [drop_append_of_le_length (by simp), drop_of_length_le (by simp), nil_append]

lemma window_eq_iff : window f a n = window g b n ↔ ∀ i < n, f (a + i) = g (b + i) := by
  constructor
  · intro h i hi
    have := congrArg (·[i]?) h
    simpa only [getElem?_window hi, some.injEq] using this
  · intro h
    refine ext_getElem? fun i => ?_
    by_cases hi : i < n
    · rw [getElem?_window hi, getElem?_window hi, h i hi]
    · rw [getElem?_eq_none (by simpa using hi), getElem?_eq_none (by simpa using hi)]

/-- The store holds the values `xs` from address `a` on. -/
def Holds (f : ℕ → α) (a : ℕ) (xs : List α) : Prop := window f a xs.length = xs

lemma holds_nil (f : ℕ → α) (a : ℕ) : Holds f a [] := rfl

lemma holds_append {xs ys : List α} :
    Holds f a (xs ++ ys) ↔ Holds f a xs ∧ Holds f (a + xs.length) ys := by
  rw [Holds, Holds, Holds, length_append, ← window_append]
  exact ⟨fun h => append_inj h length_window, fun h => by rw [h.1, h.2]⟩

lemma holds_cons {x : α} {xs : List α} : Holds f a (x :: xs) ↔ f a = x ∧ Holds f (a + 1) xs := by
  rw [Holds, Holds, length_cons, window, range'_succ, map_cons, List.cons.injEq]
  rfl

lemma holds_iff_of_eq (h : ∀ i, f (a + i) = g (b + i)) {xs : List α} :
    Holds f a xs ↔ Holds g b xs := by
  rw [Holds, Holds, window_eq_iff.mpr fun i _ => h i]

lemma holds_getD (xs ys : List α) (d : α) : Holds ((xs ++ ys).getD · d) 0 xs := by
  refine ext_getElem? fun i => ?_
  by_cases hi : i < xs.length
  · rw [getElem?_window hi, zero_add, getD_append _ _ _ _ hi, getD_eq_getElem _ _ hi,
      getElem?_eq_getElem hi]
  · rw [getElem?_eq_none (by simpa using hi), getElem?_eq_none (by simpa using hi)]

/-- The store with the values `xs` written from address `a` on. -/
def splice (f : ℕ → α) (a : ℕ) (xs : List α) (i : ℕ) : α :=
  if a ≤ i then xs.getD (i - a) (f i) else f i

lemma window_splice_of_le {xs : List α} (h : b + n ≤ a) :
    window (splice f a xs) b n = window f b n :=
  window_eq_iff.mpr fun i hi => if_neg (by omega)

lemma holds_splice (f : ℕ → α) (a : ℕ) (xs : List α) : Holds (splice f a xs) a xs := by
  refine ext_getElem? fun i => ?_
  by_cases hi : i < xs.length
  · rw [getElem?_window hi, splice, if_pos (by omega), Nat.add_sub_cancel_left,
      getD_eq_getElem?_getD, getElem?_eq_getElem hi, getD_some]
  · rw [getElem?_eq_none (by simpa using hi), getElem?_eq_none (by simpa using hi)]

lemma holds_splice_of_le {xs ys : List α} (h : a + ys.length ≤ b) :
    Holds (splice f a ys) b xs ↔ Holds f b xs := by
  refine holds_iff_of_eq fun i => ?_
  rw [splice, if_pos (by omega), getD_eq_default _ _ (by omega)]

lemma holds_splice_append {xs : List α} (h : Holds f a xs) (ys : List α) :
    Holds (splice f (a + xs.length) ys) a (xs ++ ys) := by
  refine holds_append.mpr ⟨?_, holds_splice f _ ys⟩
  rw [Holds, window_splice_of_le le_rfl]
  exact h

/-! ## Numbers -/

/-- The two bytes at an address. -/
def le16 (f : ℕ → BitVec 8) (a : ℕ) : ℕ := (f a).toNat + 256 * (f (a + 1)).toNat

/-- The four bytes at an address. -/
def le32 (f : ℕ → BitVec 8) (a : ℕ) : ℕ := le16 f a + 65536 * le16 f (a + 2)

lemma le32_congr {f g : ℕ → BitVec 8} (h : ∀ i < 4, f (a + i) = g (b + i)) :
    le32 f a = le32 g b := by
  have h₀ := h 0 (by omega)
  have h₁ := h 1 (by omega)
  have h₂ := h 2 (by omega)
  have h₃ := h 3 (by omega)
  simp only [add_zero] at h₀
  simp only [le32, le16, add_assoc, reduceAdd, h₀, h₁, h₂, h₃]

/-- The bytes of a number, the least significant one first. -/
def le32Bytes (n : ℕ) : List (BitVec 8) :=
  [BitVec.ofNat 8 n, BitVec.ofNat 8 (n / 256), BitVec.ofNat 8 (n / 65536),
    BitVec.ofNat 8 (n / 16777216)]

@[simp] lemma length_le32Bytes (n : ℕ) : (le32Bytes n).length = 4 := rfl

lemma le32_of_holds {f : ℕ → BitVec 8} (hn : n < 2 ^ 32) (h : Holds f a (le32Bytes n)) :
    le32 f a = n := by
  simp only [le32Bytes, holds_cons] at h
  obtain ⟨h₀, h₁, h₂, h₃, -⟩ := h
  simp only [le32, le16, add_assoc, reduceAdd] at h₀ h₁ h₂ h₃ ⊢
  rw [h₀, h₁, h₂, h₃]
  simp only [BitVec.toNat_ofNat]
  omega

lemma le16_lt (f : ℕ → BitVec 8) (a : ℕ) : le16 f a < 2 ^ 16 := by
  have h₀ := (f a).isLt
  have h₁ := (f (a + 1)).isLt
  rw [le16]
  omega

lemma le32_lt (f : ℕ → BitVec 8) (a : ℕ) : le32 f a < 2 ^ 32 := by
  have hlow := le16_lt f a
  have hhigh := le16_lt f (a + 2)
  rw [le32]
  omega

lemma getD_le32Bytes_le32 (f : ℕ → BitVec 8) (a : ℕ) (hi : i < 4) :
    (le32Bytes (le32 f a)).getD i 0 = f (a + i) := by
  have h₀ := (f a).isLt
  have h₁ := (f (a + 1)).isLt
  have h₂ := (f (a + 2)).isLt
  have h₃ := (f (a + 3)).isLt
  refine BitVec.eq_of_toNat_eq ?_
  interval_cases i <;> simp only [le32Bytes, le32, le16, getD_cons_zero, getD_cons_succ,
    BitVec.toNat_ofNat, add_zero, add_assoc, reduceAdd] <;> omega

/-- A store of numbers as a store of bytes. -/
def bytesOf (f : ℕ → BitVec 32) (k : ℕ) : BitVec 8 := (le32Bytes (f (k / 4)).toNat).getD (k % 4) 0

lemma holds_of_getD {g : ℕ → BitVec 8} {x : BitVec 32}
    (h : ∀ j < 4, g (a + j) = (le32Bytes x.toNat).getD j 0) : Holds g a (le32Bytes x.toNat) := by
  refine ext_getElem? fun j => ?_
  rw [length_le32Bytes]
  by_cases hj : j < 4
  · rw [getElem?_window hj, h j hj, getD_eq_getElem?_getD,
      getElem?_eq_getElem (by rwa [length_le32Bytes]), getD_some]
  · rw [getElem?_eq_none (by simpa using hj), getElem?_eq_none (by simpa using hj)]

lemma le32_bytesOf (f : ℕ → BitVec 32) (i : ℕ) : le32 (bytesOf f) (4 * i) = (f i).toNat := by
  refine le32_of_holds (f i).isLt (holds_of_getD fun j hj => ?_)
  rw [bytesOf, show (4 * i + j) / 4 = i by omega, show (4 * i + j) % 4 = j by omega]

lemma le32_window {f : ℕ → BitVec 8} (h : i + 4 ≤ n) :
    le32 ((window f a n).getD · 0) i = le32 f (a + i) :=
  le32_congr fun j hj => by rw [getD_window (by omega), add_assoc]

end OpenHobbyOS.Lib
