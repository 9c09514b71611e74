/-
# Removal by moving the last element

An element of an array is removed by moving the last element into its place.
-/
import Mathlib.Tactic

namespace OpenHobbyOS.Lib

open List

variable {α β : Type}

/-- The list without its element `i`: the last element takes its place. -/
def swapRemove (l : List α) (i : ℕ) : List α :=
  match l.getLast? with
  | none => []
  | some last => (l.set i last).dropLast

/-- **The elements that are left.** -/
theorem swapRemove_perm {l : List α} {i : ℕ} (h : i < l.length) :
    (swapRemove l i).Perm (l.eraseIdx i) := by
  rcases eq_nil_or_concat l with rfl | ⟨l, last, rfl⟩
  · exact absurd h (Nat.not_lt_zero i)
  rw [concat_eq_append, length_append, length_singleton] at h
  rw [concat_eq_append, swapRemove, getLast?_concat]
  by_cases hi : i < l.length
  · show ((l ++ [last]).set i last).dropLast.Perm _
    rw [set_append_left _ _ hi, dropLast_concat, eraseIdx_append_of_lt_length hi]
    exact (set_perm_cons_eraseIdx hi last).trans (perm_append_singleton last _).symm
  · obtain rfl : i = l.length := by omega
    show ((l ++ [last]).set l.length last).dropLast.Perm _
    rw [set_append_right _ _ le_rfl, eraseIdx_append_of_length_le le_rfl, Nat.sub_self]
    simp

end OpenHobbyOS.Lib
