/-
# Blocks

A stream of values is consumed in blocks of a fixed size; what is left is shorter than a block.  A
stream that comes in pieces is consumed with the rest of one piece put in front of the next.
-/
import Mathlib.Tactic

namespace OpenHobbyOS.Lib

open List Nat

variable {α σ : Type} (f : σ → List α → σ) (B : ℕ)

/-- The loop over the blocks, with a bound on the number of rounds. -/
def blocksLoop : ℕ → σ → List α → σ × List α
  | 0, s, xs => (s, xs)
  | n + 1, s, xs => if B ≤ xs.length then blocksLoop n (f s (xs.take B)) (xs.drop B) else (s, xs)

/-- The state after all whole blocks, and the rest. -/
def blocks (s : σ) (xs : List α) : σ × List α := blocksLoop f B xs.length s xs

variable {f B}

lemma blocks_of_lt {s : σ} {xs : List α} (h : xs.length < B) : blocks f B s xs = (s, xs) := by
  rw [blocks]
  cases xs.length with
  | zero => rfl
  | succ n => rw [blocksLoop, if_neg (by omega)]

lemma blocksLoop_eq (hB : 0 < B) {n : ℕ} {s : σ} {xs : List α} (h : xs.length ≤ n) :
    blocksLoop f B n s xs = blocks f B s xs := by
  induction n using Nat.strong_induction_on generalizing s xs with
  | _ n ih =>
    by_cases hlt : xs.length < B
    · rw [blocks_of_lt hlt]
      cases n with
      | zero => rfl
      | succ n => rw [blocksLoop, if_neg (by omega)]
    · have hdrop : (xs.drop B).length = xs.length - B := length_drop
      obtain ⟨m, hm⟩ : ∃ m, xs.length = m + 1 := ⟨xs.length - 1, by omega⟩
      obtain ⟨n, rfl⟩ : ∃ k, n = k + 1 := ⟨n - 1, by omega⟩
      have hfirst : blocksLoop f B (n + 1) s xs = blocks f B (f s (xs.take B)) (xs.drop B) := by
        rw [blocksLoop, if_pos (by omega)]
        exact ih n (by omega) (by omega)
      have hsame : blocks f B s xs = blocks f B (f s (xs.take B)) (xs.drop B) := by
        rw [blocks, hm, blocksLoop, if_pos (by omega)]
        exact ih m (by omega) (by omega)
      rw [hfirst, hsame]

lemma blocks_of_le (hB : 0 < B) {s : σ} {xs : List α} (h : B ≤ xs.length) :
    blocks f B s xs = blocks f B (f s (xs.take B)) (xs.drop B) := by
  obtain ⟨m, hm⟩ : ∃ m, xs.length = m + 1 := ⟨xs.length - 1, by omega⟩
  rw [blocks, hm, blocksLoop, if_pos (by omega)]
  exact blocksLoop_eq hB (by rw [length_drop]; omega)

/-- **Induction over the blocks** of a list. -/
theorem blocks_induction (hB : 0 < B) {P : List α → Prop} (hshort : ∀ xs, xs.length < B → P xs)
    (hblock : ∀ xs, B ≤ xs.length → P (xs.drop B) → P xs) (xs : List α) : P xs := by
  induction hn : xs.length using Nat.strong_induction_on generalizing xs with
  | _ n ih =>
    by_cases hlt : xs.length < B
    · exact hshort xs hlt
    · exact hblock xs (by omega) (ih _ (by rw [length_drop]; omega) _ rfl)

lemma length_blocks (hB : 0 < B) (s : σ) (xs : List α) :
    (blocks f B s xs).2.length = xs.length % B := by
  revert s
  refine blocks_induction (P := fun xs => ∀ s, (blocks f B s xs).2.length = xs.length % B) hB
    (fun xs h s => ?_) (fun xs h ih s => ?_) xs
  · rw [blocks_of_lt h, mod_eq_of_lt h]
  · rw [blocks_of_le hB h, ih, length_drop, ← mod_eq_sub_mod h]

/-- **Pieces.**  The rest of one piece goes in front of the next. -/
theorem blocks_append (hB : 0 < B) (s : σ) (xs ys : List α) :
    blocks f B s (xs ++ ys) =
      blocks f B (blocks f B s xs).1 ((blocks f B s xs).2 ++ ys) := by
  revert s
  refine blocks_induction (P := fun xs => ∀ s, blocks f B s (xs ++ ys) =
    blocks f B (blocks f B s xs).1 ((blocks f B s xs).2 ++ ys)) hB
    (fun xs h s => ?_) (fun xs h ih s => ?_) xs
  · rw [blocks_of_lt h]
  · have htake : (xs ++ ys).take B = xs.take B := take_append_of_le_length h
    have hdrop : (xs ++ ys).drop B = xs.drop B ++ ys := drop_append_of_le_length h
    rw [blocks_of_le hB (by rw [length_append]; omega), htake, hdrop, ih, blocks_of_le hB h]

lemma blocks_eq_foldl (hB : 0 < B) (s : σ) (xs : List α) :
    (blocks f B s xs).1 =
      (List.range (xs.length / B)).foldl (fun s i => f s ((xs.drop (B * i)).take B)) s := by
  revert s
  refine blocks_induction (P := fun xs => ∀ s, (blocks f B s xs).1 =
    (List.range (xs.length / B)).foldl (fun s i => f s ((xs.drop (B * i)).take B)) s) hB
    (fun xs h s => ?_) (fun xs h ih s => ?_) xs
  · rw [blocks_of_lt h, div_eq_of_lt h, range_zero, foldl_nil]
  · have hcount : xs.length / B = (xs.drop B).length / B + 1 := by
      rw [length_drop, ← Nat.add_div_right _ hB, Nat.sub_add_cancel h]
    rw [blocks_of_le hB h, ih, hcount, range_succ_eq_map, foldl_cons, foldl_map]
    simp only [mul_zero, drop_zero, drop_drop, mul_succ, add_comm]

lemma blocks_block (hB : 0 < B) {s : σ} {xs : List α} (h : xs.length = B) :
    blocks f B s xs = (f s xs, []) := by
  rw [blocks_of_le hB (by omega), take_of_length_le (by omega),
    drop_of_length_le (by omega), blocks_of_lt (by simpa using hB)]

end OpenHobbyOS.Lib
