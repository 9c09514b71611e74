/-
# Tilings of an interval

A list of segments that lie end to end and cover an interval exactly.
-/
import Mathlib.Tactic

namespace OpenHobbyOS.Lib

open List

universe u

variable {α : Type u} {start stop : α → ℕ} {a b c : ℕ} {x y : α} {l l' : List α}

/-- The `n` bytes from `lo` on and the `n'` bytes from `lo'` on are apart. -/
def Apart (lo n lo' n' : ℕ) : Prop := lo + n ≤ lo' ∨ lo' + n' ≤ lo ∨ n = 0 ∨ n' = 0

instance (lo n lo' n' : ℕ) : Decidable (Apart lo n lo' n') := by unfold Apart; infer_instance

/-- Non-empty segments end to end from `a` to `b`. -/
def Tiles (start stop : α → ℕ) : ℕ → ℕ → List α → Prop
  | a, b, [] => a = b
  | a, b, x :: l => start x = a ∧ a < stop x ∧ Tiles start stop (stop x) b l

@[simp] lemma tiles_nil : Tiles start stop a b [] ↔ a = b := Iff.rfl

@[simp] lemma tiles_cons :
    Tiles start stop a b (x :: l) ↔
      start x = a ∧ a < stop x ∧ Tiles start stop (stop x) b l := Iff.rfl

lemma tiles_append :
    Tiles start stop a c (l ++ l') ↔ ∃ b, Tiles start stop a b l ∧ Tiles start stop b c l' := by
  induction l generalizing a with
  | nil => simp
  | cons x l ih =>
    rw [cons_append, tiles_cons, ih]
    constructor
    · rintro ⟨hx, hlt, b, hl, hl'⟩
      exact ⟨b, ⟨hx, hlt, hl⟩, hl'⟩
    · rintro ⟨b, ⟨hx, hlt, hl⟩, hl'⟩
      exact ⟨hx, hlt, b, hl, hl'⟩

namespace Tiles

lemma le (h : Tiles start stop a b l) : a ≤ b := by
  induction l generalizing a with
  | nil => exact h.le
  | cons x l ih => exact h.2.1.le.trans (ih h.2.2)

lemma mem (h : Tiles start stop a b l) (hx : x ∈ l) :
    a ≤ start x ∧ start x < stop x ∧ stop x ≤ b := by
  induction l generalizing a with
  | nil => simp at hx
  | cons y l ih =>
    obtain ⟨hy, hlt, hrest⟩ := h
    rcases mem_cons.mp hx with rfl | hx
    · exact ⟨hy.ge, hy ▸ hlt, hrest.le⟩
    · obtain ⟨h1, h2, h3⟩ := ih hrest hx
      exact ⟨hlt.le.trans h1, h2, h3⟩

lemma pairwise (h : Tiles start stop a b l) : l.Pairwise fun x y => stop x ≤ start y := by
  induction l generalizing a with
  | nil => exact List.Pairwise.nil
  | cons x l ih =>
    exact List.Pairwise.cons (fun y hy => (h.2.2.mem hy).1) (ih h.2.2)

lemma apart (h : l.Pairwise fun x y => stop x ≤ start y) (hx : x ∈ l) (hy : y ∈ l) :
    x = y ∨ stop x ≤ start y ∨ stop y ≤ start x := by
  by_cases hxy : x = y
  · exact .inl hxy
  · have : Std.Symm fun x y : α => stop x ≤ start y ∨ stop y ≤ start x := ⟨fun _ _ => Or.symm⟩
    have h' : l.Pairwise fun x y => stop x ≤ start y ∨ stop y ≤ start x := h.imp .inl
    exact .inr (h'.forall hx hy hxy)

lemma replace (h : Tiles start stop a b (l ++ x :: l'))
    {m : List α} (hm : Tiles start stop (start x) (stop x) m) :
    Tiles start stop a b (l ++ (m ++ l')) := by
  obtain ⟨c, hl, hx, -, hl'⟩ := tiles_append.mp h
  exact tiles_append.mpr ⟨c, hl, tiles_append.mpr ⟨stop x, hx ▸ hm, hl'⟩⟩

lemma map {f : α → α} (hstart : ∀ x ∈ l, start (f x) = start x)
    (hstop : ∀ x ∈ l, stop (f x) = stop x) (h : Tiles start stop a b l) :
    Tiles start stop a b (l.map f) := by
  induction l generalizing a with
  | nil => exact h
  | cons x l ih =>
    obtain ⟨hx, hlt, hrest⟩ := h
    rw [map_cons, tiles_cons, hstart x (by simp), hstop x (by simp)]
    exact ⟨hx, hlt, ih (fun y hy => hstart y (by simp [hy])) (fun y hy => hstop y (by simp [hy]))
      hrest⟩

end Tiles

end OpenHobbyOS.Lib
