/-
# Visiting elements by a rising threshold

A loop that visits the elements of a list in the order of their keys without sorting them: each
round visits the element with the least key that is not below a threshold, and raises the threshold
above it.
-/
import Mathlib.Tactic

namespace OpenHobbyOS.Lib

open List Option

variable {α : Type} (key : α → ℤ)

/-- One step of the search: `next` is the best element so far. -/
def lesser (z : ℤ) (next : Option α) (x : α) : Option α :=
  if key x < z then next else
  match next with
  | none => some x
  | some y => if key x < key y then some x else next

/-- The first element with the least key that is not below `z`. -/
def leastFrom (z : ℤ) (l : List α) : Option α := l.foldl (lesser key z) none

/-- The elements in the order of the visits; `none` when the loop has not ended. -/
def ascending (l : List α) : ℕ → ℤ → Option (List α)
  | 0, _ => none
  | rounds + 1, z =>
    match leastFrom key z l with
    | none => some []
    | some x => (ascending l rounds (key x + 1)).map (x :: ·)

variable {key} {l : List α} {z : ℤ} {x : α}

/-- The search returns what it started with, or an element of the list, and nothing smaller is
left out. -/
lemma foldl_lesser (next : Option α) :
    (l.foldl (lesser key z) next = none ↔ next = none ∧ ∀ y ∈ l, key y < z) ∧
      ∀ x, l.foldl (lesser key z) next = some x →
        (next = some x ∨ x ∈ l ∧ z ≤ key x) ∧ (∀ y, next = some y → key x ≤ key y) ∧
          ∀ y ∈ l, z ≤ key y → key x ≤ key y := by
  induction l generalizing next with
  | nil =>
    simp only [not_mem_nil, false_imp_iff, implies_true, and_true]
    refine ⟨Iff.rfl, fun x hx => ⟨.inl hx, fun y hy => ?_⟩⟩
    rw [foldl_nil, hy, some.injEq] at hx
    exact (congrArg key hx).ge
  | cons a l ih =>
    obtain ⟨hnone, hsome⟩ := ih (lesser key z next a)
    rw [foldl_cons]
    by_cases hlow : key a < z
    · have hstep : lesser key z next a = next := if_pos hlow
      rw [hstep] at hnone hsome ⊢
      refine ⟨?_, fun x hx => ?_⟩
      · rw [hnone, forall_mem_cons]
        exact ⟨fun h => ⟨h.1, hlow, h.2⟩, fun h => ⟨h.1, h.2.2⟩⟩
      · obtain ⟨hx, hnext, hl⟩ := hsome x hx
        refine ⟨hx.imp_right fun h => ⟨mem_cons_of_mem a h.1, h.2⟩, hnext, ?_⟩
        rw [forall_mem_cons]
        exact ⟨fun hge => absurd hlow (not_lt.mpr hge), hl⟩
    -- the element is a candidate, and the better one of the two goes on
    obtain ⟨b, hb, hba, hnextb, hmem⟩ : ∃ b, lesser key z next a = some b ∧ key b ≤ key a ∧
        (∀ y, next = some y → key b ≤ key y) ∧ (b = a ∨ next = some b) := by
      cases next with
      | none =>
        refine ⟨a, if_neg hlow, le_rfl, ?_, .inl rfl⟩
        rintro y ⟨⟩
      | some y =>
        simp only [lesser, if_neg hlow]
        by_cases hlt : key a < key y
        · rw [if_pos hlt]
          refine ⟨a, rfl, le_rfl, ?_, .inl rfl⟩
          rintro y' ⟨⟩
          exact hlt.le
        · rw [if_neg hlt]
          refine ⟨y, rfl, not_lt.mp hlt, ?_, .inr rfl⟩
          rintro y' ⟨⟩
          exact le_rfl
    rw [hb] at hnone hsome ⊢
    refine ⟨?_, fun x hx => ?_⟩
    · refine ⟨fun h => absurd (hnone.mp h).1 (some_ne_none b), fun h => ?_⟩
      exact absurd (h.2 a mem_cons_self) hlow
    · obtain ⟨hx, hle, hl⟩ := hsome x hx
      have hxb : key x ≤ key b := hle b rfl
      refine ⟨?_, fun y hy => hxb.trans (hnextb y hy), ?_⟩
      · rcases hx with hx | hx
        · rw [some.injEq] at hx
          subst hx
          rcases hmem with rfl | hmem
          · exact .inr ⟨mem_cons_self, not_lt.mp hlow⟩
          · exact .inl hmem
        · exact .inr ⟨mem_cons_of_mem a hx.1, hx.2⟩
      · rw [forall_mem_cons]
        exact ⟨fun _ => hxb.trans hba, hl⟩

lemma leastFrom_eq_none : leastFrom key z l = none ↔ ∀ y ∈ l, key y < z := by
  rw [leastFrom, (foldl_lesser none).1]
  exact and_iff_right rfl

lemma leastFrom_eq_some (h : leastFrom key z l = some x) :
    x ∈ l ∧ z ≤ key x ∧ ∀ y ∈ l, z ≤ key y → key x ≤ key y := by
  obtain ⟨hx, -, hl⟩ := (foldl_lesser none).2 x h
  obtain ⟨hmem, hz⟩ := hx.resolve_left (some_ne_none x).symm
  exact ⟨hmem, hz, hl⟩

/-- Above the threshold are the element that is visited and what is above the next threshold. -/
lemma filter_perm_cons (hnodup : (l.map key).Nodup) (hx : x ∈ l) (hz : z ≤ key x)
    (hleast : ∀ y ∈ l, z ≤ key y → key x ≤ key y) :
    (l.filter (z ≤ key ·)).Perm (x :: l.filter (key x + 1 ≤ key ·)) := by
  classical
  have hl : l.Nodup := .of_map key hnodup
  refine (perm_ext_iff_of_nodup (hl.filter _) ?_).mpr fun y => ?_
  · refine nodup_cons.mpr ⟨fun h => ?_, hl.filter _⟩
    have := (mem_filter.mp h).2
    rw [decide_eq_true_eq] at this
    omega
  · rw [mem_cons, mem_filter, mem_filter, decide_eq_true_eq, decide_eq_true_eq]
    constructor
    · rintro ⟨hy, hzy⟩
      by_cases heq : key y = key x
      · exact .inl (inj_on_of_nodup_map hnodup hy hx heq)
      · have := hleast y hy hzy
        exact .inr ⟨hy, by omega⟩
    · rintro (rfl | ⟨hy, hlt⟩)
      · exact ⟨hx, hz⟩
      · exact ⟨hy, by omega⟩

/-- **The order of the visits.**  With different keys the loop ends and visits every element above
the threshold once, in the order of the keys. -/
theorem ascending_spec (hnodup : (l.map key).Nodup) {rounds : ℕ}
    (h : (l.filter (z ≤ key ·)).length < rounds) :
    ∃ order, ascending key l rounds z = some order ∧ order.Pairwise (key · < key ·) ∧
      order.Perm (l.filter (z ≤ key ·)) := by
  -- each round takes one element out of those above the threshold
  induction rounds generalizing z with
  | zero => exact absurd h (Nat.not_lt_zero _)
  | succ rounds ih =>
    rw [ascending]
    cases hleast : leastFrom key z l with
    | none =>
      refine ⟨[], rfl, Pairwise.nil, ?_⟩
      rw [filter_eq_nil_iff.mpr]
      intro y hy
      rw [decide_eq_true_eq]
      exact not_le.mpr (leastFrom_eq_none.mp hleast y hy)
    | some x =>
      obtain ⟨hx, hz, hmin⟩ := leastFrom_eq_some hleast
      have hperm := filter_perm_cons hnodup hx hz hmin
      have hlen := hperm.length_eq
      rw [length_cons] at hlen
      obtain ⟨order, horder, hsorted, hall⟩ := ih (z := key x + 1) (by omega)
      refine ⟨x :: order, ?_, pairwise_cons.mpr ⟨fun y hy => ?_, hsorted⟩, ?_⟩
      · dsimp only
        rw [horder, map_some]
      · have := (mem_filter.mp (hall.subset hy)).2
        rw [decide_eq_true_eq] at this
        omega
      · exact (hall.cons x).trans hperm.symm

end OpenHobbyOS.Lib
