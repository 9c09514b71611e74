/-
# Fetching one item after the other

A reader goes from state to state; a step gives an item, or passes over something, or the sequence
ends.  `fetch` and `fetchAll` take fuel; `Yields` says which items there are, and that there is an
end, without fuel.
-/
import Mathlib.Tactic

namespace OpenHobbyOS.Lib

open Option

universe u v

variable {σ : Type u} {ε : Type v} {step : σ → Option (Option ε × σ)} {s s' : σ} {es : List ε}

/-- The next item and the state behind it, or nothing at the end. -/
def fetch (step : σ → Option (Option ε × σ)) : ℕ → σ → Option (Option (ε × σ))
  | 0, _ => none
  | fuel + 1, s =>
    match step s with
    | none => some none
    | some (some e, s') => some (some (e, s'))
    | some (none, s') => fetch step fuel s'

/-- All items up to the end. -/
def fetchAll (step : σ → Option (Option ε × σ)) : ℕ → σ → Option (List ε)
  | 0, _ => none
  | fuel + 1, s =>
    match fetch step (fuel + 1) s with
    | none => none
    | some none => some []
    | some (some (e, s')) => (fetchAll step fuel s').map (e :: ·)

lemma fetchAll_succ (step : σ → Option (Option ε × σ)) (fuel : ℕ) (s : σ) :
    fetchAll step (fuel + 1) s = (fetch step (fuel + 1) s).bind fun next =>
      next.elim (some []) fun next => (fetchAll step fuel next.2).map (next.1 :: ·) := by
  rw [fetchAll]
  rcases fetch step (fuel + 1) s with _ | _ | ⟨e, s'⟩ <;> rfl

/-- The items from a state on, up to the end. -/
inductive Yields (step : σ → Option (Option ε × σ)) : σ → List ε → Prop
  | stop {s : σ} (h : step s = none) : Yields step s []
  | pass {s s' : σ} {es : List ε} (h : step s = some (none, s')) (rest : Yields step s' es) :
      Yields step s es
  | give {s s' : σ} {e : ε} {es : List ε} (h : step s = some (some e, s'))
      (rest : Yields step s' es) : Yields step s (e :: es)

lemma fetch_mono {fuel : ℕ} {r : Option (ε × σ)} (h : fetch step fuel s = some r) :
    fetch step (fuel + 1) s = some r := by
  induction fuel generalizing s with
  | zero => cases h
  | succ fuel ih =>
    rw [fetch] at h ⊢
    rcases hstep : step s with _ | ⟨_ | e, s'⟩
    · rwa [hstep] at h
    · simp only [hstep] at h ⊢
      exact ih h
    · rwa [hstep] at h

lemma fetchAll_mono {fuel : ℕ} (h : fetchAll step fuel s = some es) :
    fetchAll step (fuel + 1) s = some es := by
  induction fuel generalizing s es with
  | zero => cases h
  | succ fuel ih =>
    rw [fetchAll_succ] at h
    obtain ⟨next, hnext, h⟩ := bind_eq_some_iff.mp h
    rw [fetchAll_succ, fetch_mono hnext, bind_some]
    cases next with
    | none => exact h
    | some next =>
      obtain ⟨rest, hrest, rfl⟩ := map_eq_some_iff.mp h
      rw [elim_some, ih hrest, map_some]

lemma fetchAll_pass {fuel : ℕ} (h : step s = some (none, s'))
    (hrest : fetchAll step (fuel + 1) s' = some es) : fetchAll step (fuel + 2) s = some es := by
  have hfetch : fetch step (fuel + 1 + 1) s = fetch step (fuel + 1) s' := by
    rw [fetch, h]
  rw [fetchAll_succ] at hrest
  obtain ⟨next, hnext, hrest⟩ := bind_eq_some_iff.mp hrest
  rw [fetchAll_succ, hfetch, hnext, bind_some]
  cases next with
  | none => exact hrest
  | some next =>
    obtain ⟨rest, htail, rfl⟩ := map_eq_some_iff.mp hrest
    rw [elim_some, fetchAll_mono htail, map_some]

/-- With enough fuel the items are fetched. -/
theorem Yields.fetchAll (h : Yields step s es) :
    ∃ n, ∀ fuel ≥ n, fetchAll step fuel s = some es := by
  induction h with
  | @stop s h =>
    refine ⟨1, fun fuel hfuel => ?_⟩
    obtain ⟨k, rfl⟩ : ∃ k, fuel = k + 1 := ⟨fuel - 1, by omega⟩
    rw [Lib.fetchAll, fetch, h]
  | @pass s s' es h rest ih =>
    obtain ⟨n, hn⟩ := ih
    refine ⟨n + 2, fun fuel hfuel => ?_⟩
    obtain ⟨k, rfl⟩ : ∃ k, fuel = k + 2 := ⟨fuel - 2, by omega⟩
    exact fetchAll_pass h (hn (k + 1) (by omega))
  | @give s s' e es h rest ih =>
    obtain ⟨n, hn⟩ := ih
    refine ⟨n + 1, fun fuel hfuel => ?_⟩
    obtain ⟨k, rfl⟩ : ∃ k, fuel = k + 1 := ⟨fuel - 1, by omega⟩
    rw [Lib.fetchAll, fetch, h]
    dsimp only
    rw [hn k (by omega), map_some]

end OpenHobbyOS.Lib
