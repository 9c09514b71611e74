/-
# Runs of a partial step function

A step function says what an input does to a state, or that it is impossible there; a run is its
fold over a list of inputs.  A property that every step keeps, or every step that meets a condition,
holds at the end of every run, or of every run whose steps meet it.
-/
import Mathlib.Tactic

namespace OpenHobbyOS.Lib

open List Option

universe u v

variable {σ : Type u} {ι : Type v} {step : σ → ι → Option σ} {s s' : σ} {is : List ι}

/-- The state after a list of inputs, if every one of them is possible. -/
def run (step : σ → ι → Option σ) (s : σ) (is : List ι) : Option σ := is.foldlM step s

@[simp] lemma run_nil : run step s [] = some s := rfl

lemma run_cons {i : ι} : run step s (i :: is) = (step s i).bind fun s₁ => run step s₁ is := rfl

lemma run_cons_eq_some {i : ι} :
    run step s (i :: is) = some s' ↔ ∃ s₁, step s i = some s₁ ∧ run step s₁ is = some s' := by
  rw [run_cons, bind_eq_some_iff]

lemma run_cons_of_eq {i : ι} {s₁ : σ} (h : step s i = some s₁) :
    run step s (i :: is) = run step s₁ is := by
  rw [run_cons, h, bind_some]

lemma run_append {is' : List ι} :
    run step s (is ++ is') = (run step s is).bind fun s₁ => run step s₁ is' := by
  simp [run, foldlM_append]

/-- Every step of the run from `s` meets the condition `C`. -/
def StepsMeet (step : σ → ι → Option σ) (C : σ → ι → Prop) : σ → List ι → Prop
  | _, [] => True
  | s, i :: is => C s i ∧ ∀ s₁, step s i = some s₁ → StepsMeet step C s₁ is

lemma stepsMeet_cons {C : σ → ι → Prop} {i : ι} {s₁ : σ} (hstep : step s i = some s₁)
    (hc : C s i) (hrest : StepsMeet step C s₁ is) : StepsMeet step C s (i :: is) := by
  refine ⟨hc, fun s₂ hs₂ => ?_⟩
  rw [hstep, some.injEq] at hs₂
  exact hs₂ ▸ hrest

instance decidableStepsMeet {C : σ → ι → Prop} [∀ s i, Decidable (C s i)] :
    ∀ s is, Decidable (StepsMeet step C s is)
  | _, [] => isTrue trivial
  | s, i :: is =>
    have rest : Decidable (∀ s₁, step s i = some s₁ → StepsMeet step C s₁ is) :=
      match hstep : step s i with
      | none => isTrue (by simp)
      | some s₁ =>
        have := decidableStepsMeet (C := C) s₁ is
        decidable_of_iff (StepsMeet step C s₁ is) (by simp)
    inferInstanceAs (Decidable (_ ∧ _))

/-- **Invariant rule.**  What every step that meets `C` keeps, every run of such steps
keeps. -/
theorem run_invariant_of_meet {C : σ → ι → Prop} {P : σ → Prop}
    (hstep : ∀ {s i s'}, P s → C s i → step s i = some s' → P s')
    (hs : P s) (hmeet : StepsMeet step C s is) (hrun : run step s is = some s') : P s' := by
  induction is generalizing s with
  | nil =>
    rw [run_nil, some.injEq] at hrun
    exact hrun ▸ hs
  | cons i is ih =>
    obtain ⟨s₁, hfirst, hrest⟩ := run_cons_eq_some.mp hrun
    exact ih (hstep hs hmeet.1 hfirst) (hmeet.2 s₁ hfirst) hrest

/-- A condition that follows from another one along every run. -/
theorem stepsMeet_imp {C D : σ → ι → Prop} {P : σ → Prop}
    (hstep : ∀ {s i s'}, P s → C s i → step s i = some s' → P s')
    (himp : ∀ {s i}, P s → C s i → D s i) (hs : P s) (hmeet : StepsMeet step C s is) :
    StepsMeet step D s is := by
  induction is generalizing s with
  | nil => trivial
  | cons i is ih =>
    exact ⟨himp hs hmeet.1, fun s₁ hfirst => ih (hstep hs hmeet.1 hfirst) (hmeet.2 s₁ hfirst)⟩

/-- **The condition a property needs.**  Let the steps that meet `C` keep `P`, which implies `Q`.
If from `P` a step leads to `Q` exactly under `C`, every state of the run has `Q` exactly if every
step meets `C`. -/
theorem forall_prefix_iff_stepsMeet {C : σ → ι → Prop} {P Q : σ → Prop}
    (hkeep : ∀ {s i s'}, P s → C s i → step s i = some s' → P s') (hPQ : ∀ {s}, P s → Q s)
    (hneed : ∀ {s i}, P s → (∀ s', step s i = some s' → Q s') → C s i) (hs : P s) :
    (∀ is₁, is₁ <+: is → ∀ s', run step s is₁ = some s' → Q s') ↔ StepsMeet step C s is := by
  induction is generalizing s with
  | nil =>
    refine ⟨fun _ => trivial, fun _ is₁ hpre s' hrun => ?_⟩
    rw [prefix_nil.mp hpre, run_nil, some.injEq] at hrun
    exact hrun ▸ hPQ hs
  | cons i is ih =>
    constructor
    · intro h
      have hc : C s i := hneed hs fun s₁ hs₁ =>
        h [i] ((prefix_cons_inj i).mpr is.nil_prefix) s₁
          (run_cons_eq_some.mpr ⟨s₁, hs₁, run_nil⟩)
      refine ⟨hc, fun s₁ hs₁ => (ih (hkeep hs hc hs₁)).mp fun is₁ hpre s' hrun => ?_⟩
      exact h (i :: is₁) ((prefix_cons_inj i).mpr hpre) s'
        (run_cons_eq_some.mpr ⟨s₁, hs₁, hrun⟩)
    · rintro ⟨hc, hrest⟩ is₁ hpre s' hrun
      rcases prefix_cons_iff.mp hpre with rfl | ⟨is₂, rfl, htail⟩
      · rw [run_nil, some.injEq] at hrun
        exact hrun ▸ hPQ hs
      · obtain ⟨s₁, hs₁, hrun⟩ := run_cons_eq_some.mp hrun
        exact (ih (hkeep hs hc hs₁)).mpr (hrest s₁ hs₁) is₂ htail s' hrun

/-- A condition that the inputs meet in every state. -/
theorem stepsMeet_of_mem {C : σ → ι → Prop} (h : ∀ s, ∀ i ∈ is, C s i) (s : σ) :
    StepsMeet step C s is := by
  induction is generalizing s with
  | nil => trivial
  | cons i is ih =>
    exact ⟨h s i mem_cons_self, fun s₁ _ => ih (fun s j hj => h s j (.tail i hj)) s₁⟩

/-- **Invariant rule**, for a property that every step keeps. -/
theorem run_invariant {P : σ → Prop} (hstep : ∀ {s i s'}, P s → step s i = some s' → P s')
    (hs : P s) (hrun : run step s is = some s') : P s' :=
  run_invariant_of_meet (C := fun _ _ => True) (fun hp _ h => hstep hp h) hs
    (stepsMeet_of_mem (fun _ _ _ => trivial) s) hrun

end OpenHobbyOS.Lib
