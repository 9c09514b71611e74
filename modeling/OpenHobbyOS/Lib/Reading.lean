/-
# Computations that read a store

A computation that reads a store at addresses it chooses and then gives a value, which depends only
on the addresses it touches (`run_congr`).
-/
import Mathlib.Tactic

namespace OpenHobbyOS.Lib

open List

/-- A computation that reads values of type `β` at addresses of type `ι`. -/
inductive Reading (ι β α : Type) where
  | done (a : α)
  | read (i : ι) (next : β → Reading ι β α)

namespace Reading

variable {ι β α γ : Type}

/-- One computation after another. -/
def bind : Reading ι β α → (α → Reading ι β γ) → Reading ι β γ
  | done a, k => k a
  | read i next, k => read i fun b => (next b).bind k

instance instMonadReading : Monad (Reading ι β) where
  pure := done
  bind := bind

/-- Read one address. -/
def get (i : ι) : Reading ι β β := read i done

/-- The value on a store. -/
def run (f : ι → β) : Reading ι β α → α
  | done a => a
  | read i next => (next (f i)).run f

/-- The addresses that are read on a store. -/
def touched (f : ι → β) : Reading ι β α → List ι
  | done _ => []
  | read i next => i :: (next (f i)).touched f

variable {f g : ι → β}

@[simp] lemma run_pure (a : α) : run f (pure a : Reading ι β α) = a := rfl

@[simp] lemma touched_pure (a : α) : touched f (pure a : Reading ι β α) = [] := rfl

@[simp] lemma run_get (i : ι) : run f (get i) = f i := rfl

@[simp] lemma touched_get (i : ι) : touched f (get i) = [i] := rfl

@[simp] lemma run_bind (m : Reading ι β α) (k : α → Reading ι β γ) :
    run f (m >>= k) = run f (k (run f m)) := by
  show run f (m.bind k) = _
  induction m with
  | done a => rfl
  | read i next ih => exact ih (f i)

@[simp] lemma touched_bind (m : Reading ι β α) (k : α → Reading ι β γ) :
    touched f (m >>= k) = touched f m ++ touched f (k (run f m)) := by
  show touched f (m.bind k) = _
  induction m with
  | done a => rfl
  | read i next ih =>
    show i :: touched f ((next (f i)).bind k) = i :: (_ ++ _)
    rw [ih (f i)]
    rfl

/-- **Locality.**  Stores that agree where the computation reads are not told apart. -/
theorem run_congr {m : Reading ι β α} (h : ∀ i ∈ touched f m, f i = g i) :
    run f m = run g m ∧ touched f m = touched g m := by
  induction m with
  | done a => exact ⟨rfl, rfl⟩
  | read i next ih =>
    have hi : f i = g i := h i mem_cons_self
    obtain ⟨hrun, htouched⟩ := ih (f i) fun j hj => h j (mem_cons_of_mem i hj)
    refine ⟨?_, ?_⟩
    · show run f (next (f i)) = run g (next (g i))
      rw [← hi, hrun]
    · show i :: touched f (next (f i)) = i :: touched g (next (g i))
      rw [← hi, htouched]

/-- Read some addresses. -/
def getAll : List ι → Reading ι β (List β)
  | [] => pure []
  | i :: is => do
    let b ← get i
    let bs ← getAll is
    return b :: bs

@[simp] lemma run_getAll (is : List ι) : run f (getAll is) = is.map f := by
  induction is with
  | nil => rfl
  | cons i is ih => rw [getAll, run_bind, run_bind, run_get, run_pure, ih, map_cons]

@[simp] lemma touched_getAll (is : List ι) : touched f (getAll is) = is := by
  induction is with
  | nil => rfl
  | cons i is ih =>
    rw [getAll, touched_bind, touched_bind, touched_get, touched_pure, append_nil, ih]
    rfl

lemma run_foldlM (body : γ → α → Reading ι β γ) (c : γ) (xs : List α) :
    run f (xs.foldlM body c) = xs.foldl (fun c x => run f (body c x)) c := by
  induction xs generalizing c with
  | nil => rfl
  | cons x xs ih => rw [foldlM_cons, run_bind, ih, foldl_cons]

lemma touched_foldlM {body : γ → α → Reading ι β γ} {t : α → List ι}
    (h : ∀ c x, touched f (body c x) = t x) (c : γ) (xs : List α) :
    touched f (xs.foldlM body c) = xs.flatMap t := by
  induction xs generalizing c with
  | nil => rfl
  | cons x xs ih => rw [foldlM_cons, touched_bind, h, ih, flatMap_cons]

end Reading

end OpenHobbyOS.Lib
