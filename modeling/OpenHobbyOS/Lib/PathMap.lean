/-
# Maps from paths

A partial map from paths, the lists of names on the way from the root, to entries.  A file is put in
in two steps: the directories on its way are made where nothing is (`makeDirs`), and then its entry
takes the place of all that is at the path or below (`graft`).
-/
import Mathlib.Data.List.Infix

namespace OpenHobbyOS.Lib

open List

universe u v

/-- The entries of a namespace by path. -/
abbrev PathMap (α : Type u) (ε : Type v) := List α → Option ε

namespace PathMap

variable {α : Type u} {ε : Type v} [DecidableEq α] {m : PathMap α ε} {dir e x : ε}
  {path ps qs : List α}

/-- The entry takes the place of what is at the path or below. -/
def graft (m : PathMap α ε) (path : List α) (e : ε) : PathMap α ε := fun ps =>
  if ps = path then some e else if path <+: ps then none else m ps

/-- Directories on the way to a path and at it, where nothing is there. -/
def makeDirs (dir : ε) (m : PathMap α ε) (path : List α) : PathMap α ε := fun ps =>
  if ps <+: path ∧ m ps = none then some dir else m ps

/-- A file with the directories on its way. -/
def insert (dir : ε) (m : PathMap α ε) (path : List α) (e : ε) : PathMap α ε :=
  graft (makeDirs dir m path.dropLast) path e

/-- A list of files put in one after the other. -/
def build (dir : ε) (m : PathMap α ε) (files : List (List α × ε)) : PathMap α ε :=
  files.foldl (fun m f => insert dir m f.1 f.2) m

/-! ## Making directories -/

lemma makeDirs_of_ne (h : m ps ≠ none) : makeDirs dir m path ps = m ps := by
  rw [makeDirs, if_neg fun hnone => h hnone.2]

lemma makeDirs_eq_self (h : ∀ ps, ps <+: path → m ps ≠ none) : makeDirs dir m path = m := by
  funext ps
  rw [makeDirs, if_neg fun hnone => h ps hnone.1 hnone.2]

lemma makeDirs_makeDirs (h : ps <+: qs) :
    makeDirs dir (makeDirs dir m ps) qs = makeDirs dir m qs := by
  funext rs
  by_cases hps : rs <+: ps ∧ m rs = none
  · have hmade : makeDirs dir m ps rs = some dir := by rw [makeDirs, if_pos hps]
    rw [makeDirs_of_ne (by simp [hmade]), hmade, makeDirs, if_pos ⟨hps.1.trans h, hps.2⟩]
  · have hsame : makeDirs dir m ps rs = m rs := by rw [makeDirs, if_neg hps]
    show (if rs <+: qs ∧ makeDirs dir m ps rs = none then some dir else makeDirs dir m ps rs) = _
    simp only [hsame]
    rfl

lemma graft_eq_makeDirs {a : α} (hway : ∀ rs, rs <+: ps → m rs ≠ none)
    (hfree : ∀ rs, ps ++ [a] <+: rs → m rs = none) :
    graft m (ps ++ [a]) dir = makeDirs dir m (ps ++ [a]) := by
  funext rs
  rw [graft, makeDirs]
  by_cases heq : rs = ps ++ [a]
  · rw [if_pos heq, if_pos ⟨heq ▸ prefix_rfl, hfree rs (heq ▸ prefix_rfl)⟩]
  rw [if_neg heq]
  by_cases hbelow : ps ++ [a] <+: rs
  · rw [if_pos hbelow, if_neg, hfree rs hbelow]
    rintro ⟨hrs, -⟩
    exact heq (hrs.eq_of_length_le hbelow.length_le)
  · rw [if_neg hbelow, if_neg]
    rintro ⟨hrs, hnone⟩
    rcases prefix_concat_iff.mp hrs with hrs | hrs
    · exact heq hrs
    · exact hway rs hrs hnone

/-! ## Putting files in -/

@[simp] lemma insert_self : insert dir m path e path = some e := by
  rw [insert, graft, if_pos rfl]

lemma insert_of_not_above (h : ¬ path <+: ps) :
    insert dir m path e ps = makeDirs dir m path.dropLast ps := by
  rw [insert, graft, if_neg, if_neg h]
  rintro rfl
  exact h prefix_rfl

lemma insert_of_eq_some (h : ¬ path <+: ps) (hx : m ps = some x) :
    insert dir m path e ps = some x := by
  rw [insert_of_not_above h, makeDirs_of_ne (by simp [hx]), hx]

/-- A place that is free or a directory. -/
def Open (dir : ε) (m : PathMap α ε) (ps : List α) : Prop := m ps = none ∨ m ps = some dir

lemma Open.makeDirs (h : Open dir m ps) : Open dir (makeDirs dir m path) ps := by
  rw [Open, PathMap.makeDirs]
  split_ifs with hmade
  · exact .inr rfl
  · exact h

lemma Open.insert (hopen : Open dir m ps) (h : ¬ path <+: ps) :
    Open dir (insert dir m path e) ps := by
  rw [Open, insert_of_not_above h]
  exact hopen.makeDirs

lemma Open.insert_eq (hopen : Open dir m ps) (h : ps <+: path) (hne : ps ≠ path) :
    PathMap.insert dir m path e ps = some dir := by
  have hnot : ¬ path <+: ps := fun hpath => hne (h.eq_of_length_le hpath.length_le)
  have hdrop : ps <+: path.dropLast := by
    have hnil : path ≠ [] := by
      rintro rfl
      exact hnot nil_prefix
    rw [← dropLast_append_getLast hnil] at h hne
    exact (prefix_concat_iff.mp h).resolve_left hne
  rw [insert_of_not_above hnot]
  rcases hopen with hnone | hdir
  · rw [PathMap.makeDirs, if_pos ⟨hdrop, hnone⟩]
  · rw [makeDirs_of_ne (by simp [hdir]), hdir]

/-! ## Putting in a list of files -/

section Build

variable {files before after : List (List α × ε)} {f : List α × ε}

lemma build_cons : build dir m (f :: files) = build dir (insert dir m f.1 f.2) files := rfl

lemma build_append : build dir m (before ++ after) = build dir (build dir m before) after :=
  foldl_append

lemma build_of_eq_some (h : ∀ g ∈ files, ¬ g.1 <+: ps) (hx : m ps = some x) :
    build dir m files ps = some x := by
  induction files generalizing m with
  | nil => exact hx
  | cons g files ih =>
    rw [build_cons]
    exact ih (fun g' hg' => h g' (.tail _ hg'))
      (insert_of_eq_some (h g mem_cons_self) hx)

lemma Open.build (h : ∀ g ∈ files, ¬ g.1 <+: ps) (hopen : Open dir m ps) :
    Open dir (build dir m files) ps := by
  induction files generalizing m with
  | nil => exact hopen
  | cons g files ih =>
    rw [build_cons]
    exact ih (fun g' hg' => h g' (.tail _ hg')) (hopen.insert (h g mem_cons_self))

/-- **A file is found at its path** unless a later one lies at or above it. -/
theorem build_file (h : ∀ g ∈ after, ¬ g.1 <+: f.1) :
    build dir m (before ++ f :: after) f.1 = some f.2 := by
  rw [build_append, build_cons]
  exact build_of_eq_some h insert_self

/-- **On the way to a file lie directories**, where no file lies at or above them. -/
theorem build_dir (hopen : Open dir m ps) (hf : f ∈ files) (hps : ps <+: f.1) (hne : ps ≠ f.1)
    (h : ∀ g ∈ files, ¬ g.1 <+: ps) : PathMap.build dir m files ps = some dir := by
  obtain ⟨before, after, rfl⟩ := append_of_mem hf
  have hbefore : Open dir (PathMap.build dir m before) ps :=
    hopen.build fun g hg => h g (mem_append_left _ hg)
  rw [build_append, build_cons]
  exact build_of_eq_some (fun g hg => h g (mem_append_right _ (.tail _ hg)))
    (hbefore.insert_eq hps hne)

end Build

end PathMap

end OpenHobbyOS.Lib
