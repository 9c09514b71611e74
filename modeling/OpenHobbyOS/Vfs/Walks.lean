/-
# Walks and changes of the file tree

What the functions of `src/vfs.c` can do to the tree, said once.  Those that make nodes walk their
path with the same loop (`descend_rule`); a new node is put below an existing one by `attach`,
everything else leaves the tree as it is up to cached paths and link counts (`SameTree`).
-/
import OpenHobbyOS.Vfs.Tree

namespace OpenHobbyOS.Vfs

open Lib Paging List Option Nat

variable {v w : Vfs} {p n c : NodeId} {nd : VfsNode} {r : RamfileId}
variable {segs : List Segment} {target : Option (NodeId × List U8)} {name : List U8}

/-! ## Walks -/

/-- A step of a walk that makes directories. -/
lemma descend_cons {seg : Segment} {rest : List Segment}
    (hd : v.descend p (seg :: rest) = some (w, target)) :
    seg.name.length < vfsNameMax ∧
      (seg.last = true ∧ w = v ∧ target = some (p, seg.name) ∨
        seg.last = false ∧ (v.findOrCreateDirectory p seg.name).1.descend
          (v.findOrCreateDirectory p seg.name).2 rest = some (w, target)) := by
  rw [descend] at hd
  split_ifs at hd with hlong hlast
  · rw [some.injEq, Prod.mk.injEq] at hd
    exact ⟨Nat.lt_of_not_le hlong, .inl ⟨hlast, hd.1.symm, hd.2.symm⟩⟩
  · exact ⟨Nat.lt_of_not_le hlong, .inr ⟨Bool.not_eq_true _ ▸ hlast, hd⟩⟩

/-- A step of a lookup that finds a node. -/
lemma resolveFrom_cons {seg : Segment} {rest : List Segment}
    (hr : v.resolveFrom p (seg :: rest) = some (some n)) :
    seg.name.length < vfsNameMax ∧
      (seg.name = dot ∧ v.resolveFrom p rest = some (some n) ∨
        seg.name ≠ dot ∧ seg.name = dotdot ∧
          v.resolveFrom ((v.node p).parent.getD p) rest = some (some n) ∨
        seg.name ≠ dot ∧ seg.name ≠ dotdot ∧
          ∃ c, v.findChild p seg.name = some c ∧ v.resolveFrom c rest = some (some n)) := by
  rw [resolveFrom] at hr
  split_ifs at hr with hlong hdot hdotdot
  · exact ⟨Nat.lt_of_not_le hlong, .inl ⟨hdot, hr⟩⟩
  · exact ⟨Nat.lt_of_not_le hlong, .inr (.inl ⟨hdot, hdotdot, hr⟩)⟩
  · cases hc : v.findChild p seg.name with
    | none => simp [hc] at hr
    | some c =>
      rw [hc] at hr
      exact ⟨Nat.lt_of_not_le hlong, .inr (.inr ⟨hdot, hdotdot, c, rfl, hr⟩)⟩

/-- What each step of a walk that makes directories keeps holds where it ends. -/
theorem descend_rule {I : Vfs → NodeId → List Segment → Prop}
    (hfound : ∀ {v p seg rest c}, I v p (seg :: rest) → seg.last = false →
      v.findChild p seg.name = some c → I v c rest)
    (hmade : ∀ {v p seg rest}, I v p (seg :: rest) → seg.last = false →
      seg.name.length < vfsNameMax → v.findChild p seg.name = none →
      I (v.attach p (newNode seg.name true)) v.size rest)
    (h : I v p segs) (hd : v.descend p segs = some (w, target)) :
    (target = none ∧ ∃ p', I w p' []) ∨
      ∃ p' seg rest, target = some (p', seg.name) ∧ seg.last = true ∧
        seg.name.length < vfsNameMax ∧ I w p' (seg :: rest) := by
  induction segs generalizing v p with
  | nil =>
    rw [descend, some.injEq, Prod.mk.injEq] at hd
    obtain ⟨rfl, rfl⟩ := hd
    exact .inl ⟨rfl, p, h⟩
  | cons seg rest ih =>
    obtain ⟨hfit, ⟨hlast, rfl, rfl⟩ | ⟨hlast, hd⟩⟩ := descend_cons hd
    · exact .inr ⟨p, seg, rest, rfl, hlast, hfit, h⟩
    · cases hfind : v.findChild p seg.name with
      | some c =>
        rw [findOrCreateDirectory, hfind] at hd
        exact ih (hfound h hlast hfind) hd
      | none =>
        rw [findOrCreateDirectory, hfind] at hd
        exact ih (hmade h hlast hfit hfind) hd

/-- The rule for a statement about the tree alone. -/
theorem descend_keeps {P : Vfs → Prop} (hd : v.descend p segs = some (w, target)) (h : P v)
    (hmade : ∀ {u q} name, P u → P (u.attach q (newNode name true))) : P w := by
  have hrule := descend_rule (I := fun u _ _ => P u) (fun h _ _ => h)
    (fun h _ _ _ => hmade _ h) h hd
  rcases hrule with ⟨-, -, hw⟩ | ⟨-, -, -, -, -, -, hw⟩ <;> exact hw

lemma descend_size (hd : v.descend p segs = some (w, target)) : v.size ≤ w.size :=
  descend_keeps (P := fun u => v.size ≤ u.size) hd le_rfl fun _ h => h.trans (le_succ _)

lemma descend_ne_some (h : ∀ seg ∈ segs, seg.last = false)
    (hd : v.descend p segs = some (w, target)) (q : NodeId) (name : List U8) :
    target ≠ some (q, name) := by
  have hrule := descend_rule (I := fun _ _ segs => ∀ seg ∈ segs, seg.last = false)
    (fun h _ _ seg hseg => h seg (.tail _ hseg)) (fun h _ _ _ seg hseg => h seg (.tail _ hseg)) h hd
  rcases hrule with ⟨rfl, -⟩ | ⟨-, seg, rest, -, hlast, -, hI⟩
  · simp
  · exact absurd hlast (by simp [hI seg mem_cons_self])

lemma descend_flags (hd : v.descend p segs = some (w, target)) :
    w.mounted = v.mounted ∧ w.hasExt2Root = v.hasExt2Root :=
  descend_keeps (P := fun u => u.mounted = v.mounted ∧ u.hasExt2Root = v.hasExt2Root) hd
    ⟨rfl, rfl⟩ fun _ h => h

/-- An absolute path, and any path without a working directory, is looked up from the
root. -/
lemma resolve_none (h : v.mounted = true) (path : List U8) :
    v.resolve none path = v.resolveFrom rootNode (segmentsOf path) := by
  rw [resolve, h, if_neg (by simp)]
  by_cases hroot : path = [slash]
  · subst hroot
    rfl
  · simp [hroot]

lemma resolveRamfile_eq_some {path : List U8} (h : v.resolveRamfile path = some (some r)) :
    ∃ n, v.resolve none path = some (some n) ∧ (v.node n).ramfile = some r := by
  obtain ⟨found, hfound, hr⟩ := map_eq_some_iff.mp h
  obtain ⟨n, rfl, hn⟩ := bind_eq_some_iff.mp hr
  exact ⟨n, hfound, hn⟩

lemma findChild_eq_some (h : v.findChild p name = some c) :
    c ∈ (v.node p).children ∧ (v.node c).name = name := by
  have hpred := find?_some h
  exact ⟨mem_of_find?_eq_some h, of_decide_eq_true hpred⟩

lemma findChild_eq_none :
    v.findChild p name = none ↔ ∀ c ∈ (v.node p).children, (v.node c).name ≠ name := by
  simp [findChild, find?_eq_none]

lemma newNode_name (h : name.length < vfsNameMax) (isDir : Bool) :
    (newNode name isDir).name = name :=
  take_of_length_le (le_sub_one_of_lt h)

/-! ## Changes that keep the shape -/

/-- The node without its cached path. -/
def uncached (nd : VfsNode) : VfsNode := { nd with path := [] }

/-- The trees differ in the ramfiles' data and in cached paths at most. -/
structure SameTree (v w : Vfs) : Prop where
  size_eq : w.size = v.size
  node_eq : ∀ n, uncached (w.node n) = uncached (v.node n)
  path_eq : ∀ n, (w.node n).path = (v.node n).path ∨ (w.node n).path = v.buildPath v.size n
  mounted_eq : w.mounted = v.mounted
  ext2_eq : w.hasExt2Root = v.hasExt2Root

namespace SameTree

section

variable (h : SameTree v w)

include h

lemma name_eq (n : NodeId) : (w.node n).name = (v.node n).name :=
  show (uncached (w.node n)).name = (uncached (v.node n)).name by rw [h.node_eq]

lemma isDir_eq (n : NodeId) : (w.node n).isDir = (v.node n).isDir :=
  show (uncached (w.node n)).isDir = (uncached (v.node n)).isDir by rw [h.node_eq]

lemma ramfile_eq (n : NodeId) : (w.node n).ramfile = (v.node n).ramfile :=
  show (uncached (w.node n)).ramfile = (uncached (v.node n)).ramfile by rw [h.node_eq]

lemma parent_eq (n : NodeId) : (w.node n).parent = (v.node n).parent :=
  show (uncached (w.node n)).parent = (uncached (v.node n)).parent by rw [h.node_eq]

lemma children_eq (n : NodeId) : (w.node n).children = (v.node n).children :=
  show (uncached (w.node n)).children = (uncached (v.node n)).children by rw [h.node_eq]

lemma buildPath_eq (fuel : ℕ) (n : NodeId) : w.buildPath fuel n = v.buildPath fuel n := by
  induction fuel generalizing n with
  | zero => rfl
  | succ fuel ih => simp only [buildPath, h.parent_eq, h.name_eq, ih]

lemma findChild_eq (n : NodeId) (name : List U8) : w.findChild n name = v.findChild n name := by
  simp only [findChild, h.children_eq, h.name_eq]

lemma resolveFrom_eq (n : NodeId) (segs : List Segment) :
    w.resolveFrom n segs = v.resolveFrom n segs := by
  induction segs generalizing n with
  | nil => rfl
  | cons seg rest ih => simp only [resolveFrom, h.findChild_eq, h.parent_eq, ih]

lemma resolve_eq (cwd : Option NodeId) (path : List U8) : w.resolve cwd path = v.resolve cwd path := by
  simp only [resolve, h.resolveFrom_eq, h.mounted_eq]

end

lemma refl (v : Vfs) : SameTree v v := ⟨rfl, fun _ => rfl, fun _ => .inl rfl, rfl, rfl⟩

lemma trans {u : Vfs} (h : SameTree v w) (h' : SameTree w u) : SameTree v u where
  size_eq := h'.size_eq.trans h.size_eq
  node_eq n := (h'.node_eq n).trans (h.node_eq n)
  path_eq n := by
    rcases h'.path_eq n with h₁ | h₁
    · rw [h₁]
      exact h.path_eq n
    · rw [h₁, h.buildPath_eq, h.size_eq]
      exact .inr rfl
  mounted_eq := h'.mounted_eq.trans h.mounted_eq
  ext2_eq := h'.ext2_eq.trans h.ext2_eq

lemma cachePath (v : Vfs) (n : NodeId) : SameTree v (v.cachePath n) := by
  refine ⟨rfl, fun m => ?_, fun m => ?_, rfl, rfl⟩ <;> rw [Vfs.cachePath, node_updNode]
  · split_ifs with h
    · rw [h]
      rfl
    · rfl
  · split_ifs with h
    · exact .inr (by rw [h])
    · exact .inl rfl

lemma updRamfile (v : Vfs) (r : RamfileId) (f : Ramfile → Ramfile) :
    SameTree v (v.updRamfile r f) := ⟨rfl, fun _ => rfl, fun _ => .inl rfl, rfl, rfl⟩

lemma newRamfile (v : Vfs) : SameTree v v.newRamfile :=
  ⟨rfl, fun _ => rfl, fun _ => .inl rfl, rfl, rfl⟩

end SameTree

/-! ## Growing trees -/

/-- A node without its children and its cached path. -/
def own (nd : VfsNode) : VfsNode := { nd with path := [], children := [] }

/-- The second tree has all nodes of the first, with more children perhaps. -/
structure Grows (v w : Vfs) : Prop where
  size_le : v.size ≤ w.size
  own_eq : ∀ n, n < v.size → own (w.node n) = own (v.node n)

namespace Grows

variable {u : Vfs}

lemma refl (v : Vfs) : Grows v v := ⟨le_rfl, fun _ _ => rfl⟩

lemma trans (h : Grows v w) (h' : Grows w u) : Grows v u :=
  ⟨h.size_le.trans h'.size_le, fun n hn =>
    (h'.own_eq n (hn.trans_le h.size_le)).trans (h.own_eq n hn)⟩

lemma of_sameTree (h : SameTree v w) : Grows v w :=
  ⟨h.size_eq.ge, fun n _ => show own (uncached (w.node n)) = own (uncached (v.node n)) by
    rw [h.node_eq]⟩

lemma attach (hp : p < v.size) : Grows v (v.attach p nd) := by
  refine ⟨le_succ _, fun n hn => ?_⟩
  by_cases hnp : n = p
  · rw [hnp, node_attach_parent _ hp]
    rfl
  · rw [node_attach_of_ne _ hp hnp hn.ne]

variable (h : Grows v w) (hn : n < v.size)

include h hn

lemma name_eq : (w.node n).name = (v.node n).name :=
  show (own (w.node n)).name = (own (v.node n)).name by rw [h.own_eq n hn]

lemma parent_eq : (w.node n).parent = (v.node n).parent :=
  show (own (w.node n)).parent = (own (v.node n)).parent by rw [h.own_eq n hn]

lemma isDir_eq : (w.node n).isDir = (v.node n).isDir :=
  show (own (w.node n)).isDir = (own (v.node n)).isDir by rw [h.own_eq n hn]

lemma ramfile_eq : (w.node n).ramfile = (v.node n).ramfile :=
  show (own (w.node n)).ramfile = (own (v.node n)).ramfile by rw [h.own_eq n hn]

end Grows

/-! ## Trees -/

/-- Parent pointers and child lists agree, and the parent of every node but the root is older. -/
structure IsTree (v : Vfs) : Prop where
  root_lt : rootNode < v.size
  root_parent : (v.node rootNode).parent = none
  children_nodup : ∀ {p}, p < v.size → (v.node p).children.Nodup
  children_lt : ∀ {p c}, p < v.size → c ∈ (v.node p).children → c < v.size
  mem_children : ∀ {p c}, p < v.size → c < v.size →
    (c ∈ (v.node p).children ↔ (v.node c).parent = some p)
  has_parent : ∀ {n}, n < v.size → n ≠ rootNode → ∃ p < n, (v.node n).parent = some p

namespace IsTree

lemma parent_eq (h : IsTree v) (hp : p < v.size) (hc : c ∈ (v.node p).children) :
    (v.node c).parent = some p :=
  (h.mem_children hp (h.children_lt hp hc)).mp hc

lemma parent_lt (h : IsTree v) (hn : n < v.size) (hp : (v.node n).parent = some p) : p < n := by
  have hroot : n ≠ rootNode := by
    rintro rfl
    rw [h.root_parent] at hp
    exact absurd hp (by simp)
  obtain ⟨q, hlt, hq⟩ := h.has_parent hn hroot
  rw [hp, some.injEq] at hq
  exact hq ▸ hlt

lemma findChild_lt (h : IsTree v) (hp : p < v.size) {name : List U8}
    (hc : v.findChild p name = some c) : c < v.size :=
  h.children_lt hp (findChild_eq_some hc).1

lemma resolveFrom_lt (h : IsTree v) (hp : p < v.size) {segs : List Segment}
    (hr : v.resolveFrom p segs = some (some n)) : n < v.size := by
  induction segs generalizing p with
  | nil =>
    rw [resolveFrom, some.injEq, some.injEq] at hr
    exact hr ▸ hp
  | cons seg rest ih =>
    obtain ⟨-, ⟨-, hr⟩ | ⟨-, -, hr⟩ | ⟨-, -, c, hc, hr⟩⟩ := resolveFrom_cons hr
    · exact ih hp hr
    · refine ih ?_ hr
      cases hparent : (v.node p).parent with
      | none => exact hp
      | some q => exact (h.parent_lt hp hparent).trans hp
    · exact ih (h.findChild_lt hp hc) hr

lemma resolve_lt (h : IsTree v) {cwd : Option NodeId} (hcwd : ∀ b, cwd = some b → b < v.size)
    {path : List U8} (hr : v.resolve cwd path = some (some n)) : n < v.size := by
  rw [resolve] at hr
  by_cases hm : (!v.mounted) = true
  · rw [if_pos hm] at hr
    exact absurd hr (by simp)
  rw [if_neg hm] at hr
  by_cases hslash : path = [slash]
  · simp only [if_pos hslash, some.injEq] at hr
    exact hr ▸ h.root_lt
  · simp only [if_neg hslash] at hr
    refine h.resolveFrom_lt ?_ hr
    split_ifs
    · exact h.root_lt
    · cases cwd with
      | none => exact h.root_lt
      | some b => exact hcwd b rfl

lemma congr (h : IsTree v) (hs : SameTree v w) : IsTree w where
  root_lt := hs.size_eq ▸ h.root_lt
  root_parent := (hs.parent_eq _).trans h.root_parent
  children_nodup hp := by
    rw [hs.children_eq]
    exact h.children_nodup (hs.size_eq ▸ hp)
  children_lt hp hc := by
    rw [hs.children_eq] at hc
    exact hs.size_eq ▸ h.children_lt (hs.size_eq ▸ hp) hc
  mem_children hp hc := by
    rw [hs.children_eq, hs.parent_eq]
    exact h.mem_children (hs.size_eq ▸ hp) (hs.size_eq ▸ hc)
  has_parent hn hroot := by
    rw [hs.parent_eq]
    exact h.has_parent (hs.size_eq ▸ hn) hroot

lemma parent_attach (hp : p < v.size) (n : NodeId) :
    ((v.attach p nd).node n).parent = if n = v.size then some p else (v.node n).parent := by
  rw [node_attach _ _ hp]
  by_cases hnp : n = p
  · rw [if_pos hnp, if_neg (hnp ▸ hp.ne), hnp]
  · rw [if_neg hnp]
    split_ifs <;> rfl

lemma children_attach (hp : p < v.size) (hnd : nd.children = []) (n : NodeId) :
    ((v.attach p nd).node n).children =
      if n = p then v.size :: (v.node p).children
      else if n = v.size then [] else (v.node n).children := by
  rw [node_attach _ _ hp]
  split_ifs
  · rfl
  · exact hnd
  · rfl

theorem attach (h : IsTree v) (hp : p < v.size) (hnd : nd.children = []) :
    IsTree (v.attach p nd) where
  root_lt := h.root_lt.trans (lt_succ_self _)
  root_parent := by
    rw [parent_attach hp, if_neg h.root_lt.ne]
    exact h.root_parent
  children_nodup {q} hq := by
    rw [children_attach hp hnd]
    split_ifs with hqp hqs
    · refine nodup_cons.mpr ⟨fun hmem => ?_, h.children_nodup hp⟩
      exact absurd (h.children_lt hp hmem) (lt_irrefl _)
    · exact nodup_nil
    · exact h.children_nodup (lt_of_le_of_ne (le_of_lt_succ hq) hqs)
  children_lt {q c} hq hc := by
    rw [children_attach hp hnd] at hc
    split_ifs at hc with hqp hqs
    · rcases mem_cons.mp hc with rfl | hc
      · exact lt_succ_self _
      · exact (h.children_lt hp hc).trans (lt_succ_self _)
    · exact absurd hc not_mem_nil
    · exact (h.children_lt (lt_of_le_of_ne (le_of_lt_succ hq) hqs) hc).trans
        (lt_succ_self _)
  mem_children {q c} hq hc := by
    rw [children_attach hp hnd, parent_attach hp]
    by_cases hcs : c = v.size
    · -- the new node: in the list of its parent and in no other
      rw [if_pos hcs, some.injEq, hcs]
      split_ifs with hqp hqs
      · simp [hqp]
      · simp [Ne.symm hqp]
      · have hlt : q < v.size := lt_of_le_of_ne (le_of_lt_succ hq) hqs
        exact iff_of_false (fun hmem => absurd (h.children_lt hlt hmem) (lt_irrefl _))
          (Ne.symm hqp)
    · have hclt : c < v.size := lt_of_le_of_ne (le_of_lt_succ hc) hcs
      rw [if_neg hcs]
      split_ifs with hqp hqs
      · rw [mem_cons, or_iff_right hcs, hqp, h.mem_children hp hclt]
      · -- no old node has the new one for its parent
        refine iff_of_false not_mem_nil fun hparent => ?_
        by_cases hroot : c = rootNode
        · rw [hroot, h.root_parent] at hparent
          exact absurd hparent (by simp)
        · obtain ⟨q', hq', hparent'⟩ := h.has_parent hclt hroot
          rw [hparent', some.injEq, hqs] at hparent
          exact absurd (hq'.trans hclt) (hparent ▸ lt_irrefl _)
      · exact h.mem_children (lt_of_le_of_ne (le_of_lt_succ hq) hqs) hclt
  has_parent {n} hn hroot := by
    rw [parent_attach hp]
    split_ifs with hns
    · exact ⟨p, hns ▸ hp, rfl⟩
    · exact h.has_parent (lt_of_le_of_ne (le_of_lt_succ hn) hns) hroot

theorem descend (h : IsTree v) (hp : p < v.size) {segs : List Segment}
    {target : Option (NodeId × List U8)} (hd : v.descend p segs = some (w, target)) :
    IsTree w ∧ ∀ q name, target = some (q, name) → q < w.size ∧ name.length < vfsNameMax := by
  have hrule := descend_rule (I := fun v p _ => IsTree v ∧ p < v.size)
    (fun h _ hc => ⟨h.1, h.1.findChild_lt h.2 hc⟩)
    (fun h _ _ _ => ⟨h.1.attach h.2 rfl, lt_succ_self _⟩) ⟨h, hp⟩ hd
  rcases hrule with ⟨rfl, q, hw⟩ | ⟨q, seg, rest, rfl, -, hfit, hw⟩
  · exact ⟨hw.1, nofun⟩
  · refine ⟨hw.1, fun q' name heq => ?_⟩
    rw [some.injEq, Prod.mk.injEq] at heq
    exact ⟨heq.1 ▸ hw.2, heq.2 ▸ hfit⟩

/-- The rule for a statement about the tree, where each new directory gets a free name. -/
theorem descend_keeps (h : IsTree v) (hp : p < v.size) {segs : List Segment}
    {target : Option (NodeId × List U8)} {P : Vfs → Prop}
    (hd : v.descend p segs = some (w, target)) (hv : P v)
    (hmade : ∀ {u q name}, IsTree u → q < u.size → name.length < vfsNameMax →
      u.findChild q name = none → P u → P (u.attach q (newNode name true))) : P w := by
  have hrule := descend_rule (I := fun u q _ => IsTree u ∧ q < u.size ∧ P u)
    (fun hI _ hc => ⟨hI.1, hI.1.findChild_lt hI.2.1 hc, hI.2.2⟩)
    (fun hI _ hfit hfree => ⟨hI.1.attach hI.2.1 rfl, lt_succ_self _,
      hmade hI.1 hI.2.1 hfit hfree hI.2.2⟩) ⟨h, hp, hv⟩ hd
  rcases hrule with ⟨-, -, -, -, hw⟩ | ⟨-, -, -, -, -, -, -, -, hw⟩ <;> exact hw

end IsTree

variable {newpath oldpath path : List U8} {room : Bool}

/-! ## What the calls do -/

lemma map_descend {α : Type} {segs : List Segment} {f : Vfs × Option (NodeId × List U8) → α}
    {x : α} (h : (v.descend p segs).map f = some x) :
    ∃ u target, v.descend p segs = some (u, target) ∧ f (u, target) = x := by
  obtain ⟨⟨u, target⟩, hd, hx⟩ := map_eq_some_iff.mp h
  exact ⟨u, target, hd, hx⟩

lemma of_writable {α : Type} {x y : α} {f : Option (Vfs × α)}
    (h : (if !v.writable then some (v, x) else f) = some (w, y)) :
    w = v ∧ y = x ∨ v.writable = true ∧ f = some (w, y) := by
  cases hw : v.writable with
  | false =>
    rw [hw, if_pos (by rfl), some.injEq, Prod.mk.injEq] at h
    exact .inl ⟨h.1.symm, h.2.symm⟩
  | true =>
    rw [hw, if_neg (by simp)] at h
    exact .inr ⟨rfl, h⟩

/-- A function that makes a node where the last name of its path is free. -/
lemma target_cases {α : Type} {u : Vfs} {e x : α} {make : NodeId → List U8 → Vfs × α}
    (hx : (match target with
      | none => (u, e)
      | some (q, name) => if (u.findChild q name).isSome then (u, e) else make q name) = (w, x)) :
    w = u ∧ x = e ∨ ∃ q name, target = some (q, name) ∧ u.findChild q name = none ∧
      make q name = (w, x) := by
  rcases target with _ | ⟨q, name⟩
  · obtain ⟨rfl, rfl⟩ := Prod.mk.inj hx
    exact .inl ⟨rfl, rfl⟩
  cases hfind : u.findChild q name with
  | some c =>
    simp only [hfind, isSome_some, if_true] at hx
    obtain ⟨rfl, rfl⟩ := Prod.mk.inj hx
    exact .inl ⟨rfl, rfl⟩
  | none =>
    simp only [hfind, isSome_none, Bool.false_eq_true, if_false] at hx
    exact .inr ⟨q, name, rfl, hfind, hx⟩

/-- What `vfs_mkdir` leaves behind: nothing new, the directories on the way, or those and
the directory itself. -/
lemma mkdir_spec {x : ℤ} (h : v.mkdir path = some (w, x)) :
    w = v ∧ x = -1 ∨ ∃ u target, v.writable = true ∧
      v.descend rootNode (segmentsOf path) = some (u, target) ∧
      (w = u ∧ x = -1 ∨ ∃ q name, target = some (q, name) ∧ u.findChild q name = none ∧
        w = u.attach q (newNode name true) ∧ x = 0) := by
  rw [mkdir] at h
  rcases of_writable h with hsame | ⟨hw, h⟩
  · exact .inl hsame
  obtain ⟨u, target, hd, hx⟩ := map_descend h
  refine .inr ⟨u, target, hw, hd, ?_⟩
  rcases target_cases hx with hsame | ⟨q, name, htarget, hfind, hx⟩
  · exact .inl hsame
  · obtain ⟨rfl, rfl⟩ := Prod.mk.inj hx
    exact .inr ⟨q, name, htarget, hfind, rfl, rfl⟩

lemma createRamfile_spec {x : Option NodeId} (h : v.createRamfile path room = some (w, x)) :
    w = v ∧ x = none ∨ ∃ u target, v.writable = true ∧
      v.descend rootNode (segmentsOf path) = some (u, target) ∧
      (w = u ∧ x = none ∨ ∃ q name, target = some (q, name) ∧ u.findChild q name = none ∧
        w = u.newRamfile.attachRamfile q name u.ramfiles ∧ x = some u.size) := by
  rw [createRamfile] at h
  rcases of_writable h with hsame | ⟨hw, h⟩
  · exact .inl hsame
  obtain ⟨u, target, hd, hx⟩ := map_descend h
  refine .inr ⟨u, target, hw, hd, ?_⟩
  rcases target_cases hx with hsame | ⟨q, name, htarget, hfind, hx⟩
  · exact .inl hsame
  cases room with
  | false =>
    obtain ⟨rfl, rfl⟩ := Prod.mk.inj hx
    exact .inl ⟨rfl, rfl⟩
  | true =>
    obtain ⟨rfl, rfl⟩ := Prod.mk.inj hx
    exact .inr ⟨q, name, htarget, hfind, rfl, rfl⟩

lemma createRamfile_lt (h : v.createRamfile path room = some (w, some n)) : n < w.size := by
  rcases createRamfile_spec h with ⟨-, hx⟩ | ⟨u, target, -, -, hu⟩
  · exact absurd hx (by simp)
  rcases hu with ⟨-, hx⟩ | ⟨q, name, -, -, rfl, hx⟩
  · exact absurd hx (by simp)
  · rw [some.inj hx]
    exact lt_succ_self _

lemma linkRamfile_spec {x : ℤ} (h : v.linkRamfile oldpath newpath = some (w, x)) :
    w = v ∧ x = -1 ∨ ∃ r u target, v.writable = true ∧ v.resolveRamfile oldpath = some (some r) ∧
      v.resolve none newpath = some none ∧
      v.descend rootNode (segmentsOf newpath) = some (u, target) ∧
      (w = u ∧ x = -1 ∨ ∃ q name, target = some (q, name) ∧
        w = (u.updRamfile r fun f => { f with links := f.links + 1 }).attachRamfile q name r ∧
        x = 0) := by
  rw [linkRamfile] at h
  rcases of_writable h with hsame | ⟨hw, h⟩
  · exact .inl hsame
  obtain ⟨old, hold, h⟩ := bind_eq_some_iff.mp h
  cases old with
  | none =>
    obtain ⟨rfl, rfl⟩ := Prod.mk.inj (some.inj h)
    exact .inl ⟨rfl, rfl⟩
  | some r =>
    obtain ⟨new, hnew, h⟩ := bind_eq_some_iff.mp h
    cases new with
    | some n =>
      obtain ⟨rfl, rfl⟩ := Prod.mk.inj (some.inj h)
      exact .inl ⟨rfl, rfl⟩
    | none =>
      obtain ⟨u, target, hd, hx⟩ := map_descend h
      refine .inr ⟨r, u, target, hw, hold, hnew, hd, ?_⟩
      cases target with
      | none =>
        obtain ⟨rfl, rfl⟩ := Prod.mk.inj hx
        exact .inl ⟨rfl, rfl⟩
      | some t =>
        obtain ⟨rfl, rfl⟩ := Prod.mk.inj hx
        exact .inr ⟨t.1, t.2, rfl, rfl, rfl⟩

/-- What `vfs_unlink_ramfile` leaves behind: the same tree, with one link less on success. -/
lemma unlinkRamfile_spec {x : ℤ} (h : v.unlinkRamfile path = some (w, x)) :
    w = v ∧ x = -1 ∨ ∃ r, v.resolveRamfile path = some (some r) ∧ 1 < (v.ramfile r).links ∧
      w = v.updRamfile r (fun f => { f with links := f.links - 1 }) ∧ x = 0 := by
  rw [unlinkRamfile] at h
  rcases of_writable h with hsame | ⟨-, h⟩
  · exact .inl hsame
  obtain ⟨found, hfound, hx⟩ := map_eq_some_iff.mp h
  cases found with
  | none =>
    obtain ⟨rfl, rfl⟩ := Prod.mk.inj hx
    exact .inl ⟨rfl, rfl⟩
  | some r =>
    by_cases hlinks : 1 < (v.ramfile r).links
    · simp only [if_pos hlinks] at hx
      obtain ⟨rfl, rfl⟩ := Prod.mk.inj hx
      exact .inr ⟨r, hfound, hlinks, rfl, rfl⟩
    · simp only [if_neg hlinks] at hx
      obtain ⟨rfl, rfl⟩ := Prod.mk.inj hx
      exact .inl ⟨rfl, rfl⟩

lemma sameTree_unlinkRamfile {x : ℤ} (h : v.unlinkRamfile path = some (w, x)) :
    SameTree v w := by
  rcases unlinkRamfile_spec h with ⟨rfl, -⟩ | ⟨r, -, -, rfl, -⟩
  · exact .refl _
  · exact .updRamfile _ _ _

lemma renameRamfile_spec {x : ℤ} (h : v.renameRamfile oldpath newpath = some (w, x)) :
    w = v ∧ x = -1 ∨ ∃ u y, v.linkRamfile oldpath newpath = some (u, y) ∧
      (w = u ∧ x = -1 ∧ y ≠ 0 ∨ y = 0 ∧ u.unlinkRamfile oldpath = some (w, x)) := by
  rw [renameRamfile] at h
  rcases of_writable h with hsame | ⟨-, h⟩
  · exact .inl hsame
  obtain ⟨⟨u, y⟩, hlink, h⟩ := bind_eq_some_iff.mp h
  refine .inr ⟨u, y, hlink, ?_⟩
  by_cases hy : y = 0
  · simp only [hy, ne_eq, not_true_eq_false, if_false] at h
    exact .inr ⟨hy, h⟩
  · simp only [ne_eq, hy, not_false_eq_true, if_true] at h
    obtain ⟨rfl, rfl⟩ := Prod.mk.inj (some.inj h)
    exact .inl ⟨rfl, rfl, hy⟩

lemma children_bootNode (f : BootFile) (name : List U8) : (f.node name).children = [] := by
  cases f <;> rfl

lemma name_bootNode (f : BootFile) (name : List U8) :
    (f.node name).name = (newNode name false).name := by
  cases f <;> rfl

lemma path_bootNode (f : BootFile) (name : List U8) : (f.node name).path = [] := by
  cases f <;> rfl

lemma ramfile_bootNode (f : BootFile) (name : List U8) : (f.node name).ramfile = none := by
  cases f <;> rfl

lemma insertFile_spec {f : BootFile} (h : v.insertFile f = some w) :
    ∃ u target, v.descend rootNode (segmentsOf f.path) = some (u, target) ∧
      (target = none ∧ w = u ∨ ∃ q name, target = some (q, name) ∧
        SameTree (u.attach q (f.node name)) w) := by
  obtain ⟨u, target, hd, hw⟩ := map_descend h
  refine ⟨u, target, hd, ?_⟩
  cases target with
  | none => exact .inl ⟨rfl, hw.symm⟩
  | some t =>
    refine .inr ⟨t.1, t.2, rfl, ?_⟩
    cases f with
    | archive file => exact hw ▸ .cachePath _ _
    | virtual path id => exact hw ▸ .refl _

lemma insertFile_ramfiles {f : BootFile} (h : v.insertFile f = some w) :
    w.ramfiles = v.ramfiles := by
  obtain ⟨u, target, hd, hw⟩ := map_descend h
  have hu : u.ramfiles = v.ramfiles :=
    descend_keeps (P := fun u => u.ramfiles = v.ramfiles) hd rfl fun _ h => h
  subst hw
  cases target with
  | none => exact hu
  | some t => cases f <;> exact hu

/-- The same tree, the directories on the way, or those and a node at the end, made only where the
last name is free or `vfs_resolve` has found nothing at the path. -/
inductive Makes (v : Vfs) (path : List U8) (w : Vfs) : Prop
  | nothing (hsame : SameTree v w)
  | directories (u : Vfs) (target : Option (NodeId × List U8))
      (hd : v.descend rootNode (segmentsOf path) = some (u, target)) (hsame : SameTree u w)
  | node (u : Vfs) (q : NodeId) (name : List U8) (nd : VfsNode)
      (hd : v.descend rootNode (segmentsOf path) = some (u, some (q, name)))
      (hfree : u.findChild q name = none ∨ v.resolveFrom rootNode (segmentsOf path) = some none)
      (hnew : nd.children = [] ∧ nd.path = []) (hname : nd.name = (newNode name nd.isDir).name)
      (hsame : SameTree (u.attach q nd) w)

lemma Makes.congr {u : Vfs} (h : Makes v path w) (hs : SameTree w u) :
    Makes v path u := by
  cases h with
  | nothing hsame => exact .nothing (hsame.trans hs)
  | directories u target hd hsame => exact .directories u target hd (hsame.trans hs)
  | node u q name nd hd hfree hnew hname hsame =>
    exact .node u q name nd hd hfree hnew hname (hsame.trans hs)

lemma SameTree.attachRamfile (v u : Vfs) (q : NodeId) (name : List U8) (r : RamfileId)
    (hnode : u.node = v.node) (hsize : u.size = v.size) (hmounted : u.mounted = v.mounted)
    (hext2 : u.hasExt2Root = v.hasExt2Root) :
    SameTree (v.attach q (ramfileNode name r)) (u.attachRamfile q name r) := by
  have hattach : SameTree (v.attach q (ramfileNode name r)) (u.attach q (ramfileNode name r)) := by
    refine ⟨congrArg (· + 1) hsize, fun n => ?_, fun n => .inl ?_, hmounted, hext2⟩ <;>
      simp only [attach, addChild, alloc, updNode, hnode, hsize]
  exact hattach.trans (.cachePath _ _)

lemma mkdir_makes {x : ℤ} (h : v.mkdir path = some (w, x)) : Makes v path w := by
  rcases mkdir_spec h with ⟨rfl, -⟩ | ⟨u, target, -, hd, hu⟩
  · exact .nothing (.refl _)
  rcases hu with ⟨rfl, -⟩ | ⟨q, name, rfl, hfree, rfl, -⟩
  · exact .directories _ target hd (.refl _)
  · exact .node u q name (newNode name true) hd (.inl hfree) ⟨rfl, rfl⟩ rfl (.refl _)

lemma createRamfile_makes {x : Option NodeId} (h : v.createRamfile path room = some (w, x)) :
    Makes v path w := by
  rcases createRamfile_spec h with ⟨rfl, -⟩ | ⟨u, target, -, hd, hu⟩
  · exact .nothing (.refl _)
  rcases hu with ⟨rfl, -⟩ | ⟨q, name, rfl, hfree, rfl, -⟩
  · exact .directories _ target hd (.refl _)
  · exact .node u q name (ramfileNode name u.ramfiles) hd (.inl hfree) ⟨rfl, rfl⟩ rfl
      (.attachRamfile u u.newRamfile q name _ rfl rfl rfl rfl)

lemma linkRamfile_makes {x : ℤ} (h : v.linkRamfile oldpath newpath = some (w, x)) :
    Makes v newpath w := by
  rcases linkRamfile_spec h with ⟨rfl, -⟩ | ⟨r, u, target, hwritable, -, hnone, hd, hu⟩
  · exact .nothing (.refl _)
  rcases hu with ⟨rfl, -⟩ | ⟨q, name, rfl, rfl, -⟩
  · exact .directories _ target hd (.refl _)
  · rw [writable, Bool.and_eq_true] at hwritable
    exact .node u q name (ramfileNode name r) hd
      (.inr (resolve_none hwritable.1 newpath ▸ hnone)) ⟨rfl, rfl⟩ rfl
      (.attachRamfile u (u.updRamfile r _) q name r rfl rfl rfl rfl)

lemma renameRamfile_makes {x : ℤ} (h : v.renameRamfile oldpath newpath = some (w, x)) :
    Makes v newpath w := by
  rcases renameRamfile_spec h with ⟨rfl, -⟩ | ⟨u, y, hl, ⟨rfl, -⟩ | ⟨-, hun⟩⟩
  · exact .nothing (.refl _)
  · exact linkRamfile_makes hl
  · exact (linkRamfile_makes hl).congr (sameTree_unlinkRamfile hun)

lemma sameTree_path (v : Vfs) (n : NodeId) : SameTree v (v.path n).1 := by
  rw [path]
  split_ifs
  · exact .cachePath _ _
  · exact .refl _

/-- **What a call does to the tree.** -/
theorem call_makes {c : Call} (h : v.call c = some w) : Makes v c.newpath w := by
  cases c with
  | mkdir path =>
    obtain ⟨⟨u, x⟩, hm, rfl⟩ := map_eq_some_iff.mp h
    exact mkdir_makes hm
  | create path room =>
    obtain ⟨⟨u, x⟩, hm, rfl⟩ := map_eq_some_iff.mp h
    exact createRamfile_makes hm
  | link oldpath newpath =>
    obtain ⟨⟨u, x⟩, hm, rfl⟩ := map_eq_some_iff.mp h
    exact linkRamfile_makes hm
  | unlink path =>
    obtain ⟨⟨u, x⟩, hm, rfl⟩ := map_eq_some_iff.mp h
    exact .nothing (sameTree_unlinkRamfile hm)
  | rename oldpath newpath =>
    obtain ⟨⟨u, x⟩, hm, rfl⟩ := map_eq_some_iff.mp h
    exact renameRamfile_makes hm
  | path n =>
    obtain rfl := some.inj h
    exact .nothing (sameTree_path v n)

lemma call_mounted {c : Call} (h : v.call c = some w) : w.mounted = v.mounted := by
  cases call_makes h with
  | nothing hsame => exact hsame.mounted_eq
  | directories u target hd hsame => exact hsame.mounted_eq.trans (descend_flags hd).1
  | node u q name nd hd _ _ _ hsame => exact hsame.mounted_eq.trans (descend_flags hd).1

lemma initRamfs_mounted {archive : List InitrdFile} (h : initRamfs archive = some v) :
    v.mounted = true := by
  obtain ⟨u, -, rfl⟩ := map_eq_some_iff.mp h
  rfl

/-! ## Every reachable graph is a tree -/

namespace IsTree

lemma bare : IsTree bare where
  root_lt := one_pos
  root_parent := rfl
  children_nodup _ := nodup_nil
  children_lt _ hc := absurd hc not_mem_nil
  mem_children _ _ := iff_of_false not_mem_nil nofun
  has_parent hn hroot := absurd (lt_one_iff.mp hn) hroot

theorem makes (h : IsTree v) {path : List U8} (hm : Makes v path w) : IsTree w := by
  cases hm with
  | nothing hsame => exact h.congr hsame
  | directories u target hd hsame => exact (h.descend h.root_lt hd).1.congr hsame
  | node u q name nd hd _ hnew _ hsame =>
    obtain ⟨htree, htarget⟩ := h.descend h.root_lt hd
    exact (htree.attach (htarget q name rfl).1 hnew.1).congr hsame

/-- Every call keeps the tree a tree, whatever its paths. -/
theorem call (h : IsTree v) {c : Call} (hc : v.call c = some w) : IsTree w :=
  h.makes (call_makes hc)

lemma insertFile (h : IsTree v) {f : BootFile} (hi : v.insertFile f = some w) : IsTree w := by
  obtain ⟨u, target, hd, hu⟩ := insertFile_spec hi
  obtain ⟨htree, htarget⟩ := h.descend h.root_lt hd
  rcases hu with ⟨-, rfl⟩ | ⟨q, name, heq, hsame⟩
  · exact htree
  · exact (htree.attach (htarget q name heq).1 (children_bootNode f name)).congr hsame

lemma mount (h : IsTree v) (b : Bool) : IsTree { v with mounted := b } :=
  ⟨h.1, h.2, h.3, h.4, h.5, h.6⟩

lemma initRamfs {archive : List InitrdFile} (h : Vfs.initRamfs archive = some v) : IsTree v := by
  obtain ⟨u, hrun, rfl⟩ := map_eq_some_iff.mp h
  exact (run_invariant (fun h hi => h.insertFile hi) bare hrun).mount true

end IsTree

end OpenHobbyOS.Vfs
