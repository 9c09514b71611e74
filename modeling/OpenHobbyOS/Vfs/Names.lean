/-
# Names in the file tree

The functions that make nodes take a path literally, while `vfs_resolve` skips `.` and goes up at
`..`.  On paths without these two the tree keeps its names in order (`Named`): siblings have
distinct names and no node is named `.` or `..`.
-/
import OpenHobbyOS.Vfs.Walks

namespace OpenHobbyOS.Vfs

open Lib Paging List Nat

variable {v w : Vfs} {p n c : NodeId} {nd : VfsNode} {segs : List Segment}

/-- A name that all walks take literally. -/
def plain (name : List U8) : Bool := name != dot && name != dotdot

lemma plain_iff {name : List U8} : plain name = true ↔ name ≠ dot ∧ name ≠ dotdot := by
  simp [plain]

/-- All segments of the path are plain. -/
def plainPath (path : List U8) : Bool := (segmentsOf path).all fun seg => plain seg.name

lemma plainPath_iff {path : List U8} :
    plainPath path = true ↔ ∀ seg ∈ segmentsOf path, plain seg.name = true := by
  simp [plainPath]

/-- A tree with its names in order. -/
structure Named (v : Vfs) : Prop where
  tree : IsTree v
  distinct : ∀ {n}, n < v.size → ((v.node n).children.map fun c => (v.node c).name).Nodup
  plain_name : ∀ {n}, n < v.size → plain (v.node n).name = true
  proper_name : ∀ {n}, n < v.size → n ≠ rootNode →
    (v.node n).name ≠ [] ∧ slash ∉ (v.node n).name ∧ (v.node n).name.length < vfsNameMax

lemma name_attach (hp : p < v.size) (n : NodeId) :
    ((v.attach p nd).node n).name = if n = v.size then nd.name else (v.node n).name := by
  rw [node_attach _ _ hp]
  by_cases hnp : n = p
  · rw [if_pos hnp, if_neg (hnp ▸ hp.ne), hnp]
  · rw [if_neg hnp]
    split_ifs <;> rfl

namespace Named

lemma congr (h : Named v) (hs : SameTree v w) : Named w where
  tree := h.tree.congr hs
  distinct hn := by
    simp only [hs.children_eq, hs.name_eq]
    exact h.distinct (hs.size_eq ▸ hn)
  plain_name hn := by
    rw [hs.name_eq]
    exact h.plain_name (hs.size_eq ▸ hn)
  proper_name hn hroot := by
    rw [hs.name_eq]
    exact h.proper_name (hs.size_eq ▸ hn) hroot

/-- A new node with a new plain name. -/
theorem attach (h : Named v) (hp : p < v.size) (hnd : nd.children = [])
    (hplain : plain nd.name = true)
    (hproper : nd.name ≠ [] ∧ slash ∉ nd.name ∧ nd.name.length < vfsNameMax)
    (hnew : v.findChild p nd.name = none) : Named (v.attach p nd) where
  tree := h.tree.attach hp hnd
  distinct {n} hn := by
    -- the old children keep their names
    have hold : ∀ q, q < v.size →
        ((v.node q).children.map fun c => ((v.attach p nd).node c).name) =
          (v.node q).children.map fun c => (v.node c).name := by
      intro q hq
      refine map_congr_left fun c hc => ?_
      rw [name_attach hp, if_neg (h.tree.children_lt hq hc).ne]
    rw [IsTree.children_attach hp hnd]
    split_ifs with hnp hns
    · rw [map_cons, hold p hp, name_attach hp, if_pos rfl, nodup_cons]
      refine ⟨fun hmem => ?_, h.distinct hp⟩
      obtain ⟨c, hc, hcname⟩ := mem_map.mp hmem
      exact findChild_eq_none.mp hnew c hc hcname
    · exact nodup_nil
    · have hlt : n < v.size := lt_of_le_of_ne (le_of_lt_succ hn) hns
      rw [hold n hlt]
      exact h.distinct hlt
  plain_name {n} hn := by
    rw [name_attach hp]
    split_ifs with hns
    · exact hplain
    · exact h.plain_name (lt_of_le_of_ne (le_of_lt_succ hn) hns)
  proper_name {n} hn hroot := by
    rw [name_attach hp]
    split_ifs with hns
    · exact hproper
    · exact h.proper_name (lt_of_le_of_ne (le_of_lt_succ hn) hns) hroot

end Named

/-! ## Walks along plain paths -/

/-- `vfs_resolve` finds nothing, or the path goes on below a node without children. -/
def Missing (v : Vfs) (p : NodeId) (segs : List Segment) : Prop :=
  v.resolveFrom p segs = some none ∨ (v.node p).children = []

lemma Missing.tail {seg : Segment} {rest : List Segment} (h : v.Missing p (seg :: rest))
    (hplain : plain seg.name = true) (hc : v.findChild p seg.name = some c) :
    v.Missing c rest := by
  rcases h with h | h
  · obtain ⟨hdot, hdotdot⟩ := plain_iff.mp hplain
    rw [resolveFrom] at h
    split_ifs at h
    simp only [hc] at h
    exact .inl h
  · exact absurd (findChild_eq_some hc).1 (by simp [h])

lemma Missing.findChild_eq {seg : Segment} (h : v.Missing p [seg])
    (hplain : plain seg.name = true) : v.findChild p seg.name = none := by
  cases hc : v.findChild p seg.name with
  | none => rfl
  | some c =>
    rcases h with h | h
    · obtain ⟨hdot, hdotdot⟩ := plain_iff.mp hplain
      rw [resolveFrom, hc] at h
      simp [hdot, hdotdot, resolveFrom] at h
    · exact absurd (findChild_eq_some hc).1 (by simp [h])

/-- A walk along a plain path keeps the names in order; if nothing was at the end of the
path, the last name is free where the walk ends. -/
theorem Named.descend (h : Named v) (hp : p < v.size) (hsegs : Segmented segs)
    (hplain : ∀ seg ∈ segs, plain seg.name = true) {target : Option (NodeId × List U8)}
    (hd : v.descend p segs = some (w, target)) :
    Named w ∧ ∀ q name, target = some (q, name) →
      q < w.size ∧ plain name = true ∧ (name ≠ [] ∧ slash ∉ name ∧ name.length < vfsNameMax) ∧
        (v.Missing p segs → w.findChild q name = none) := by
  have hrule := descend_rule
    (I := fun u q rest => Named u ∧ q < u.size ∧ Segmented rest ∧
      (∀ seg ∈ rest, plain seg.name = true) ∧ (v.Missing p segs → u.Missing q rest))
    (fun {u q seg rest c} hI _ hc => by
      obtain ⟨hnamed, hq, hsg, hpl, hmiss⟩ := hI
      exact ⟨hnamed, hnamed.tree.findChild_lt hq hc, hsg.2.2.2, fun s hs => hpl s (.tail _ hs),
        fun hm => (hmiss hm).tail (hpl seg mem_cons_self) hc⟩)
    (fun {u q seg rest} hI _ hfit hnone => by
      obtain ⟨hnamed, hq, hsg, hpl, -⟩ := hI
      have hname : (newNode seg.name true).name = seg.name := newNode_name hfit true
      refine ⟨hnamed.attach hq rfl ?_ ?_ ?_, lt_succ_self _, hsg.2.2.2,
        fun s hs => hpl s (.tail _ hs), fun _ => .inr ?_⟩
      · rw [hname]
        exact hpl seg mem_cons_self
      · rw [hname]
        exact ⟨hsg.1, hsg.2.1, hfit⟩
      · rwa [hname]
      · rw [node_attach_new _ hq]
        rfl)
    ⟨h, hp, hsegs, hplain, id⟩ hd
  rcases hrule with ⟨rfl, q, hw, -⟩ | ⟨q, seg, rest, rfl, hlast, hfit, hw, hq, hsg, hpl, hmiss⟩
  · exact ⟨hw, nofun⟩
  · refine ⟨hw, fun q' name heq => ?_⟩
    rw [Option.some.injEq, Prod.mk.injEq] at heq
    obtain ⟨rfl, rfl⟩ := heq
    obtain rfl : rest = [] := hsg.2.2.1 hlast
    have hseg := hpl seg mem_cons_self
    exact ⟨hq, hseg, ⟨hsg.1, hsg.2.1, hfit⟩, fun hm => (hmiss hm).findChild_eq hseg⟩

/-! ## Calls on plain paths -/

/-- A file of the boot tree has a plain path, and nothing is there yet. -/
def newInsert (v : Vfs) (f : BootFile) : Bool :=
  plainPath f.path &&
    ((segmentsOf f.path).all (fun seg => !seg.last) ||
      v.resolveFrom rootNode (segmentsOf f.path) == some none)

namespace Named

/-- On a plain path `vfs_resolve` and the walk agree, so no call doubles a name. -/
theorem makes (h : Named v) {path : List U8} (hplain : plainPath path = true)
    (hm : Makes v path w) : Named w := by
  have hwalk := fun {u target} (hd : v.descend rootNode (segmentsOf path) = some (u, target)) =>
    h.descend h.tree.root_lt (segmented_segmentsOf path) (plainPath_iff.mp hplain) hd
  cases hm with
  | nothing hsame => exact h.congr hsame
  | directories u target hd hsame => exact (hwalk hd).1.congr hsame
  | node u q name nd hd hfree hnew hname hsame =>
    obtain ⟨hnamed, htarget⟩ := hwalk hd
    obtain ⟨hq, hpl, hproper, hmiss⟩ := htarget q name rfl
    rw [newNode_name hproper.2.2] at hname
    refine (hnamed.attach hq hnew.1 ?_ ?_ ?_).congr hsame <;> rw [hname]
    · exact hpl
    · exact hproper
    · exact hfree.elim id fun hnone => hmiss (.inl hnone)

theorem call (h : Named v) {c : Call} (hplain : plainPath c.newpath = true)
    (hc : v.call c = some w) : Named w :=
  h.makes hplain (call_makes hc)

lemma bare : Named bare where
  tree := IsTree.bare
  distinct _ := nodup_nil
  plain_name _ := show plain [] = true by decide
  proper_name hn hroot := absurd (lt_one_iff.mp hn) hroot

lemma insertFile (h : Named v) {f : BootFile} (hnew : v.newInsert f = true)
    (hi : v.insertFile f = some w) : Named w := by
  rw [newInsert, Bool.and_eq_true, Bool.or_eq_true] at hnew
  obtain ⟨hplain, hfree⟩ := hnew
  obtain ⟨u, target, hd, hu⟩ := insertFile_spec hi
  obtain ⟨hnamed, htarget⟩ :=
    h.descend h.tree.root_lt (segmented_segmentsOf f.path) (plainPath_iff.mp hplain) hd
  rcases hu with ⟨-, rfl⟩ | ⟨q, name, heq, hsame⟩
  · exact hnamed
  · obtain ⟨hq, hpl, hproper, hnone⟩ := htarget q name heq
    have hname : (f.node name).name = name :=
      (name_bootNode f name).trans (newNode_name hproper.2.2 _)
    have hmissing : v.Missing rootNode (segmentsOf f.path) := by
      rcases hfree with hfree | hfree
      · exact absurd heq (descend_ne_some (by simpa using hfree) hd q name)
      · exact .inl (by simpa using hfree)
    refine (hnamed.attach hq (children_bootNode f name) ?_ ?_ ?_).congr hsame <;> rw [hname]
    · exact hpl
    · exact hproper
    · exact hnone hmissing

lemma initRamfs {archive : List InitrdFile}
    (hnew : StepsMeet Vfs.insertFile (fun v f => v.newInsert f = true) Vfs.bare
      (bootFiles archive))
    (h : Vfs.initRamfs archive = some v) : Named v := by
  obtain ⟨u, hrun, rfl⟩ := Option.map_eq_some_iff.mp h
  have hu : Named u := run_invariant_of_meet (fun h hn hi => h.insertFile hn hi) bare hnew hrun
  exact ⟨hu.tree.mount true, hu.distinct, hu.plain_name, hu.proper_name⟩

end Named

end OpenHobbyOS.Vfs
