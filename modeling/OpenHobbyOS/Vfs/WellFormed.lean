/-
# The shape of the file tree

A well-formed file tree is a tree with children below directories only and its names in order.  That
only directories have children depends on the tree as well as on the paths: the functions that make
nodes go on through a file as through a directory.
-/
import OpenHobbyOS.Vfs.Names

namespace OpenHobbyOS.Vfs

open Lib Paging Option

variable {v w : Vfs} {p n c : NodeId} {nd : VfsNode} {segs : List Segment}

/-- The tree is well formed. -/
structure WellFormed (v : Vfs) : Prop where
  tree : IsTree v
  only_dirs : ∀ {n}, n < v.size → (v.node n).children ≠ [] → (v.node n).isDir = true
  distinct : ∀ {n}, n < v.size → ((v.node n).children.map fun c => (v.node c).name).Nodup
  no_dots : ∀ {n}, n < v.size → (v.node n).name ≠ dot ∧ (v.node n).name ≠ dotdot

/-! ## Children below directories -/

/-- Every node with children is a directory. -/
def OnlyDirs (v : Vfs) : Prop :=
  ∀ n, n < v.size → (v.node n).children ≠ [] → (v.node n).isDir = true

/-- Every node the path runs through, as far as it exists, is a directory. -/
def throughDirs (v : Vfs) : NodeId → List Segment → Bool
  | _, [] => true
  | p, seg :: rest =>
    (v.node p).isDir &&
      match v.findChild p seg.name with
      | some c => throughDirs v c rest
      | none => true

lemma throughDirs_cons {seg : Segment} {rest : List Segment}
    (h : v.throughDirs p (seg :: rest) = true) :
    (v.node p).isDir = true ∧
      ∀ c, v.findChild p seg.name = some c → v.throughDirs c rest = true := by
  simp only [throughDirs, Bool.and_eq_true] at h
  exact ⟨h.1, fun c hc => by simpa only [hc] using h.2⟩

lemma throughDirs_of_childless (hdir : (v.node p).isDir = true)
    (hnil : (v.node p).children = []) : v.throughDirs p segs = true := by
  cases segs with
  | nil => rfl
  | cons seg rest =>
    have hnone : v.findChild p seg.name = none := findChild_eq_none.mpr (by simp [hnil])
    simp only [throughDirs, hnone, hdir, Bool.and_true]

lemma isDir_attach (hp : p < v.size) (n : NodeId) :
    ((v.attach p nd).node n).isDir = if n = v.size then nd.isDir else (v.node n).isDir := by
  rw [node_attach _ _ hp]
  by_cases hnp : n = p
  · rw [if_pos hnp, if_neg (hnp ▸ hp.ne), hnp]
  · rw [if_neg hnp]
    split_ifs <;> rfl

namespace OnlyDirs

lemma congr (h : OnlyDirs v) (hs : SameTree v w) : OnlyDirs w := by
  intro n hn hc
  rw [hs.children_eq] at hc
  rw [hs.isDir_eq]
  exact h n (hs.size_eq ▸ hn) hc

theorem attach (h : OnlyDirs v) (hp : p < v.size) (hdir : (v.node p).isDir = true)
    (hnd : nd.children = []) : OnlyDirs (v.attach p nd) := by
  intro n hn hc
  rw [isDir_attach hp]
  rw [IsTree.children_attach hp hnd] at hc
  split_ifs at hc with hnp hns
  · rw [if_neg (hnp ▸ hp.ne), hnp]
    exact hdir
  · exact absurd rfl hc
  · rw [if_neg hns]
    exact h n (lt_of_le_of_ne (Nat.le_of_lt_succ hn) hns) hc

/-- A walk that meets no file ends at a directory. -/
theorem descend (h : OnlyDirs v) (htree : IsTree v) (hp : p < v.size)
    (hdirs : v.throughDirs p segs = true) {target : Option (NodeId × List U8)}
    (hd : v.descend p segs = some (w, target)) :
    OnlyDirs w ∧ ∀ q name, target = some (q, name) → q < w.size ∧ (w.node q).isDir = true := by
  have hrule := descend_rule
    (I := fun u q rest => OnlyDirs u ∧ IsTree u ∧ q < u.size ∧ u.throughDirs q rest = true)
    (fun {u q seg rest c} hI _ hc =>
      ⟨hI.1, hI.2.1, hI.2.1.findChild_lt hI.2.2.1 hc, (throughDirs_cons hI.2.2.2).2 c hc⟩)
    (fun {u q seg rest} hI _ _ _ => by
      obtain ⟨honly, htr, hq, hth⟩ := hI
      refine ⟨honly.attach hq (throughDirs_cons hth).1 rfl, htr.attach hq rfl, Nat.lt_succ_self _,
        throughDirs_of_childless ?_ ?_⟩ <;> rw [node_attach_new _ hq] <;> rfl)
    ⟨h, htree, hp, hdirs⟩ hd
  rcases hrule with ⟨rfl, q, hw, -⟩ | ⟨q, seg, rest, rfl, -, -, hw, -, hq, hth⟩
  · exact ⟨hw, nofun⟩
  · refine ⟨hw, fun q' name heq => ?_⟩
    rw [some.injEq, Prod.mk.injEq] at heq
    exact heq.1 ▸ ⟨hq, (throughDirs_cons hth).1⟩

theorem makes (h : OnlyDirs v) (htree : IsTree v) {path : List U8}
    (hdirs : v.throughDirs rootNode (segmentsOf path) = true) (hm : Makes v path w) :
    OnlyDirs w := by
  cases hm with
  | nothing hsame => exact h.congr hsame
  | directories u target hd hsame => exact (h.descend htree htree.root_lt hdirs hd).1.congr hsame
  | node u q name nd hd _ hnew _ hsame =>
    obtain ⟨honly, htarget⟩ := h.descend htree htree.root_lt hdirs hd
    obtain ⟨hq, hdir⟩ := htarget q name rfl
    exact (honly.attach hq hdir hnew.1).congr hsame

lemma insertFile (h : OnlyDirs v) (htree : IsTree v) {f : BootFile}
    (hdirs : v.throughDirs rootNode (segmentsOf f.path) = true)
    (hi : v.insertFile f = some w) : OnlyDirs w := by
  obtain ⟨u, target, hd, hu⟩ := insertFile_spec hi
  obtain ⟨honly, htarget⟩ := h.descend htree htree.root_lt hdirs hd
  rcases hu with ⟨-, rfl⟩ | ⟨q, name, heq, hsame⟩
  · exact honly
  · obtain ⟨hq, hdir⟩ := htarget q name heq
    exact (honly.attach hq hdir (children_bootNode f name)).congr hsame

end OnlyDirs

/-! ## Clean paths -/

/-- The path is plain, and every node it runs through is a directory. -/
def cleanPath (v : Vfs) (path : List U8) : Bool :=
  plainPath path && v.throughDirs rootNode (segmentsOf path)

/-- A file of the boot tree has a clean path, and nothing is there yet. -/
def cleanInsert (v : Vfs) (f : BootFile) : Bool := v.newInsert f && v.cleanPath f.path

lemma WellFormed.of_named (h : Named v) (honly : OnlyDirs v) : WellFormed v :=
  ⟨h.tree, fun {n} hn hc => honly n hn hc, h.distinct, fun hn => plain_iff.mp (h.plain_name hn)⟩

/-- Names in order and children below directories: what clean calls keep. -/
def Clean (v : Vfs) : Prop := Named v ∧ OnlyDirs v

lemma Clean.call (h : Clean v) {c : Call} (hclean : v.cleanPath c.newpath = true)
    (hc : v.call c = some w) : Clean w := by
  rw [cleanPath, Bool.and_eq_true] at hclean
  exact ⟨h.1.call hclean.1 hc, h.2.makes h.1.tree hclean.2 (call_makes hc)⟩

lemma Clean.insertFile (h : Clean v) {f : BootFile} (hclean : v.cleanInsert f = true)
    (hi : v.insertFile f = some w) : Clean w := by
  rw [cleanInsert, Bool.and_eq_true] at hclean
  exact ⟨h.1.insertFile hclean.1 hi,
    h.2.insertFile h.1.tree (Bool.and_eq_true_iff.mp hclean.2).2 hi⟩

lemma Clean.initRamfs {archive : List InitrdFile}
    (hclean : StepsMeet Vfs.insertFile (fun v f => v.cleanInsert f = true) bare (bootFiles archive))
    (h : Vfs.initRamfs archive = some v) : Clean v := by
  obtain ⟨u, hrun, rfl⟩ := map_eq_some_iff.mp h
  have hbare : Clean bare := ⟨.bare, fun n _ hc => absurd rfl hc⟩
  have hu : Clean u := run_invariant_of_meet (fun h hc hi => h.insertFile hc hi) hbare hclean hrun
  exact ⟨⟨hu.1.tree.mount true, hu.1.distinct, hu.1.plain_name, hu.1.proper_name⟩, hu.2⟩

/-- **The file tree stays well formed** from boot on, if every path that nodes are made on is clean:
distinct paths through directories, away from the virtual files, without `.` and `..`. -/
theorem wellFormed_of_clean {archive : List InitrdFile} {calls : List Call}
    (hboot : initRamfs archive = some v)
    (harchive : StepsMeet insertFile (fun v f => v.cleanInsert f = true) bare (bootFiles archive))
    (hcalls : StepsMeet call (fun v c => v.cleanPath c.newpath = true) v calls)
    (hrun : run call v calls = some w) : WellFormed w := by
  have hclean : Clean w :=
    run_invariant_of_meet (fun h hc hcall => h.call hc hcall) (.initRamfs harchive hboot) hcalls hrun
  exact .of_named hclean.1 hclean.2

/-- The tree after some calls. -/
def treeAfter (v : Vfs) (calls : List Call) : Vfs := (run call v calls).getD bare

lemma run_treeAfter {calls : List Call} (h : (run call v calls).isSome = true) :
    run call v calls = some (treeAfter v calls) :=
  (getD_of_ne_none (ne_none_iff_isSome.mpr h) _).symm

lemma eq_some_of_map_snd {α β : Type} {o : Option (α × β)} {b : β} (h : o.map Prod.snd = some b)
    (d : α × β) : o = some ((o.getD d).1, b) := by
  obtain ⟨x, rfl, rfl⟩ := map_eq_some_iff.mp h
  rfl

/-- The tree of an archive with one file: node 1 is `/bin`, node 2 `/bin/sh`. -/
def shellTree : Vfs := (initRamfs [⟨text "bin/sh", []⟩]).getD bare

lemma initRamfs_shell : initRamfs [⟨text "bin/sh", []⟩] = some shellTree :=
  (getD_of_ne_none (ne_none_iff_isSome.mpr (by decide +kernel)) _).symm

theorem wellFormed_after_link :
    WellFormed (treeAfter shellTree [.mkdir (text "/tmp"), .create (text "/tmp/a") true,
      .link (text "/tmp/a") (text "/tmp/b")]) :=
  wellFormed_of_clean initRamfs_shell (by decide +kernel) (by decide +kernel)
    (run_treeAfter (by decide +kernel))

/-- The tree of an empty archive: node 9 is `/dev`, node 10 `/dev/null`. -/
def emptyTree : Vfs := (initRamfs []).getD bare

lemma initRamfs_nil : initRamfs [] = some emptyTree :=
  (getD_of_ne_none (ne_none_iff_isSome.mpr (by decide +kernel)) _).symm

/-- **Calls that break the tree**: a directory made below `/dev/null`, one named `..`, and a name
linked twice because `vfs_resolve` leaves `/b/..`. -/
theorem calls_break_tree :
    initRamfs [] = some emptyTree ∧
    (∃ w, run call emptyTree [.mkdir (text "/dev/null/x")] = some w ∧ ¬ WellFormed w) ∧
    (∃ w, run call emptyTree [.mkdir (text "/..")] = some w ∧ ¬ WellFormed w) ∧
    ∃ w, run call emptyTree [.create (text "/tmp/a") true, .link (text "/tmp/a") (text "/b/../c"),
      .link (text "/tmp/a") (text "/b/../c")] = some w ∧ ¬ WellFormed w := by
  refine ⟨initRamfs_nil, ⟨_, run_treeAfter (by decide +kernel), fun h => ?_⟩,
    ⟨_, run_treeAfter (by decide +kernel), fun h => ?_⟩,
    ⟨_, run_treeAfter (by decide +kernel), fun h => ?_⟩⟩
  · have hdir := h.only_dirs (n := 10) (by decide +kernel) (by decide +kernel)
    exact absurd hdir (by decide +kernel)
  · have hdots := h.no_dots (n := 15) (by decide +kernel)
    exact hdots.2 (by decide +kernel)
  · have hnodup := h.distinct (n := 18) (by decide +kernel)
    exact absurd hnodup (by decide +kernel)

end OpenHobbyOS.Vfs
