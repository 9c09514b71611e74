/-
# Failed changes of the file tree

`vfs_mkdir`, `vfs_create_ramfile`, `vfs_link_ramfile` and `vfs_rename_ramfile` of `src/vfs.c` when
they fail.  All make the directories that are missing on their way and may fail behind that: because
the path ends in a slash, or because there is no memory for a ramfile.
-/
import OpenHobbyOS.Vfs.Agreement

namespace OpenHobbyOS.Vfs

open Lib Paging List Option Nat Function

variable {v w u : Vfs} {p q n c : NodeId} {segs : List Segment} {name : List U8}
variable {target : Option (NodeId × List U8)} {r : RamfileId}

/-! ## Failures -/

/-- The tree after a call that reports failure. -/
def failedTree (v : Vfs) : Call → Option Vfs
  | .mkdir path => (v.mkdir path).bind fun r => if r.2 = 0 then none else some r.1
  | .create path room =>
    (v.createRamfile path room).bind fun r => if r.2.isSome then none else some r.1
  | .link oldpath newpath =>
    (v.linkRamfile oldpath newpath).bind fun r => if r.2 = 0 then none else some r.1
  | .rename oldpath newpath =>
    (v.renameRamfile oldpath newpath).bind fun r => if r.2 = 0 then none else some r.1
  | .unlink _ | .path _ => none

/-- If the call fails, the nodes and the ramfiles are the same as before. -/
def NoEffect (v : Vfs) (c : Call) : Prop := ∀ w, v.failedTree c = some w → w = v

/-- The segments that a walk takes for directories. -/
def dirsOf (segs : List Segment) : List Segment := segs.filter fun seg => !seg.last

/-- The path does not end in a slash. -/
def EndsInName (path : List U8) : Prop := ∃ seg ∈ segmentsOf path, seg.last = true

/-- The directories of the path exist already, or the walk ends in a panic. -/
def Finds (v : Vfs) (path : List U8) : Prop :=
  (∃ n, v.Leads rootNode (dirsOf (segmentsOf path)) n) ∨
    ∃ seg ∈ segmentsOf path, vfsNameMax ≤ seg.name.length

/-- The calls that have no effect if they fail. -/
def LeavesNothing (v : Vfs) : Call → Prop
  | .mkdir path => v.writable = true → EndsInName path ∨ v.Finds path
  | .create path room => v.writable = true → EndsInName path ∧ room = true ∨ v.Finds path
  | .link oldpath newpath | .rename oldpath newpath =>
    v.writable = true → (∃ r, v.resolveRamfile oldpath = some (some r)) →
      v.resolve none newpath = some none → EndsInName newpath ∨ v.Finds newpath
  | .unlink _ | .path _ => True

/-! ## Walks -/

lemma descend_eq_none (hsegs : Segmented segs) :
    v.descend p segs = none ↔ ∃ seg ∈ segs, vfsNameMax ≤ seg.name.length := by
  induction segs generalizing v p with
  | nil => simp [descend]
  | cons seg rest ih =>
    rw [descend]
    by_cases hlong : vfsNameMax ≤ seg.name.length
    · rw [if_pos hlong]
      exact iff_of_true rfl ⟨seg, mem_cons_self, hlong⟩
    rw [if_neg hlong]
    cases hlast : seg.last with
    | true =>
      obtain rfl : rest = [] := hsegs.2.2.1 hlast
      simp [hlong]
    | false =>
      rw [if_neg (by simp), ih hsegs.2.2.2]
      simp [hlong]

lemma descend_target (hd : v.descend p segs = some (u, target)) :
    target = none ↔ ∀ seg ∈ segs, seg.last = false := by
  induction segs generalizing v p with
  | nil =>
    rw [descend, some.injEq, Prod.mk.injEq] at hd
    simp [← hd.2]
  | cons seg rest ih =>
    obtain ⟨-, ⟨hlast, -, rfl⟩ | ⟨hlast, hd⟩⟩ := descend_cons hd
    · simp [hlast]
    · rw [ih hd]
      simp [hlast]

lemma descend_same_iff (hsegs : Segmented segs) (hd : v.descend p segs = some (u, target)) :
    u = v ↔ ∃ n, v.Leads p (dirsOf segs) n := by
  induction segs generalizing v p with
  | nil =>
    rw [descend, some.injEq, Prod.mk.injEq] at hd
    exact iff_of_true hd.1.symm ⟨p, rfl⟩
  | cons seg rest ih =>
    obtain ⟨-, ⟨hlast, rfl, -⟩ | ⟨hlast, hd⟩⟩ := descend_cons hd
    · obtain rfl : rest = [] := hsegs.2.2.1 hlast
      exact iff_of_true rfl ⟨p, by simp [dirsOf, hlast, Leads]⟩
    · have hdirs : dirsOf (seg :: rest) = seg :: dirsOf rest := by simp [dirsOf, hlast]
      rw [findOrCreateDirectory] at hd
      rw [hdirs]
      cases hfind : v.findChild p seg.name with
      | some c =>
        rw [hfind] at hd
        rw [ih hsegs.2.2.2 hd]
        simp only [Leads, hfind, some.injEq, exists_eq_left']
      | none =>
        rw [hfind] at hd
        have hsize := descend_size hd
        refine iff_of_false ?_ (by simp [Leads, hfind])
        rintro rfl
        exact absurd hsize (not_succ_le_self _)

lemma descend_taken (h : IsTree v) (hp : p < v.size)
    (hd : v.descend p segs = some (u, some (q, name))) (htaken : u.findChild q name ≠ none) :
    u = v := by
  have hrule := descend_rule
    (I := fun u p _ => IsTree u ∧ p < u.size ∧ (u = v ∨ (u.node p).children = []))
    (fun {u p seg rest c} hI _ hc => by
      obtain ⟨htree, hp, hplace⟩ := hI
      refine ⟨htree, htree.findChild_lt hp hc, .inl ?_⟩
      rcases hplace with rfl | hnil
      · rfl
      · have hmem := (findChild_eq_some hc).1
        rw [hnil] at hmem
        cases hmem)
    (fun {u p seg rest} hI _ _ _ => ⟨hI.1.attach hI.2.1 rfl, lt_succ_self _,
      .inr (by rw [node_attach_new _ hI.2.1]; rfl)⟩)
    ⟨h, hp, .inl rfl⟩ hd
  rcases hrule with ⟨hnone, -⟩ | ⟨q', seg, rest, htarget, -, -, -, -, hplace⟩
  · cases hnone
  · rw [some.injEq, Prod.mk.injEq] at htarget
    obtain ⟨rfl, rfl⟩ := htarget
    refine hplace.resolve_right fun hnil => htaken ?_
    rw [findChild_eq_none, hnil]
    simp

lemma same_of_descend {path : List U8}
    (hd : v.descend rootNode (segmentsOf path) = some (u, target)) :
    u = v ↔ v.Finds path := by
  have hshort : ¬ ∃ seg ∈ segmentsOf path, vfsNameMax ≤ seg.name.length := by
    rw [← descend_eq_none (v := v) (p := rootNode) (segmented_segmentsOf path), hd]
    simp
  rw [descend_same_iff (segmented_segmentsOf path) hd, Finds, or_iff_left hshort]

lemma target_of_descend {path : List U8}
    (hd : v.descend rootNode (segmentsOf path) = some (u, target)) :
    target = none ↔ ¬ EndsInName path := by
  rw [descend_target hd, EndsInName]
  simp

/-! ## Names that stay -/

lemma resolveFrom_of_kept {S : NodeId → Prop} (hp : S p)
    (hparent : ∀ {p}, S p → (w.node p).parent = (v.node p).parent ∧
      ∀ q, (v.node p).parent = some q → S q)
    (hchild : ∀ {p name c}, S p → plain name = true → v.findChild p name = some c →
      w.findChild p name = some c ∧ S c)
    (hr : v.resolveFrom p segs = some (some n)) : w.resolveFrom p segs = some (some n) := by
  induction segs generalizing p with
  | nil => exact hr
  | cons seg rest ih =>
    obtain ⟨hfit, hstep⟩ := resolveFrom_cons hr
    rw [Vfs.resolveFrom, if_neg (not_le.mpr hfit)]
    obtain ⟨hdot, hr⟩ | ⟨hdot, hdotdot, hr⟩ | ⟨hdot, hdotdot, c, hc, hr⟩ := hstep
    · rw [if_pos hdot]
      exact ih hp hr
    · obtain ⟨heq, hup⟩ := hparent hp
      rw [if_neg hdot, if_pos hdotdot, heq]
      cases hq : (v.node p).parent with
      | none =>
        rw [hq] at hr
        exact ih hp hr
      | some q =>
        rw [hq] at hr
        exact ih (hup q hq) hr
    · obtain ⟨heq, hmem⟩ := hchild hp (plain_iff.mpr ⟨hdot, hdotdot⟩) hc
      rw [if_neg hdot, if_neg hdotdot, heq]
      exact ih hmem hr

/-- What `vfs_resolve` finds in the first tree it finds in the second. -/
structure Keeps (v w : Vfs) : Prop where
  grows : Grows v w
  findChild_eq {p c : NodeId} {name : List U8} : PlainChain v p → plain name = true →
    v.findChild p name = some c → w.findChild p name = some c

lemma Keeps.resolveFrom (h : IsTree v) (hk : Keeps v w) (hp : PlainChain v p)
    (hr : v.resolveFrom p segs = some (some n)) : w.resolveFrom p segs = some (some n) := by
  refine resolveFrom_of_kept hp (fun hq => ⟨hk.grows.parent_eq (hq.lt h), fun q hparent =>
    (hq.parent h hparent).1⟩) (fun hq hplain hc => ?_) hr
  obtain ⟨hmem, hname⟩ := findChild_eq_some hc
  exact ⟨hk.findChild_eq hq hplain hc, .child (hq.lt h) hq hmem (hname ▸ hplain)⟩

lemma Grows.descend (h : IsTree v) (hp : p < v.size)
    (hd : v.descend p segs = some (u, target)) : Grows v u :=
  h.descend_keeps (P := Grows v) hp hd (.refl v) fun _ hq _ _ hg => hg.trans (.attach hq)

lemma Keeps.node {path : List U8} {nd : VfsNode} (h : IsTree v)
    (hd : v.descend rootNode (segmentsOf path) = some (u, some (q, name)))
    (hnone : v.resolveFrom rootNode (segmentsOf path) = some none) (hname : nd.name = name) :
    Keeps v (u.attach q nd) := by
  obtain ⟨htree, htarget⟩ := h.descend h.root_lt hd
  have hq : q < u.size := (htarget q name rfl).1
  obtain ⟨hext, hle, hfit, hlead⟩ :=
    leads_of_descend h h.root_lt (segmented_segmentsOf path) hd
  refine ⟨(Grows.descend h h.root_lt hd).trans (.attach hq), ?_⟩
  intro p' c name' hp' hplain hc
  have hu : u.findChild p' name' = some c := hext _ _ _ (hp'.lt h) hc
  rw [findChild_attach htree hq ((hp'.lt h).trans_le hle), if_neg, hu]
  rintro ⟨rfl, hsame⟩
  rw [hname] at hsame
  subst hsame
  -- a name that is taken would resolve, with plain names all the way
  obtain rfl : u = v := descend_taken h h.root_lt hd (by simp [hu])
  obtain ⟨hmem, hcname⟩ := findChild_eq_some hu
  have hleads := hlead u c (fun _ _ _ _ hc => hc) hu
  have hchain : PlainChain u c := .child hq hp' hmem (hcname ▸ hplain)
  have hres := hleads.resolveFrom hfit (hleads.plain_of_chain h h.root_lt hchain).2
  rw [hnone] at hres
  cases hres

/-! ## Links -/

/-- A ramfile with a name counts at least one. -/
def Linked (v : Vfs) : Prop :=
  ∀ n r, n < v.size → (v.node n).ramfile = some r → 1 ≤ (v.ramfile r).links

namespace Linked

lemma of_links (h : Linked v) (hs : SameTree v w)
    (hlinks : ∀ r, 1 ≤ (v.ramfile r).links → 1 ≤ (w.ramfile r).links) : Linked w := by
  intro n r hn hr
  rw [hs.size_eq] at hn
  rw [hs.ramfile_eq] at hr
  exact hlinks r (h n r hn hr)

lemma attach {nd : VfsNode} (h : Linked v) (hp : p < v.size)
    (hnd : ∀ r, nd.ramfile = some r → 1 ≤ (v.ramfile r).links) : Linked (v.attach p nd) := by
  intro n r hn hr
  rw [node_attach _ _ hp] at hr
  rw [ramfile_attach]
  by_cases hnp : n = p
  · rw [if_pos hnp] at hr
    exact h p r hp hr
  rw [if_neg hnp] at hr
  by_cases hnew : n = v.size
  · rw [if_pos hnew] at hr
    exact hnd r hr
  · rw [if_neg hnew] at hr
    exact h n r (lt_of_le_of_ne (Nat.lt_succ_iff.mp hn) hnew) hr

lemma descend (h : Linked v) (htree : IsTree v) (hp : p < v.size)
    (hd : v.descend p segs = some (u, target)) : Linked u :=
  htree.descend_keeps (P := Linked) hp hd h fun _ hq _ _ hl => hl.attach hq fun r hr => by cases hr

lemma updRamfile (h : Linked v) {f : Ramfile → Ramfile}
    (hf : 1 ≤ (v.ramfile r).links → 1 ≤ (f (v.ramfile r)).links) : Linked (v.updRamfile r f) := by
  refine h.of_links (.updRamfile v r f) fun s hs => ?_
  by_cases hsr : s = r
  · subst hsr
    simpa [Vfs.updRamfile] using hf hs
  · simpa [Vfs.updRamfile, update_of_ne hsr] using hs

lemma attachRamfile (h : Linked v) (hp : p < v.size) (hr : 1 ≤ (v.ramfile r).links) :
    Linked (v.attachRamfile p name r) := by
  refine (h.attach hp fun s hs => ?_).of_links (.cachePath _ _) fun _ hs => hs
  obtain rfl : r = s := some.inj hs
  exact hr

lemma linkRamfile (h : Linked v) (htree : IsTree v) {oldpath newpath : List U8} {x : ℤ}
    (hl : v.linkRamfile oldpath newpath = some (w, x)) : Linked w := by
  rcases linkRamfile_spec hl with ⟨rfl, -⟩ | ⟨r, u, target, -, -, -, hd, hu⟩
  · exact h
  have hlinked := h.descend htree htree.root_lt hd
  rcases hu with ⟨rfl, -⟩ | ⟨q, name, rfl, rfl, -⟩
  · exact hlinked
  · obtain ⟨-, htarget⟩ := htree.descend htree.root_lt hd
    refine (hlinked.updRamfile fun _ => le_add_left 1 _).attachRamfile
      (htarget q name rfl).1 ?_
    simp [Vfs.updRamfile]

lemma unlinkRamfile (h : Linked v) {path : List U8} {x : ℤ}
    (hun : v.unlinkRamfile path = some (w, x)) : Linked w := by
  rcases unlinkRamfile_spec hun with ⟨rfl, -⟩ | ⟨r, -, hlinks, rfl, -⟩
  · exact h
  · exact h.updRamfile fun _ => le_sub_of_add_le hlinks

theorem call (h : Linked v) (htree : IsTree v) {c : Call} (hc : v.call c = some w) :
    Linked w := by
  cases c with
  | mkdir path =>
    obtain ⟨⟨_, x⟩, hm, rfl⟩ := map_eq_some_iff.mp hc
    rcases mkdir_spec hm with ⟨rfl, -⟩ | ⟨u, target, -, hd, hu⟩
    · exact h
    have hlinked := h.descend htree htree.root_lt hd
    rcases hu with ⟨rfl, -⟩ | ⟨q, name, rfl, -, rfl, -⟩
    · exact hlinked
    · obtain ⟨-, htarget⟩ := htree.descend htree.root_lt hd
      exact hlinked.attach (htarget q name rfl).1 fun r hr => by cases hr
  | create path room =>
    obtain ⟨⟨_, x⟩, hm, rfl⟩ := map_eq_some_iff.mp hc
    rcases createRamfile_spec hm with ⟨rfl, -⟩ | ⟨u, target, -, hd, hu⟩
    · exact h
    have hlinked := h.descend htree htree.root_lt hd
    rcases hu with ⟨rfl, -⟩ | ⟨q, name, rfl, -, rfl, -⟩
    · exact hlinked
    · obtain ⟨-, htarget⟩ := htree.descend htree.root_lt hd
      have hnew : Linked u.newRamfile := hlinked.of_links (.newRamfile u) fun s hs => by
        by_cases hsr : s = u.ramfiles
        · simp [newRamfile, hsr]
        · simpa [newRamfile, update_of_ne hsr] using hs
      exact hnew.attachRamfile (htarget q name rfl).1 (by simp [newRamfile])
  | link oldpath newpath =>
    obtain ⟨⟨_, x⟩, hm, rfl⟩ := map_eq_some_iff.mp hc
    exact h.linkRamfile htree hm
  | unlink path =>
    obtain ⟨⟨_, x⟩, hm, rfl⟩ := map_eq_some_iff.mp hc
    exact h.unlinkRamfile hm
  | rename oldpath newpath =>
    obtain ⟨⟨_, x⟩, hm, rfl⟩ := map_eq_some_iff.mp hc
    rcases renameRamfile_spec hm with ⟨rfl, -⟩ | ⟨u, y, hl, ⟨rfl, -⟩ | ⟨-, hun⟩⟩
    · exact h
    · exact h.linkRamfile htree hl
    · exact (h.linkRamfile htree hl).unlinkRamfile hun
  | path n =>
    obtain rfl := some.inj hc
    rw [Vfs.path]
    split_ifs
    · exact h.of_links (.cachePath v n) fun _ hs => hs
    · exact h

lemma insertFile (h : Linked v) (htree : IsTree v) {f : BootFile}
    (hi : v.insertFile f = some w) : Linked w := by
  obtain ⟨u, target, hd, hw⟩ := map_descend hi
  have hlinked := h.descend htree htree.root_lt hd
  subst hw
  cases target with
  | none => exact hlinked
  | some t =>
    obtain ⟨-, htarget⟩ := htree.descend htree.root_lt hd
    have hattach : Linked (u.attach t.1 (f.node t.2)) :=
      hlinked.attach (htarget t.1 t.2 rfl).1 fun r hr => by
        rw [ramfile_bootNode] at hr
        cases hr
    cases f with
    | archive file => exact hattach.of_links (.cachePath _ _) fun _ hs => hs
    | virtual path id => exact hattach

end Linked

/-! ## Reachable trees -/

/-- The trees that calls and writes come to.  Over an ext2 root the functions change nothing,
so that any such tree will do. -/
inductive Reached : Vfs → Prop
  | boot {archive : List InitrdFile} {v : Vfs} (h : initRamfs archive = some v) : Reached v
  | ext2 {v : Vfs} (h : v.hasExt2Root = true) : Reached v
  | call {v w : Vfs} {c : Call} (hv : Reached v) (h : v.call c = some w) : Reached w
  | write {v w : Vfs} {n offset : ℕ} {bytes : List U8} {room : Bool} {x : ℤ} (hv : Reached v)
      (h : v.writeRamfile n offset bytes room = some (w, x)) : Reached w

lemma writeRamfile_links {n offset : ℕ} {bytes : List U8} {room : Bool} {x : ℤ}
    (h : v.writeRamfile n offset bytes room = some (w, x)) :
    SameTree v w ∧ ∀ r, (w.ramfile r).links = (v.ramfile r).links := by
  have hsame : SameTree v v ∧ ∀ r, (v.ramfile r).links = (v.ramfile r).links :=
    ⟨.refl v, fun _ => rfl⟩
  rw [writeRamfile] at h
  cases hr : (v.node n).ramfile with
  | none =>
    rw [hr] at h
    obtain ⟨rfl, -⟩ := Prod.mk.inj (some.inj h)
    exact hsame
  | some r =>
    simp only [hr] at h
    by_cases hnil : bytes = []
    · rw [if_pos hnil] at h
      obtain ⟨rfl, -⟩ := Prod.mk.inj (some.inj h)
      exact hsame
    simp only [if_neg hnil] at h
    obtain ⟨capacity, -, h⟩ := bind_eq_some_iff.mp h
    split_ifs at h
    · obtain ⟨rfl, -⟩ := Prod.mk.inj (some.inj h)
      exact hsame
    · obtain ⟨rfl, -⟩ := Prod.mk.inj (some.inj h)
      refine ⟨.updRamfile v r _, fun s => ?_⟩
      by_cases hs : s = r
      · simp [updRamfile, hs]
      · simp [updRamfile, update_of_ne hs]

lemma call_hasExt2Root {c : Call} (h : v.call c = some w) : w.hasExt2Root = v.hasExt2Root := by
  cases call_makes h with
  | nothing hsame => exact hsame.ext2_eq
  | directories u target hd hsame => exact hsame.ext2_eq.trans (descend_flags hd).2
  | node u q name nd hd _ _ _ hsame => exact hsame.ext2_eq.trans (descend_flags hd).2

lemma Reached.linked (h : Reached v) : v.hasExt2Root = true ∨ IsTree v ∧ Linked v := by
  induction h with
  | boot h =>
    refine .inr ⟨.initRamfs h, ?_⟩
    obtain ⟨u, hrun, rfl⟩ := map_eq_some_iff.mp h
    have hinv := run_invariant (P := fun v => IsTree v ∧ Linked v)
      (fun h hi => ⟨h.1.insertFile hi, h.2.insertFile h.1 hi⟩)
      ⟨.bare, fun n r _ hr => by cases hr⟩ hrun
    exact hinv.2
  | ext2 h => exact .inl h
  | call hv h ih =>
    rw [call_hasExt2Root h]
    exact ih.imp_right fun hinv => ⟨hinv.1.call h, hinv.2.call hinv.1 h⟩
  | write hv h ih =>
    obtain ⟨hsame, hlinks⟩ := writeRamfile_links h
    rw [hsame.ext2_eq]
    exact ih.imp_right fun hinv => ⟨hinv.1.congr hsame,
      hinv.2.of_links hsame fun r hr => (hlinks r).symm ▸ hr⟩

lemma Reached.of_writable (h : Reached v) (hw : v.writable = true) : IsTree v ∧ Linked v := by
  refine h.linked.resolve_left fun hext2 => ?_
  simp [writable, hext2] at hw

/-! ## The calls -/

section Calls

variable {path oldpath newpath : List U8} {room : Bool}

lemma failedTree_mkdir (hw : v.writable = true)
    (hd : v.descend rootNode (segmentsOf path) = some (u, target)) :
    v.failedTree (.mkdir path) = some w ↔
      u = w ∧ ∀ q name, target = some (q, name) → u.findChild q name ≠ none := by
  rw [failedTree, mkdir, hw, hd]
  cases target with
  | none => simp
  | some t =>
    cases hfind : u.findChild t.1 t.2 with
    | none => simp [hfind, Prod.ext_iff]
    | some c => simp [hfind, Prod.ext_iff]

lemma failedTree_create (hw : v.writable = true)
    (hd : v.descend rootNode (segmentsOf path) = some (u, target)) :
    v.failedTree (.create path room) = some w ↔
      u = w ∧ ∀ q name, target = some (q, name) → u.findChild q name ≠ none ∨ room = false := by
  rw [failedTree, createRamfile, hw, hd]
  cases target with
  | none => simp
  | some t =>
    cases hfind : u.findChild t.1 t.2 with
    | none => cases room <;> simp [hfind, Prod.ext_iff]
    | some c => simp [hfind, Prod.ext_iff]

lemma linkRamfile_eq (hw : v.writable = true) (hold : v.resolveRamfile oldpath = some (some r))
    (hnew : v.resolve none newpath = some none) :
    v.linkRamfile oldpath newpath = v.linkAt newpath r := by
  simp [linkRamfile, hw, hold, hnew]

lemma failedTree_link (hw : v.writable = true) (hold : v.resolveRamfile oldpath = some (some r))
    (hnew : v.resolve none newpath = some none)
    (hd : v.descend rootNode (segmentsOf newpath) = some (u, target)) :
    v.failedTree (.link oldpath newpath) = some w ↔ u = w ∧ target = none := by
  rw [failedTree, linkRamfile_eq hw hold hnew, linkAt, hd]
  cases target <;> simp

/-- **The second half of a rename does not fail**: the old name leads to the ramfile, which counts
two links at least. -/
theorem unlinkRamfile_of_link (h : IsTree v) (hl : Linked v)
    (hlink : v.linkRamfile oldpath newpath = some (w, 0)) :
    ∃ u, w.unlinkRamfile oldpath = some (u, 0) := by
  rcases linkRamfile_spec hlink with ⟨-, hx⟩ | ⟨r, u, target, hw, hold, hnew, hd, hu⟩
  · cases hx
  rcases hu with ⟨-, hx⟩ | ⟨q, name, rfl, hw', -⟩
  · cases hx
  obtain ⟨hmounted, hext2⟩ := descend_flags hd
  obtain ⟨htree, htarget⟩ := h.descend h.root_lt hd
  obtain ⟨hq, hfit⟩ := htarget q name rfl
  obtain ⟨n, hn, hr⟩ := resolveRamfile_eq_some hold
  have hv : v.mounted = true := (Bool.and_eq_true_iff.mp hw).1
  rw [resolve_none hv] at hn hnew
  have hlt : n < v.size := (PlainChain.root.resolveFrom h hn).lt h
  -- the old name in the new tree
  have hkeeps : Keeps v (u.attach q (ramfileNode name r)) :=
    .node h hd hnew (newNode_name hfit false)
  have hsame : SameTree (u.attach q (ramfileNode name r)) w :=
    hw' ▸ .attachRamfile u (u.updRamfile r _) q name r rfl rfl rfl rfl
  have hres : w.resolveRamfile oldpath = some (some r) := by
    rw [resolveRamfile, resolve_none (hsame.mounted_eq.trans (hmounted.trans hv)),
      hsame.resolveFrom_eq, hkeeps.resolveFrom h .root hn]
    simp [hsame.ramfile_eq, hkeeps.grows.ramfile_eq hlt, hr]
  -- its links
  have hone : 1 ≤ (u.ramfile r).links := by
    have hgrows := Grows.descend h h.root_lt hd
    exact hl.descend h h.root_lt hd n r (hlt.trans_le hgrows.size_le)
      ((hgrows.ramfile_eq hlt).trans hr)
  have htwo : 1 < (w.ramfile r).links := by
    rw [hw', attachRamfile, ramfile_cachePath, ramfile_attach]
    simp only [updRamfile, update_self]
    exact lt_succ_of_le hone
  have hwritable : w.writable = true := by
    rw [← hw, writable, writable, hsame.mounted_eq, hsame.ext2_eq]
    exact congrArg₂ (fun a b => a && !b) hmounted hext2
  refine ⟨w.updRamfile r fun f => { f with links := f.links - 1 }, ?_⟩
  simp [unlinkRamfile, hwritable, hres, htwo]

lemma failedTree_rename (hr : Reached v) :
    v.failedTree (.rename oldpath newpath) = v.failedTree (.link oldpath newpath) := by
  cases hw : v.writable with
  | false => simp [failedTree, renameRamfile, linkRamfile, hw]
  | true =>
    obtain ⟨htree, hlinked⟩ := hr.of_writable hw
    rw [failedTree, failedTree, renameRamfile, hw]
    cases hlink : v.linkRamfile oldpath newpath with
    | none => rfl
    | some result =>
      obtain ⟨w, x⟩ := result
      by_cases hx : x = 0
      · subst hx
        obtain ⟨u, hun⟩ := unlinkRamfile_of_link htree hlinked hlink
        simp [hun]
      · simp [hx]

lemma noEffect_of_panic {c : Call} (h : v.failedTree c = none) : NoEffect v c := by
  intro w hw
  rw [h] at hw
  cases hw

lemma finds_of_panic (hd : v.descend rootNode (segmentsOf path) = none) : v.Finds path :=
  .inr ((descend_eq_none (segmented_segmentsOf path)).mp hd)

lemma noEffect_mkdir (h : IsTree v) (hw : v.writable = true) :
    NoEffect v (.mkdir path) ↔ EndsInName path ∨ v.Finds path := by
  cases hd : v.descend rootNode (segmentsOf path) with
  | none =>
    refine iff_of_true (noEffect_of_panic ?_) (.inr (finds_of_panic hd))
    simp [failedTree, mkdir, hw, hd]
  | some found =>
    obtain ⟨u, target⟩ := found
    rw [← same_of_descend hd]
    cases target with
    | none =>
      rw [or_iff_right ((target_of_descend hd).mp rfl)]
      simp [NoEffect, failedTree_mkdir hw hd, eq_comm]
    | some t =>
      refine iff_of_true (fun w hfailed => ?_) (.inl ?_)
      · obtain ⟨rfl, htaken⟩ := (failedTree_mkdir hw hd).mp hfailed
        exact descend_taken h h.root_lt hd (htaken t.1 t.2 rfl)
      · exact not_not.mp ((target_of_descend hd).not.mp (by simp))

lemma noEffect_create (h : IsTree v) (hw : v.writable = true) :
    NoEffect v (.create path room) ↔ EndsInName path ∧ room = true ∨ v.Finds path := by
  cases hd : v.descend rootNode (segmentsOf path) with
  | none =>
    refine iff_of_true (noEffect_of_panic ?_) (.inr (finds_of_panic hd))
    simp [failedTree, createRamfile, hw, hd]
  | some found =>
    obtain ⟨u, target⟩ := found
    rw [← same_of_descend hd]
    cases target with
    | none =>
      rw [or_iff_right fun hends => (target_of_descend hd).mp rfl hends.1]
      simp [NoEffect, failedTree_create hw hd, eq_comm]
    | some t =>
      have hends : EndsInName path := not_not.mp ((target_of_descend hd).not.mp (by simp))
      cases room with
      | true =>
        refine iff_of_true (fun w hfailed => ?_) (.inl ⟨hends, rfl⟩)
        obtain ⟨rfl, hcause⟩ := (failedTree_create hw hd).mp hfailed
        have htaken : u.findChild t.1 t.2 ≠ none := by simpa using hcause t.1 t.2 rfl
        exact descend_taken h h.root_lt hd htaken
      | false => simp [NoEffect, failedTree_create hw hd, eq_comm]

lemma noEffect_link (hw : v.writable = true) :
    NoEffect v (.link oldpath newpath) ↔
      ((∃ r, v.resolveRamfile oldpath = some (some r)) → v.resolve none newpath = some none →
        EndsInName newpath ∨ v.Finds newpath) := by
  by_cases hpre : (∃ r, v.resolveRamfile oldpath = some (some r)) ∧
      v.resolve none newpath = some none
  · obtain ⟨⟨r, hold⟩, hnew⟩ := hpre
    rw [forall_prop_of_true ⟨r, hold⟩, forall_prop_of_true hnew]
    cases hd : v.descend rootNode (segmentsOf newpath) with
    | none =>
      refine iff_of_true (noEffect_of_panic ?_) (.inr (finds_of_panic hd))
      simp [failedTree, linkRamfile_eq hw hold hnew, linkAt, hd]
    | some found =>
      obtain ⟨u, target⟩ := found
      rw [← same_of_descend hd, or_iff_not_imp_left, ← target_of_descend hd]
      simp [NoEffect, failedTree_link hw hold hnew hd, eq_comm]
  · refine iff_of_true (fun w hfailed => ?_) fun hold hnew => absurd ⟨hold, hnew⟩ hpre
    -- a link that is refused before its walk
    rw [failedTree, bind_eq_some_iff] at hfailed
    obtain ⟨⟨u, x⟩, hlink, hu⟩ := hfailed
    rcases linkRamfile_spec hlink with ⟨rfl, rfl⟩ | ⟨r, _, _, -, hold, hnew, -⟩
    · simpa [eq_comm] using hu
    · exact absurd ⟨⟨r, hold⟩, hnew⟩ hpre

end Calls

/-- **Failed calls.**  In every reachable tree a call that fails has no effect if and only if it is
one that leaves nothing behind. -/
theorem no_effect_iff (hr : Reached v) (c : Call) : NoEffect v c ↔ LeavesNothing v c := by
  cases hw : v.writable with
  | false =>
    refine iff_of_true ?_ ?_
    · intro w h
      cases c <;>
        simp_all [failedTree, mkdir, createRamfile, linkRamfile, renameRamfile]
    · cases c <;> simp [LeavesNothing, hw]
  | true =>
    obtain ⟨htree, -⟩ := hr.of_writable hw
    cases c with
    | mkdir path =>
      rw [noEffect_mkdir htree hw, LeavesNothing, forall_prop_of_true hw]
    | create path room =>
      rw [noEffect_create htree hw, LeavesNothing, forall_prop_of_true hw]
    | link oldpath newpath =>
      rw [noEffect_link hw, LeavesNothing, forall_prop_of_true hw]
    | rename oldpath newpath =>
      rw [NoEffect, failedTree_rename hr, LeavesNothing, forall_prop_of_true hw]
      exact noEffect_link hw
    | unlink path => exact iff_of_true (noEffect_of_panic rfl) trivial
    | path n => exact iff_of_true (noEffect_of_panic rfl) trivial

/-- A name that is taken, in a directory that exists. -/
theorem no_effect_taken : NoEffect emptyTree (.mkdir (text "/dev/null")) := by
  refine (no_effect_iff (.boot initRamfs_nil) _).mpr fun _ => .inl ?_
  exact ⟨⟨text "null", true⟩, by decide, rfl⟩

/-- `mkdir("/a/")` fails behind the directory it has made. -/
theorem mkdir_slash_leaves_directory :
    Reached emptyTree ∧
      ∃ w, emptyTree.failedTree (.mkdir (text "/a/")) = some w ∧
        emptyTree.resolve none (text "/a") = some none ∧
        w.resolve none (text "/a") = some (some emptyTree.size) := by
  have hsome : emptyTree.failedTree (.mkdir (text "/a/")) ≠ none := by decide +kernel
  exact ⟨.boot initRamfs_nil, _, (getD_of_ne_none hsome bare).symm, by decide +kernel,
    by decide +kernel⟩

end OpenHobbyOS.Vfs
