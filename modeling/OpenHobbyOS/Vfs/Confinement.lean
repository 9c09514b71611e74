/-
# Confinement to `/tmp`

`open`, `link`, `rename` and `unlink` check the text of a path for the prefix `/tmp/`.  The
functions that make nodes take the path literally, so they stay below `/tmp`.  `vfs_resolve` leaves
it at `..`, but what it finds is changed only if it is a ramfile, and no ramfile is made elsewhere.
-/
import OpenHobbyOS.Vfs.Agreement
import OpenHobbyOS.Vfs.Ramfiles

namespace OpenHobbyOS

open Lib Paging BitVec Function List Option Nat

/-- The name of `/tmp`. -/
def tmpName : List U8 := text "tmp"

namespace Vfs

variable {v w u : Vfs} {p q n c : NodeId} {nd : VfsNode} {segs : List Segment} {r : RamfileId}

/-- A node is the root's child `tmp` or a descendant of it. -/
inductive UnderTmp (v : Vfs) : NodeId → Prop
  | tmp {n : NodeId} (hparent : (v.node n).parent = some rootNode)
      (hname : (v.node n).name = tmpName) : UnderTmp v n
  | descendant {p n : NodeId} (hparent : (v.node n).parent = some p) (hp : UnderTmp v p) : UnderTmp v n

lemma Grows.underTmp_iff (h : Grows v w) (htree : IsTree v) (hn : n < v.size) :
    UnderTmp w n ↔ UnderTmp v n := by
  constructor
  · intro hu
    induction hu with
    | tmp hparent hname => exact .tmp (h.parent_eq hn ▸ hparent) (h.name_eq hn ▸ hname)
    | descendant hparent hp ih =>
      rw [h.parent_eq hn] at hparent
      exact .descendant hparent (ih ((htree.parent_lt hn hparent).trans hn))
  · intro hu
    induction hu with
    | tmp hparent hname => exact .tmp ((h.parent_eq hn).trans hparent) ((h.name_eq hn).trans hname)
    | descendant hparent hp ih =>
      exact .descendant ((h.parent_eq hn).trans hparent) (ih ((htree.parent_lt hn hparent).trans hn))

/-! ## What is kept outside -/

/-- Every node outside `/tmp` keeps its name, parent, kind and children, except that the root may
get the child `tmp`; and no new node is outside. -/
structure TreeKept (v w : Vfs) : Prop where
  grows : Grows v w
  children_kept : ∀ n, n < v.size → ¬ UnderTmp v n →
    (w.node n).children = (v.node n).children ∨
      n = rootNode ∧ v.findChild rootNode tmpName = none ∧
        ∃ c, (w.node n).children = c :: (v.node n).children ∧ (w.node c).name = tmpName
  new_under : ∀ n, v.size ≤ n → n < w.size → UnderTmp w n

/-- The nodes outside keep their content too: a ramfile, if they had one, with its bytes and its
link count. -/
structure OutsideKept (v w : Vfs) : Prop extends TreeKept v w where
  ramfile_kept : ∀ n, n < v.size → ¬ UnderTmp v n → ∀ r, (v.node n).ramfile = some r →
    w.ramfile r = v.ramfile r

namespace TreeKept

lemma of_sameTree (h : SameTree v w) : TreeKept v w :=
  ⟨.of_sameTree h, fun n _ _ => .inl (h.children_eq n),
    fun n hle hlt => absurd hlt (by rw [h.size_eq]; exact hle.not_gt)⟩

lemma refl (v : Vfs) : TreeKept v v := of_sameTree (.refl v)

lemma attach_under (nd : VfsNode) (htree : IsTree v) (hp : p < v.size) (hu : UnderTmp v p) :
    TreeKept v (v.attach p nd) ∧ UnderTmp (v.attach p nd) v.size := by
  have hgrows : Grows v (v.attach p nd) := .attach hp
  have hnew : UnderTmp (v.attach p nd) v.size := by
    refine .descendant ?_ ((hgrows.underTmp_iff htree hp).mpr hu)
    rw [node_attach_new _ hp]
  refine ⟨⟨hgrows, fun n hn hout => .inl ?_, fun n hle hlt => ?_⟩, hnew⟩
  · have hnp : n ≠ p := by
      rintro rfl
      exact hout hu
    rw [node_attach_of_ne _ hp hnp hn.ne]
  · rwa [show n = v.size from le_antisymm (le_of_lt_succ hlt) hle]

lemma attach_tmp (nd : VfsNode) (htree : IsTree v) (hname : nd.name = tmpName)
    (hfree : v.findChild rootNode tmpName = none) :
    TreeKept v (v.attach rootNode nd) ∧ UnderTmp (v.attach rootNode nd) v.size := by
  have hroot := htree.root_lt
  have hnew : UnderTmp (v.attach rootNode nd) v.size := by
    refine .tmp ?_ ?_ <;> rw [node_attach_new _ hroot]
    exact hname
  refine ⟨⟨.attach hroot, fun n hn _ => ?_, fun n hle hlt => ?_⟩, hnew⟩
  · by_cases hn0 : n = rootNode
    · refine .inr ⟨hn0, hfree, v.size, ?_, ?_⟩
      · rw [hn0, node_attach_parent _ hroot]
      · rw [node_attach_new _ hroot]
        exact hname
    · exact .inl (by rw [node_attach_of_ne _ hroot hn0 hn.ne])
  · rwa [show n = v.size from le_antisymm (le_of_lt_succ hlt) hle]

/-- A second child `tmp` is never needed, so one exception is enough for a whole run. -/
theorem trans (htree : IsTree v) (htree' : IsTree w) (h : TreeKept v w) (h' : TreeKept w u) :
    TreeKept v u where
  grows := h.grows.trans h'.grows
  children_kept n hn hout := by
    have hn' : n < w.size := hn.trans_le h.grows.size_le
    have hout' : ¬ UnderTmp w n := fun hu => hout ((h.grows.underTmp_iff htree hn).mp hu)
    rcases h.children_kept n hn hout with hsame | ⟨rfl, hfree, c, hc, hname⟩
    · rcases h'.children_kept n hn' hout' with hsame' | ⟨rfl, hfree, c, hc, hname⟩
      · exact .inl (hsame'.trans hsame)
      · refine .inr ⟨rfl, findChild_eq_none.mpr fun d hd => ?_, c, by rw [hc, hsame], hname⟩
        rw [← h.grows.name_eq (htree.children_lt hn hd)]
        exact findChild_eq_none.mp hfree d (hsame ▸ hd)
    · -- the root has its `tmp` already
      have hcmem : c ∈ (w.node rootNode).children := hc ▸ mem_cons_self
      rcases h'.children_kept rootNode hn' hout' with hsame' | ⟨-, hfree', -⟩
      · refine .inr ⟨rfl, hfree, c, hsame'.trans hc, ?_⟩
        rw [h'.grows.name_eq (htree'.children_lt hn' hcmem)]
        exact hname
      · exact absurd hname (findChild_eq_none.mp hfree' c hcmem)
  new_under n hle hlt := by
    by_cases hw : n < w.size
    · exact (h'.grows.underTmp_iff htree' hw).mpr (h.new_under n hle hw)
    · exact h'.new_under n (Nat.le_of_not_lt hw) hlt

end TreeKept

variable {target : Option (NodeId × List U8)} {path : List U8}

/-! ## Walks below `/tmp` -/

lemma TreeKept.descend (htree : IsTree v) (hp : p < v.size) (hu : UnderTmp v p)
    (hd : v.descend p segs = some (w, target)) :
    TreeKept v w ∧ ∀ q name, target = some (q, name) → q < w.size ∧ UnderTmp w q := by
  have hrule := descend_rule
    (I := fun u q _ => IsTree u ∧ q < u.size ∧ UnderTmp u q ∧ TreeKept v u)
    (fun {u q seg rest c} hI _ hc => by
      obtain ⟨ht, hq, hqu, hk⟩ := hI
      have hmem := (findChild_eq_some hc).1
      exact ⟨ht, ht.children_lt hq hmem, .descendant (ht.parent_eq hq hmem) hqu, hk⟩)
    (fun {u q seg rest} hI _ _ _ => by
      obtain ⟨ht, hq, hqu, hk⟩ := hI
      obtain ⟨hattach, hnew⟩ := attach_under (newNode seg.name true) ht hq hqu
      exact ⟨ht.attach hq rfl, lt_succ_self _, hnew, hk.trans htree ht hattach⟩)
    ⟨htree, hp, hu, .refl v⟩ hd
  rcases hrule with ⟨rfl, q, hI⟩ | ⟨q, seg, rest, rfl, -, -, hI⟩
  · exact ⟨hI.2.2.2, nofun⟩
  · refine ⟨hI.2.2.2, fun q' name heq => ?_⟩
    rw [some.injEq, Prod.mk.injEq] at heq
    exact heq.1 ▸ ⟨hI.2.1, hI.2.2.1⟩

lemma segmentsOf_tmp (h : pathIsInTmp path = true) :
    ∃ last rest, segmentsOf path = ⟨tmpName, last⟩ :: rest := by
  obtain ⟨rest, rfl, hrest⟩ : ∃ rest, path = slash :: (tmpName ++ rest) ∧
      (rest = [] ∨ rest.head? = some slash) := by
    rw [pathIsInTmp, Bool.or_eq_true, isPrefixOf_iff_prefix, beq_iff_eq] at h
    rcases h with ⟨rest, rfl⟩ | rfl
    · exact ⟨slash :: rest, by rfl, .inr rfl⟩
    · exact ⟨[], by decide, .inl rfl⟩
  have hseg := pathSegment_spell (a := tmpName) (by decide) (by decide) hrest
  rw [segmentsOf, length_cons, pathSegments, hseg]
  exact ⟨_, _, rfl⟩

/-- A walk along a path in `/tmp` stays there, or ends at the root with the name `tmp`. -/
theorem TreeKept.descend_tmp (htree : IsTree v) (htmp : pathIsInTmp path = true)
    (hd : v.descend rootNode (segmentsOf path) = some (w, target)) :
    TreeKept v w ∧ ∀ q name, target = some (q, name) →
      q < w.size ∧ (UnderTmp w q ∨
        w = v ∧ q = rootNode ∧ name = tmpName ∧ segmentsOf path = [⟨tmpName, true⟩]) := by
  obtain ⟨last, rest, hsegs⟩ := segmentsOf_tmp htmp
  have hsg : Segmented (⟨tmpName, last⟩ :: rest) := hsegs ▸ segmented_segmentsOf path
  rw [hsegs, Vfs.descend, if_neg (show ¬ vfsNameMax ≤ tmpName.length by decide)] at hd
  cases last with
  | true =>
    obtain rfl : rest = [] := hsg.2.2.1 rfl
    rw [if_pos rfl, some.injEq, Prod.mk.injEq] at hd
    obtain ⟨rfl, rfl⟩ := hd
    refine ⟨.refl v, fun q name heq => ?_⟩
    rw [some.injEq, Prod.mk.injEq] at heq
    exact heq.1 ▸ ⟨htree.root_lt, .inr ⟨rfl, rfl, heq.2.symm, hsegs⟩⟩
  | false =>
    rw [if_neg (by simp), findOrCreateDirectory] at hd
    cases hfind : v.findChild rootNode tmpName with
    | some c =>
      rw [hfind] at hd
      obtain ⟨hmem, hname⟩ := findChild_eq_some hfind
      have hc : UnderTmp v c := .tmp (htree.parent_eq htree.root_lt hmem) hname
      obtain ⟨hk, htarget⟩ := descend htree (htree.children_lt htree.root_lt hmem) hc hd
      exact ⟨hk, fun q name heq => ⟨(htarget q name heq).1, .inl (htarget q name heq).2⟩⟩
    | none =>
      rw [hfind] at hd
      obtain ⟨hattach, hnew⟩ := attach_tmp (newNode tmpName true) htree (by decide) hfind
      have htree' : IsTree (v.attach rootNode (newNode tmpName true)) :=
        htree.attach htree.root_lt rfl
      obtain ⟨hk, htarget⟩ := descend htree' (lt_succ_self _) hnew hd
      exact ⟨hattach.trans htree htree' hk,
        fun q name heq => ⟨(htarget q name heq).1, .inl (htarget q name heq).2⟩⟩

/-- **A call on a path in `/tmp` changes nothing outside.** -/
theorem TreeKept.makes (htree : IsTree v) (htmp : pathIsInTmp path = true) (hm : Makes v path w) :
    TreeKept v w := by
  cases hm with
  | nothing hsame => exact of_sameTree hsame
  | directories u target hd hsame =>
    exact (descend_tmp htree htmp hd).1.trans htree (htree.descend htree.root_lt hd).1
      (of_sameTree hsame)
  | node u q name nd hd hfree hnew hname hsame =>
    obtain ⟨htree', htarget'⟩ := htree.descend htree.root_lt hd
    obtain ⟨hk, htarget⟩ := descend_tmp htree htmp hd
    obtain ⟨hq, hplace⟩ := htarget q name rfl
    rw [newNode_name (htarget' q name rfl).2] at hname
    have hattach : TreeKept u (u.attach q nd) := by
      rcases hplace with hunder | ⟨rfl, rfl, rfl, hsegs⟩
      · exact (attach_under nd htree' hq hunder).1
      · refine (attach_tmp nd htree' hname ?_).1
        -- the path is `/tmp` itself, and `vfs_resolve` takes it literally
        rcases hfree with hfree | hfree
        · exact hfree
        · rw [hsegs] at hfree
          exact Missing.findChild_eq (.inl hfree) (by decide)
    exact hk.trans htree htree' (hattach.trans htree' (htree'.attach hq hnew.1) (of_sameTree hsame))

/-! ## Ramfiles -/

/-- Ramfiles are named below `/tmp` only, and their buffers have proper sizes. -/
structure Confined (v : Vfs) : Prop where
  tree : IsTree v
  ramfile_under : ∀ {n r}, n < v.size → (v.node n).ramfile = some r →
    UnderTmp v n ∧ r < v.ramfiles
  capacity : ∀ {r}, r < v.ramfiles → IsCapacity (v.ramfile r).capacity

namespace Confined

variable {newpath oldpath path : List U8} {x : ℤ}

lemma outsideKept (h : Confined v) (hk : TreeKept v w) : OutsideKept v w :=
  ⟨hk, fun _ hn hout _ hr => absurd (h.ramfile_under hn hr).1 hout⟩

lemma congr (h : Confined v) (hs : SameTree v w) (hrams : w.ramfiles = v.ramfiles)
    (hcap : ∀ r, r < v.ramfiles → IsCapacity (w.ramfile r).capacity) : Confined w where
  tree := h.tree.congr hs
  ramfile_under {n r} hn hr := by
    have hn' : n < v.size := hs.size_eq ▸ hn
    obtain ⟨hu, hlt⟩ := h.ramfile_under hn' (hs.ramfile_eq n ▸ hr)
    exact ⟨((Grows.of_sameTree hs).underTmp_iff h.tree hn').mpr hu, hrams ▸ hlt⟩
  capacity hr := hcap _ (hrams ▸ hr)

lemma cachePath (h : Confined v) (n : NodeId) : Confined (v.cachePath n) :=
  h.congr (.cachePath v n) rfl fun _ => h.capacity

lemma updRamfile (h : Confined v) {f : Ramfile → Ramfile}
    (hf : IsCapacity (v.ramfile r).capacity → IsCapacity (f (v.ramfile r)).capacity) :
    Confined (v.updRamfile r f) := by
  refine h.congr (.updRamfile v r f) rfl fun s hs => ?_
  change IsCapacity (update v.ramfile r (f (v.ramfile r)) s).capacity
  rw [update_apply]
  split_ifs with heq
  · exact hf (h.capacity (heq ▸ hs))
  · exact h.capacity hs

lemma newRamfile (h : Confined v) : Confined v.newRamfile where
  tree := h.tree.congr (.newRamfile v)
  ramfile_under {n r} hn hr := by
    obtain ⟨hu, hlt⟩ := h.ramfile_under hn hr
    exact ⟨((Grows.of_sameTree (.newRamfile v)).underTmp_iff h.tree hn).mpr hu,
      lt_succ_of_lt hlt⟩
  capacity {r} hr := by
    change IsCapacity (update v.ramfile v.ramfiles _ r).capacity
    rw [update_apply]
    split_ifs with heq
    · exact ⟨12, le_rfl, by decide, by decide⟩
    · exact h.capacity (lt_of_le_of_ne (le_of_lt_succ hr) heq)

lemma attach (h : Confined v) (hp : p < v.size) (hnd : nd.children = [])
    (hram : ∀ r, nd.ramfile = some r →
      r < v.ramfiles ∧ (UnderTmp v p ∨ p = rootNode ∧ nd.name = tmpName)) :
    Confined (v.attach p nd) where
  tree := h.tree.attach hp hnd
  ramfile_under {n r} hn hr := by
    have hgrows : Grows v (v.attach p nd) := .attach hp
    by_cases hns : n = v.size
    · subst hns
      have hnode : (v.attach p nd).node v.size = { nd with parent := some p } :=
        node_attach_new _ hp
      rw [hnode] at hr
      obtain ⟨hlt, hplace⟩ := hram r hr
      refine ⟨?_, hlt⟩
      rcases hplace with hu | ⟨rfl, hname⟩
      · exact .descendant (by rw [hnode]) ((hgrows.underTmp_iff h.tree hp).mpr hu)
      · exact .tmp (by rw [hnode]) (by rw [hnode]; exact hname)
    · have hlt : n < v.size := lt_of_le_of_ne (le_of_lt_succ hn) hns
      rw [hgrows.ramfile_eq hlt] at hr
      obtain ⟨hu, hr'⟩ := h.ramfile_under hlt hr
      exact ⟨(hgrows.underTmp_iff h.tree hlt).mpr hu, hr'⟩
  capacity hr := h.capacity hr

lemma descend (h : Confined v) (hp : p < v.size) {target : Option (NodeId × List U8)}
    (hd : v.descend p segs = some (w, target)) :
    Confined w ∧ w.ramfiles = v.ramfiles :=
  h.tree.descend_keeps (P := fun u => Confined u ∧ u.ramfiles = v.ramfiles) hp hd ⟨h, rfl⟩
    fun _ hq _ _ hu => ⟨hu.1.attach hq rfl nofun, hu.2⟩

lemma mkdir (h : Confined v) (hm : v.mkdir path = some (w, x)) :
    Confined w := by
  rcases mkdir_spec hm with ⟨rfl, -⟩ | ⟨u, target, -, hd, hu⟩
  · exact h
  have hconf := (h.descend h.tree.root_lt hd).1
  rcases hu with ⟨rfl, -⟩ | ⟨q, name, rfl, -, rfl, -⟩
  · exact hconf
  · exact hconf.attach ((h.tree.descend h.tree.root_lt hd).2 q name rfl).1 rfl nofun

lemma attachRamfile (h : Confined v) (hp : p < v.size) {name : List U8}
    (hfit : name.length < vfsNameMax) (hr : r < v.ramfiles)
    (hplace : UnderTmp v p ∨ p = rootNode ∧ name = tmpName) :
    Confined (v.attachRamfile p name r) := by
  have hname : (ramfileNode name r).name = name := newNode_name hfit false
  refine (h.attach hp rfl fun s hs => ?_).cachePath v.size
  obtain rfl : r = s := some.inj hs
  exact ⟨hr, by rwa [hname]⟩

lemma createRamfile (h : Confined v) (htmp : pathIsInTmp path = true) {room : Bool}
    {x : Option NodeId} (hc : v.createRamfile path room = some (w, x)) :
    Confined w := by
  rcases createRamfile_spec hc with ⟨rfl, -⟩ | ⟨u, target, -, hd, hu⟩
  · exact h
  have hconf := (h.descend h.tree.root_lt hd).1
  rcases hu with ⟨rfl, -⟩ | ⟨q, name, rfl, -, rfl, -⟩
  · exact hconf
  · obtain ⟨hq, hfit⟩ := (h.tree.descend h.tree.root_lt hd).2 q name rfl
    have hplace := ((TreeKept.descend_tmp h.tree htmp hd).2 q name rfl).2
    refine hconf.newRamfile.attachRamfile hq hfit (lt_succ_self _) ?_
    refine hplace.imp (fun hu => ?_) fun h => ⟨h.2.1, h.2.2.1⟩
    exact ((Grows.of_sameTree (.newRamfile u)).underTmp_iff hconf.tree hq).mpr hu

lemma ramfile_lt (h : Confined v) (hr : v.resolveRamfile path = some (some r)) :
    r < v.ramfiles := by
  obtain ⟨n, hn, hram⟩ := resolveRamfile_eq_some hr
  exact (h.ramfile_under (h.tree.resolve_lt (by simp) hn) hram).2

lemma linkRamfile (h : Confined v) (htmp : pathIsInTmp newpath = true)
    (hl : v.linkRamfile oldpath newpath = some (w, x)) : Confined w := by
  rcases linkRamfile_spec hl with ⟨rfl, -⟩ | ⟨r, u, target, -, hold, -, hd, hu⟩
  · exact h
  obtain ⟨hconf, hrams⟩ := h.descend h.tree.root_lt hd
  rcases hu with ⟨rfl, -⟩ | ⟨q, name, rfl, rfl, -⟩
  · exact hconf
  · obtain ⟨hq, hfit⟩ := (h.tree.descend h.tree.root_lt hd).2 q name rfl
    have hplace := ((TreeKept.descend_tmp h.tree htmp hd).2 q name rfl).2
    refine (hconf.updRamfile id).attachRamfile hq hfit (hrams ▸ h.ramfile_lt hold) ?_
    refine hplace.imp (fun hu => ?_) fun h => ⟨h.2.1, h.2.2.1⟩
    exact ((Grows.of_sameTree (.updRamfile u r _)).underTmp_iff hconf.tree hq).mpr hu

lemma unlinkRamfile (h : Confined v) (hu : v.unlinkRamfile path = some (w, x)) : Confined w := by
  rcases unlinkRamfile_spec hu with ⟨rfl, -⟩ | ⟨r, -, -, rfl, -⟩
  · exact h
  · exact h.updRamfile id

lemma renameRamfile (h : Confined v) (htmp : pathIsInTmp newpath = true)
    (hr : v.renameRamfile oldpath newpath = some (w, x)) : Confined w := by
  rcases renameRamfile_spec hr with ⟨rfl, -⟩ | ⟨u, y, hl, ⟨rfl, -⟩ | ⟨-, hun⟩⟩
  · exact h
  · exact h.linkRamfile htmp hl
  · exact (h.linkRamfile htmp hl).unlinkRamfile hun

end Confined

variable {capacity offset required : ℕ} {bytes : List U8}

/-! ## Writes -/

/-- A write of fewer than 2³¹ bytes at an offset up to 2³¹ stays in its buffer, and so does the
offset. -/
lemma Confined.writeRamfile (h : Confined v) (hn : n < v.size) (hoff : offset ≤ 2 ^ 31)
    (hlen : bytes.length < 2 ^ 31) {room : Bool} {x : ℤ}
    (hw : v.writeRamfile n offset bytes room = some (w, x)) :
    Confined w ∧ SameTree v w ∧ (0 < x → x = bytes.length ∧ offset + bytes.length ≤ 2 ^ 31) := by
  rw [Vfs.writeRamfile] at hw
  cases hr : (v.node n).ramfile with
  | none =>
    simp only [hr, some.injEq, Prod.mk.injEq] at hw
    obtain ⟨rfl, rfl⟩ := hw
    exact ⟨h, .refl _, fun hpos => absurd hpos (by decide)⟩
  | some r =>
    simp only [hr] at hw
    by_cases hempty : bytes = []
    · rw [if_pos hempty, some.injEq, Prod.mk.injEq] at hw
      obtain ⟨rfl, rfl⟩ := hw
      exact ⟨h, .refl _, fun hpos => absurd hpos (by decide)⟩
    rw [if_neg hempty] at hw
    obtain ⟨capacity, hcap, hw⟩ := bind_eq_some_iff.mp hw
    rw [mod_eq_of_lt (by omega)] at hcap hw
    obtain ⟨hproper, hle⟩ := capacityFor_spec (h.capacity (h.ramfile_under hn hr).2) hcap
    by_cases hroom : (v.ramfile r).capacity < offset + bytes.length ∧ (!room) = true
    · rw [if_pos hroom, some.injEq, Prod.mk.injEq] at hw
      obtain ⟨rfl, rfl⟩ := hw
      exact ⟨h, .refl _, fun hpos => absurd hpos (by decide)⟩
    rw [if_neg hroom, if_neg (not_lt.mpr hle), some.injEq, Prod.mk.injEq] at hw
    obtain ⟨rfl, rfl⟩ := hw
    refine ⟨h.updRamfile fun _ => hproper, .updRamfile v r _, fun _ => ⟨rfl, ?_⟩⟩
    obtain ⟨k, -, hk, rfl⟩ := hproper
    exact hle.trans (Nat.pow_le_pow_right (by decide) hk)

/-- The stores of a write run past the ramfile's buffer. -/
def overruns (v : Vfs) (n : NodeId) (offset : ℕ) (bytes : List U8) : Prop :=
  ∃ r capacity, (v.node n).ramfile = some r ∧
    capacityFor (v.ramfile r) ((offset + bytes.length) % 2 ^ 32) = some capacity ∧
      capacity < offset + bytes.length

lemma Confined.not_overruns (h : Confined v) (hn : n < v.size) (hoff : offset ≤ 2 ^ 31)
    (hlen : bytes.length < 2 ^ 31) : ¬ v.overruns n offset bytes := by
  rintro ⟨r, capacity, hr, hcap, hlt⟩
  rw [mod_eq_of_lt (by omega)] at hcap
  exact absurd hlt (not_lt.mpr (capacityFor_spec (h.capacity (h.ramfile_under hn hr).2) hcap).2)

end Vfs

/-! ## File calls -/

namespace FileSystem

open Vfs

variable {s s' : FileSystem} {t : ℕ} {n : NodeId}

/-- The tree is confined, tasks refer to nodes of it, and files are open at offsets up to
2³¹. -/
structure Safe (s : FileSystem) : Prop where
  confined : Confined s.vfs
  node_lt : ∀ {t fd n}, ((s.task t).fds fd).node = some n → n < s.vfs.size
  cwd_lt : ∀ {t n}, (s.task t).cwd = some n → n < s.vfs.size
  offset_le : ∀ {t fd}, ((s.task t).fds fd).kind = .file →
    ((s.task t).fds fd).offset.toNat ≤ 2 ^ 31

namespace Safe

lemma withVfs (h : Safe s) {w : Vfs} (hw : Confined w) (hsize : s.vfs.size ≤ w.size) :
    Safe { s with vfs := w } :=
  ⟨hw, fun hn => (h.node_lt hn).trans_le hsize, fun hn => (h.cwd_lt hn).trans_le hsize, h.offset_le⟩

lemma setFd (h : Safe s) {fd : FdId} {f : TaskFd} (hnode : ∀ n, f.node = some n → n < s.vfs.size)
    (hoff : f.kind = .file → f.offset.toNat ≤ 2 ^ 31) : Safe (s.setFd t fd f) := by
  have hfds : ∀ t' fd', (((s.setFd t fd f).task t').fds fd') =
      if t' = t ∧ fd' = fd then f else (s.task t').fds fd' := by
    intro t' fd'
    by_cases ht : t' = t
    · subst ht
      by_cases hfd : fd' = fd <;> simp [FileSystem.setFd, hfd]
    · simp [FileSystem.setFd, ht]
  refine ⟨h.confined, fun {t' fd' n} hn => ?_, fun {t' n} hn => ?_, fun {t' fd'} hk => ?_⟩
  · rw [hfds] at hn
    split_ifs at hn
    · exact hnode n hn
    · exact h.node_lt hn
  · have hcwd : ((s.setFd t fd f).task t').cwd = (s.task t').cwd := by
      by_cases ht : t' = t
      · subst ht
        simp [FileSystem.setFd]
      · simp [FileSystem.setFd, ht]
    exact h.cwd_lt (hcwd ▸ hn)
  · rw [hfds] at hk ⊢
    split_ifs at hk ⊢
    · exact hoff hk
    · exact h.offset_le hk

lemma taskInstallFd (h : Safe s) (kind : FdKind) (hn : n < s.vfs.size) (flags : U32) :
    Safe (s.taskInstallFd t kind n flags).1 := by
  rw [FileSystem.taskInstallFd]
  cases Kernel.allocFd (s.task t).fds with
  | none => exact h
  | some fd =>
    refine h.setFd (fun m hm => ?_) fun _ => by simp
    exact some.inj hm ▸ hn

end Safe

variable {v w : Vfs} {flags : U32} {dirfd x : ℤ} {bytes newpath oldpath path : List U8}
    {room : Bool}

lemma vfs_taskInstallFd (s : FileSystem) (t : ℕ) (kind : FdKind) (n : NodeId) (flags : U32) :
    (s.taskInstallFd t kind n flags).1.vfs = s.vfs := by
  rw [taskInstallFd]
  cases Kernel.allocFd (s.task t).fds <;> rfl

/-- A step that keeps the state safe and the nodes outside `/tmp`. -/
def Keeps (s s' : FileSystem) : Prop := Safe s' ∧ TreeKept s.vfs s'.vfs

lemma Safe.keeps_refl (h : Safe s) : Keeps s s := ⟨h, .refl _⟩

lemma Safe.keeps_vfs (h : Safe s) (hw : Confined w) (hk : TreeKept s.vfs w) :
    Keeps s { s with vfs := w } :=
  ⟨h.withVfs hw hk.grows.size_le, hk⟩

lemma Safe.openNode (h : Safe s) (hn : n < s.vfs.size) (ho : s.openNode t n flags = (s', x)) :
    Keeps s s' := by
  have hsame := sameTree_path s.vfs n
  have hpath : Confined (s.vfs.path n).1 := by
    refine h.confined.congr hsame ?_ fun r hr => ?_ <;> rw [Vfs.path] <;> split_ifs
    · rfl
    · rfl
    · exact h.confined.capacity hr
    · exact h.confined.capacity hr
  let u : FileSystem := { s with vfs := (s.vfs.path n).1 }
  have hs : Safe u := h.withVfs hpath hsame.size_eq.ge
  have hn' : n < u.vfs.size := hsame.size_eq ▸ hn
  have hkept : TreeKept s.vfs u.vfs := .of_sameTree hsame
  have hinstall : ∀ kind, Keeps s (u.taskInstallFd t kind n flags).1 := fun kind =>
    ⟨hs.taskInstallFd kind hn' flags, (vfs_taskInstallFd u t kind n flags).symm ▸ hkept⟩
  suffices hkeeps : Keeps s (s.openNode t n flags).1 by rwa [ho] at hkeeps
  rw [FileSystem.openNode]
  cases deviceKind (s.vfs.path n).2 with
  | some kind => exact hinstall kind
  | none =>
    simp only
    split_ifs
    · exact ⟨hs, hkept⟩
    · exact ⟨hs, hkept⟩
    · exact hinstall .dir
    · exact hinstall .file

lemma Safe.taskResolveDirfd_lt (h : Safe s) (hd : s.taskResolveDirfd t dirfd = some n) :
    n < s.vfs.size := by
  rw [taskResolveDirfd] at hd
  split_ifs at hd
  · cases hcwd : (s.task t).cwd with
    | none =>
      rw [hcwd, some.injEq] at hd
      exact hd ▸ h.confined.tree.root_lt
    | some b =>
      rw [hcwd, some.injEq] at hd
      exact hd ▸ h.cwd_lt hcwd
  · obtain ⟨fd, -, hfd⟩ := bind_eq_some_iff.mp hd
    split_ifs at hfd
    exact h.node_lt hfd

lemma Safe.taskOpenRelative (h : Safe s)
    (ho : s.taskOpenRelative t dirfd path flags room = some (s', x)) : Keeps s s' := by
  rw [FileSystem.taskOpenRelative] at ho
  by_cases hempty : path = []
  · rw [if_pos hempty, some.injEq, Prod.mk.injEq] at ho
    exact ho.1 ▸ h.keeps_refl
  rw [if_neg hempty] at ho
  cases hbase : s.taskResolveDirfd t dirfd with
  | none =>
    rw [hbase, some.injEq, Prod.mk.injEq] at ho
    exact ho.1 ▸ h.keeps_refl
  | some base =>
    rw [hbase] at ho
    obtain ⟨found, hfound, ho⟩ := bind_eq_some_iff.mp ho
    cases found with
    | some n =>
      by_cases hexcl : hasFlag flags oCreat ∧ hasFlag flags oExcl
      · simp only [if_pos hexcl, some.injEq, Prod.mk.injEq] at ho
        exact ho.1 ▸ h.keeps_refl
      · simp only [if_neg hexcl, some.injEq] at ho
        refine h.openNode (h.confined.tree.resolve_lt (fun b hb => ?_) hfound) ho
        exact some.inj hb ▸ h.taskResolveDirfd_lt hbase
    | none =>
      by_cases hcreate : hasFlag flags oCreat ∧ pathIsInTmp path
      · simp only [if_pos hcreate] at ho
        obtain ⟨⟨w, created⟩, hc, ho⟩ := map_eq_some_iff.mp ho
        have hw : Confined w := h.confined.createRamfile hcreate.2 hc
        have hk : TreeKept s.vfs w :=
          .makes h.confined.tree hcreate.2 (createRamfile_makes hc)
        obtain ⟨hs, -⟩ := h.keeps_vfs hw hk
        cases created with
        | none =>
          obtain ⟨rfl, -⟩ := Prod.mk.inj ho
          exact ⟨hs, hk⟩
        | some n =>
          obtain ⟨hs', hk'⟩ := hs.openNode (createRamfile_lt hc) ho
          exact ⟨hs', hk.trans h.confined.tree hw.tree hk'⟩
      · simp only [if_neg hcreate, some.injEq, Prod.mk.injEq] at ho
        exact ho.1 ▸ h.keeps_refl

lemma length_of_validate {base length : U32} (h : taskValidateUserRange base length = true) :
    length.toNat < 2 ^ 31 := by
  simp only [taskValidateUserRange, Bool.not_eq_true', Bool.or_eq_false_iff,
    decide_eq_false_iff_not] at h
  have hbase : userBase = 0x02000000#32 := rfl
  have hlimit : userLimit = 0x05000000#32 := rfl
  rw [hbase, hlimit] at h
  bv_omega

lemma Safe.writeFile (h : Safe s) {fd : FdId} (hn : ((s.task t).fds fd).node = some n)
    (hkind : ((s.task t).fds fd).kind = .file) (hlen : bytes.length < 2 ^ 31)
    (hw : s.writeFile t fd n bytes room = some (s', x)) :
    Keeps s s' := by
  obtain ⟨⟨w, written⟩, hwrite, hs'⟩ := map_eq_some_iff.mp hw
  obtain ⟨hconf, hsame, hpos⟩ :=
    h.confined.writeRamfile (h.node_lt hn) (h.offset_le hkind) hlen hwrite
  have hk : TreeKept s.vfs w := .of_sameTree hsame
  obtain ⟨hs, -⟩ := h.keeps_vfs hconf hk
  by_cases hwritten : 0 < written
  · simp only [if_pos hwritten, Prod.mk.injEq] at hs'
    obtain ⟨rfl, hbound⟩ := hpos hwritten
    refine hs'.1 ▸ ⟨hs.setFd (fun m hm => ?_) fun _ => ?_, hk⟩
    · exact hs.node_lt (t := t) hm
    · rw [ofInt_natCast, toNat_add, toNat_ofNat]
      omega
  · simp only [if_neg hwritten, Prod.mk.injEq] at hs'
    exact hs'.1 ▸ ⟨hs, hk⟩

lemma Safe.sysWrite (h : Safe s) {fd : ℤ} {buffer : U32} {other : ℤ}
    (hw : s.sysWrite t fd buffer bytes room other = some (s', x)) : Keeps s s' := by
  rw [FileSystem.sysWrite] at hw
  split_ifs at hw with hfault
  · exact (Prod.mk.inj (some.inj hw)).1 ▸ h.keeps_refl
  obtain ⟨hshort, hvalid⟩ := not_or.mp hfault
  have hlen : bytes.length < 2 ^ 31 := by
    have := length_of_validate (by simpa using hvalid)
    rwa [toNat_ofNat, Nat.mod_eq_of_lt (Nat.lt_of_not_le hshort)] at this
  cases hfd : Kernel.fdSlot fd with
  | none =>
    simp only [hfd, some.injEq, Prod.mk.injEq] at hw
    exact hw.1 ▸ h.keeps_refl
  | some fd =>
    simp only [hfd] at hw
    split_ifs at hw with hused hkind
    · exact (Prod.mk.inj (some.inj hw)).1 ▸ h.keeps_refl
    · cases hnode : ((s.task t).fds fd).node with
      | none =>
        simp only [hnode, some.injEq, Prod.mk.injEq] at hw
        exact hw.1 ▸ h.keeps_refl
      | some n =>
        simp only [hnode] at hw
        split_ifs at hw
        · exact (Prod.mk.inj (some.inj hw)).1 ▸ h.keeps_refl
        · exact h.writeFile hnode hkind hlen hw
    · exact (Prod.mk.inj (some.inj hw)).1 ▸ h.keeps_refl

lemma Safe.sysLink (h : Safe s) (hl : s.sysLink oldpath newpath = some (s', x)) : Keeps s s' := by
  rw [FileSystem.sysLink] at hl
  split_ifs at hl with htmp
  · exact (Prod.mk.inj (some.inj hl)).1 ▸ h.keeps_refl
  have htmp' : pathIsInTmp newpath = true := by simpa using (not_or.mp htmp).2
  obtain ⟨old, -, hl⟩ := bind_eq_some_iff.mp hl
  cases old with
  | none => exact (Prod.mk.inj (some.inj hl)).1 ▸ h.keeps_refl
  | some r =>
    obtain ⟨new, -, hl⟩ := bind_eq_some_iff.mp hl
    cases new with
    | some n => exact (Prod.mk.inj (some.inj hl)).1 ▸ h.keeps_refl
    | none =>
      obtain ⟨⟨w, result⟩, hlink, hs'⟩ := map_eq_some_iff.mp hl
      exact (Prod.mk.inj hs').1 ▸ h.keeps_vfs (h.confined.linkRamfile htmp' hlink)
        (.makes h.confined.tree htmp' (linkRamfile_makes hlink))

lemma Safe.sysRename (h : Safe s) (hr : s.sysRename oldpath newpath = some (s', x)) :
    Keeps s s' := by
  rw [FileSystem.sysRename] at hr
  split_ifs at hr with htmp
  · exact (Prod.mk.inj (some.inj hr)).1 ▸ h.keeps_refl
  have htmp' : pathIsInTmp newpath = true := by simpa using (not_or.mp htmp).2
  obtain ⟨⟨w, result⟩, hrename, hs'⟩ := map_eq_some_iff.mp hr
  exact (Prod.mk.inj hs').1 ▸ h.keeps_vfs (h.confined.renameRamfile htmp' hrename)
    (.makes h.confined.tree htmp' (renameRamfile_makes hrename))

lemma Safe.sysOhUnlink (h : Safe s) {bound : Bool} (hu : s.sysOhUnlink path bound = some (s', x)) :
    Keeps s s' := by
  rw [FileSystem.sysOhUnlink] at hu
  split_ifs at hu
  · obtain ⟨⟨w, result⟩, hunlink, hs'⟩ := map_eq_some_iff.mp hu
    exact (Prod.mk.inj hs').1 ▸ h.keeps_vfs (h.confined.unlinkRamfile hunlink)
      (.of_sameTree (sameTree_unlinkRamfile hunlink))
  all_goals exact (Prod.mk.inj (some.inj hu)).1 ▸ h.keeps_refl

lemma size_le_mkdir (hm : v.mkdir path = some (w, x)) :
    v.size ≤ w.size := by
  rcases mkdir_spec hm with ⟨rfl, -⟩ | ⟨u, target, -, hd, hu⟩
  · exact le_rfl
  have hsize := descend_size hd
  rcases hu with ⟨rfl, -⟩ | ⟨q, name, -, -, rfl, -⟩
  · exact hsize
  · exact le_succ_of_le hsize

lemma Safe.sysOhMkdir (h : Safe s) (hm : s.sysOhMkdir path = some (s', x)) : Safe s' := by
  obtain ⟨⟨w, result⟩, hmkdir, hs'⟩ := map_eq_some_iff.mp hm
  exact (Prod.mk.inj hs').1 ▸ h.withVfs (h.confined.mkdir hmkdir) (size_le_mkdir hmkdir)

/-- Every call but `mkdir` keeps the nodes outside `/tmp`; that one keeps the rest of the
state safe. -/
theorem Safe.step (h : Safe s) {c : FileCall} (hc : s.step c = some s') :
    Safe s' ∧ (c.isMkdir = false → TreeKept s.vfs s'.vfs) := by
  obtain ⟨⟨u, x⟩, hu, rfl⟩ := map_eq_some_iff.mp hc
  have hkeeps : c.isMkdir = false → Keeps s u := by
    intro hno
    cases c with
    | «open» t dirfd path flags room => exact h.taskOpenRelative hu
    | write t fd buffer bytes room other => exact h.sysWrite hu
    | link oldpath newpath => exact h.sysLink hu
    | rename oldpath newpath => exact h.sysRename hu
    | unlink path bound => exact h.sysOhUnlink hu
    | mkdir path => exact absurd hno (by simp [FileCall.isMkdir])
  cases hmk : c.isMkdir with
  | false => exact ⟨(hkeeps hmk).1, fun _ => (hkeeps hmk).2⟩
  | true =>
    cases c with
    | mkdir path => exact ⟨h.sysOhMkdir hu, nofun⟩
    | _ => exact absurd hmk (by simp [FileCall.isMkdir])

/-! ## Runs from boot -/

/-- A tree to start with: an archive's, the root alone, or one read from an ext2 partition, where no
node has a ramfile. -/
def Booted (v : Vfs) : Prop :=
  (∃ archive, initRamfs archive = some v) ∨ v = bare ∨
    (v.hasExt2Root = true ∧ IsTree v ∧ v.ramfiles = 0 ∧ ∀ n, n < v.size → (v.node n).ramfile = none)

lemma confined_of_no_ramfile (htree : IsTree v) (hrams : v.ramfiles = 0)
    (hnone : ∀ n, n < v.size → (v.node n).ramfile = none) : Confined v where
  tree := htree
  ramfile_under hn hr := absurd ((hnone _ hn).symm.trans hr) (by simp)
  capacity hr := absurd (hrams ▸ hr) (not_lt_zero _)

lemma confined_insertFile {f : BootFile} (h : Confined v) (hrams : v.ramfiles = 0)
    (hi : v.insertFile f = some w) : Confined w ∧ w.ramfiles = 0 := by
  have hrams' : w.ramfiles = 0 := (insertFile_ramfiles hi).trans hrams
  refine ⟨?_, hrams'⟩
  obtain ⟨u, target, hd, hu⟩ := insertFile_spec hi
  obtain ⟨hconf, hr⟩ := h.descend h.tree.root_lt hd
  rcases hu with ⟨-, rfl⟩ | ⟨q, name, rfl, hsame⟩
  · exact hconf
  have hq : q < u.size := ((h.tree.descend h.tree.root_lt hd).2 q name rfl).1
  have hattach : Confined (u.attach q (f.node name)) :=
    hconf.attach hq (children_bootNode f name) fun r hr => by simp [ramfile_bootNode] at hr
  have hr0 : (u.attach q (f.node name)).ramfiles = 0 := hr.trans hrams
  exact hattach.congr hsame (hrams'.trans hr0.symm) fun r hr => absurd (hr0 ▸ hr) (not_lt_zero r)

lemma Booted.confined (h : Booted v) : Confined v := by
  have hbare : Confined bare :=
    confined_of_no_ramfile .bare rfl fun n hn => lt_one_iff.mp hn ▸ rfl
  rcases h with ⟨archive, hv⟩ | rfl | ⟨-, htree, hrams, hnone⟩
  · obtain ⟨u, hrun, rfl⟩ := map_eq_some_iff.mp hv
    have hu : Confined u ∧ u.ramfiles = 0 :=
      run_invariant (P := fun u => Confined u ∧ u.ramfiles = 0)
        (fun h hi => confined_insertFile h.1 h.2 hi) ⟨hbare, rfl⟩ hrun
    have hmount : Grows u { u with mounted := true } := ⟨le_rfl, fun _ _ => rfl⟩
    refine ⟨.initRamfs hv, fun hn hr => ?_, fun hr => hu.1.capacity hr⟩
    obtain ⟨hunder, hlt⟩ := hu.1.ramfile_under hn hr
    exact ⟨(hmount.underTmp_iff hu.1.tree hn).mpr hunder, hlt⟩
  · exact hbare
  · exact confined_of_no_ramfile htree hrams hnone

/-- Nothing has run yet: no task has a file open. -/
structure Starts (s : FileSystem) : Prop where
  booted : Booted s.vfs
  no_file : ∀ t fd, ((s.task t).fds fd).kind ≠ .file
  node_lt : ∀ {t fd n}, ((s.task t).fds fd).node = some n → n < s.vfs.size
  cwd_lt : ∀ {t n}, (s.task t).cwd = some n → n < s.vfs.size

lemma Starts.safe (h : Starts s) : Safe s where
  confined := h.booted.confined
  node_lt := h.node_lt
  cwd_lt := h.cwd_lt
  offset_le hkind := absurd hkind (h.no_file _ _)

/-- Every write through an open file stays inside the buffer of the ramfile. -/
def WritesFit (s : FileSystem) : Prop :=
  ∀ t fd n buffer bytes, ((s.task t).fds fd).kind = .file → ((s.task t).fds fd).node = some n →
    bytes.length < 2 ^ 32 → taskValidateUserRange buffer (BitVec.ofNat 32 bytes.length) = true →
    ¬ s.vfs.overruns n ((s.task t).fds fd).offset.toNat bytes

lemma Safe.writesFit (h : Safe s) : WritesFit s := by
  intro t fd n buffer bytes hkind hn hshort hvalid
  have hlen := length_of_validate hvalid
  rw [toNat_ofNat, mod_eq_of_lt hshort] at hlen
  exact h.confined.not_overruns (h.node_lt hn) (h.offset_le hkind) hlen

/-- **Outside `/tmp` nothing changes** by any `open`, `write`, `link`, `rename` and `unlink`, after
any file calls, and no write runs past the buffer of its ramfile. -/
theorem outside_kept {s₀ s₁ s₂ : FileSystem} {before calls : List FileCall} (hstart : Starts s₀)
    (hbefore : run step s₀ before = some s₁) (hcalls : run step s₁ calls = some s₂)
    (hno : ∀ c ∈ calls, c.isMkdir = false) : OutsideKept s₁.vfs s₂.vfs ∧ WritesFit s₂ := by
  have h₁ : Safe s₁ := run_invariant (P := Safe) (fun h hc => (h.step hc).1) hstart.safe hbefore
  have h₂ : Safe s₂ ∧ TreeKept s₁.vfs s₂.vfs := by
    refine run_invariant_of_meet (P := fun s => Safe s ∧ TreeKept s₁.vfs s.vfs)
      (C := fun _ c => c.isMkdir = false) (fun h hc hu => ?_)
      ⟨h₁, .refl _⟩ (stepsMeet_of_mem (fun _ => hno) s₁) hcalls
    obtain ⟨hs, hk⟩ := h.1.step hu
    exact ⟨hs, .trans h₁.confined.tree h.1.confined.tree h.2 (hk hc)⟩
  exact ⟨h₁.confined.outsideKept h₂.2, h₂.1.writesFit⟩

/-- Tasks without descriptors over the tree of an empty archive. -/
def atBoot : FileSystem := ⟨emptyTree, fun _ => ⟨fun _ => .zero, none⟩⟩

/-- The state after the calls. -/
def afterCalls (s : FileSystem) (calls : List FileCall) : FileSystem := (run step s calls).getD s

lemma run_afterCalls {s : FileSystem} {calls : List FileCall}
    (h : (run step s calls).isSome = true) : run step s calls = some (s.afterCalls calls) :=
  (getD_of_ne_none (ne_none_iff_isSome.mpr h) _).symm

/-- A file is opened under a path that climbs out of `/tmp`, and written. -/
def climbing : List FileCall :=
  [.open 0 atFdcwd (text "/tmp/../etc/a") (oCreat ||| oRdwr) true,
    .write 0 3 userBase (text "hi") true 0]

theorem outside_kept_climbing :
    OutsideKept (afterCalls atBoot [.mkdir (text "/etc")]).vfs
      (afterCalls (afterCalls atBoot [.mkdir (text "/etc")]) climbing).vfs ∧
    WritesFit (afterCalls (afterCalls atBoot [.mkdir (text "/etc")]) climbing) :=
  outside_kept ⟨.inl ⟨[], initRamfs_nil⟩, fun _ _ => by simp [atBoot, TaskFd.zero],
      fun h => absurd h (by simp [atBoot, TaskFd.zero]), fun h => absurd h (by simp [atBoot])⟩
    (run_afterCalls (by decide +kernel)) (run_afterCalls (by decide +kernel)) (by decide)

end FileSystem

end OpenHobbyOS
