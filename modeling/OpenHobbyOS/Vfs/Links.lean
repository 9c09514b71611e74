/-
# Names and link counts of ramfiles

A ramfile is shared by the nodes that name it, and its link count is to be their number.
`vfs_unlink_ramfile` lowers the count and leaves the node where it is, so a successful unlink, or
rename, never has the effect of one.  Otherwise the calls keep their contract (`linksMeet_iff`).
-/
import OpenHobbyOS.Vfs.Atomicity

namespace OpenHobbyOS.Vfs

open Lib Paging Function List Option Nat

variable {v w u : Vfs} {p q n : NodeId} {nd : VfsNode} {segs : List Segment} {r : RamfileId}

/-- The number of nodes that name the ramfile. -/
def nameCount (v : Vfs) (r : RamfileId) : ℕ :=
  (List.range v.size).countP fun n => (v.node n).ramfile = some r

/-- Link counts are numbers of names, and the ramfiles in memory are those with a name: none that
has been named is ever freed. -/
structure Counted (v : Vfs) : Prop where
  links_eq : ∀ r, r < v.ramfiles → (v.ramfile r).links = v.nameCount r
  stored_iff : ∀ r, r < v.ramfiles ↔ 0 < v.nameCount r

/-! ## Counting -/

lemma nameCount_congr (hs : SameTree v w) (r : RamfileId) : w.nameCount r = v.nameCount r := by
  simp only [nameCount, hs.size_eq, hs.ramfile_eq]

lemma nameCount_attach (hp : p < v.size) (r : RamfileId) :
    (v.attach p nd).nameCount r = v.nameCount r + if nd.ramfile = some r then 1 else 0 := by
  have hnew : ((v.attach p nd).node v.size).ramfile = nd.ramfile := by rw [node_attach_new _ hp]
  have hold : ∀ n ∈ List.range v.size, ((v.attach p nd).node n).ramfile = (v.node n).ramfile := by
    intro n hn
    have hns : n ≠ v.size := (mem_range.mp hn).ne
    by_cases hnp : n = p
    · rw [hnp, node_attach_parent _ hp]
    · rw [node_attach_of_ne _ hp hnp hns]
  rw [nameCount, size_attach, range_succ, countP_append, countP_singleton, hnew,
    nameCount]
  congr 1
  · exact countP_congr fun n hn => by rw [hold n hn]
  · simp

lemma descend_names (h : IsTree v) (hp : p < v.size) {target : Option (NodeId × List U8)}
    (hd : v.descend p segs = some (w, target)) :
    w.ramfile = v.ramfile ∧ w.ramfiles = v.ramfiles ∧ ∀ r, w.nameCount r = v.nameCount r := by
  refine h.descend_keeps (P := fun u => u.ramfile = v.ramfile ∧ u.ramfiles = v.ramfiles ∧
    ∀ r, u.nameCount r = v.nameCount r) hp hd ⟨rfl, rfl, fun _ => rfl⟩ ?_
  intro u q name _ hq _ _ hu
  refine ⟨hu.1, hu.2.1, fun r => ?_⟩
  rw [nameCount_attach hq, hu.2.2, if_neg (by simp [newNode]), add_zero]

namespace Counted

lemma of_eq (h : Counted v) (hram : w.ramfile = v.ramfile) (hrams : w.ramfiles = v.ramfiles)
    (hnames : ∀ r, w.nameCount r = v.nameCount r) : Counted w := by
  constructor
  · intro r hr
    rw [hram, hnames]
    exact h.links_eq r (hrams ▸ hr)
  · intro r
    rw [hrams, hnames]
    exact h.stored_iff r

lemma descend (h : Counted v) (htree : IsTree v) (hp : p < v.size)
    {target : Option (NodeId × List U8)} (hd : v.descend p segs = some (w, target)) :
    Counted w := by
  obtain ⟨hram, hrams, hnames⟩ := descend_names htree hp hd
  exact h.of_eq hram hrams hnames

lemma mkdir (h : Counted v) (htree : IsTree v) {path : List U8} {x : ℤ}
    (hm : v.mkdir path = some (w, x)) : Counted w := by
  rcases mkdir_spec hm with ⟨rfl, -⟩ | ⟨u, target, -, hd, hu⟩
  · exact h
  have hcount := h.descend htree htree.root_lt hd
  rcases hu with ⟨rfl, -⟩ | ⟨q, name, rfl, -, rfl, -⟩
  · exact hcount
  · have hq : q < u.size := ((htree.descend htree.root_lt hd).2 q name rfl).1
    refine hcount.of_eq rfl rfl fun r => ?_
    rw [nameCount_attach hq, if_neg (by simp [newNode]), add_zero]

lemma createRamfile (h : Counted v) (htree : IsTree v) {path : List U8} {room : Bool}
    {x : Option NodeId} (hc : v.createRamfile path room = some (w, x)) : Counted w := by
  rcases createRamfile_spec hc with ⟨rfl, -⟩ | ⟨u, target, -, hd, hu⟩
  · exact h
  have hcount := h.descend htree htree.root_lt hd
  rcases hu with ⟨rfl, -⟩ | ⟨q, name, rfl, -, rfl, -⟩
  · exact hcount
  have hq : q < u.size := ((htree.descend htree.root_lt hd).2 q name rfl).1
  have hnames : ∀ r, (u.newRamfile.attachRamfile q name u.ramfiles).nameCount r =
      u.nameCount r + if u.ramfiles = r then 1 else 0 := by
    intro r
    rw [nameCount_congr (.attachRamfile u u.newRamfile q name _ rfl rfl rfl rfl),
      nameCount_attach hq]
    simp [ramfileNode]
  have hfresh : u.nameCount u.ramfiles = 0 :=
    Nat.eq_zero_of_not_pos fun hpos => lt_irrefl _ ((hcount.stored_iff _).mpr hpos)
  have hram : ∀ r, (u.newRamfile.attachRamfile q name u.ramfiles).ramfile r =
      if r = u.ramfiles then ⟨[], 4096, 1⟩ else u.ramfile r :=
    fun r => update_apply _ _ _ _
  have hrams : (u.newRamfile.attachRamfile q name u.ramfiles).ramfiles = u.ramfiles + 1 := rfl
  constructor
  · intro r hr
    rw [hnames, hram]
    by_cases hlast : r = u.ramfiles
    · rw [if_pos hlast, if_pos hlast.symm, hlast, hfresh]
    · rw [if_neg hlast, if_neg (Ne.symm hlast), add_zero]
      exact hcount.links_eq r (lt_of_le_of_ne (le_of_lt_succ hr) hlast)
  · intro r
    rw [hnames]
    by_cases hlast : r = u.ramfiles
    · rw [if_pos hlast.symm]
      exact iff_of_true (by rw [hrams, hlast]; exact lt_succ_self _) (succ_pos _)
    · rw [if_neg (Ne.symm hlast), add_zero, ← hcount.stored_iff, hrams]
      exact ⟨fun hr => lt_of_le_of_ne (le_of_lt_succ hr) hlast, lt_succ_of_lt⟩

lemma linkRamfile (h : Counted v) (htree : IsTree v) {oldpath newpath : List U8} {x : ℤ}
    (hl : v.linkRamfile oldpath newpath = some (w, x)) : Counted w := by
  rcases linkRamfile_spec hl with ⟨rfl, -⟩ | ⟨r, u, target, -, hold, -, hd, hu⟩
  · exact h
  have hcount := h.descend htree htree.root_lt hd
  rcases hu with ⟨rfl, -⟩ | ⟨q, name, rfl, rfl, -⟩
  · exact hcount
  have hq : q < u.size := ((htree.descend htree.root_lt hd).2 q name rfl).1
  -- the ramfile has a name already, so it is in memory
  have hr : r < u.ramfiles := by
    obtain ⟨n, hn, hram⟩ := resolveRamfile_eq_some hold
    obtain ⟨-, hrams, -⟩ := descend_names htree htree.root_lt hd
    rw [hrams]
    refine (h.stored_iff r).mpr (countP_pos_iff.mpr ⟨n, ?_, ?_⟩)
    · exact mem_range.mpr (htree.resolve_lt (by simp) hn)
    · exact decide_eq_true hram
  generalize hu' : u.updRamfile r (fun f => { f with links := f.links + 1 }) = u'
  have hnames : ∀ s, (u'.attachRamfile q name r).nameCount s =
      u.nameCount s + if r = s then 1 else 0 := by
    intro s
    subst hu'
    rw [nameCount_congr (.attachRamfile u (u.updRamfile r _) q name r rfl rfl rfl rfl),
      nameCount_attach hq]
    simp [ramfileNode]
  have hram : ∀ s, ((u'.attachRamfile q name r).ramfile s).links =
      (u.ramfile s).links + if r = s then 1 else 0 := by
    intro s
    subst hu'
    change (Function.update u.ramfile r _ s).links = _
    rw [update_apply]
    by_cases hs : s = r
    · rw [if_pos hs, if_pos hs.symm, hs]
    · rw [if_neg hs, if_neg (Ne.symm hs), add_zero]
  have hrams : (u'.attachRamfile q name r).ramfiles = u.ramfiles := by
    subst hu'
    rfl
  constructor
  · intro s hs
    rw [hnames, hram, hcount.links_eq s (hrams ▸ hs)]
  · intro s
    rw [hrams, hnames, hcount.stored_iff]
    by_cases hs : r = s
    · exact iff_of_true ((hcount.stored_iff s).mp (hs ▸ hr)) (by rw [if_pos hs]; exact succ_pos _)
    · rw [if_neg hs, add_zero]

end Counted

/-! ## The contract -/

/-- The call is an unlink or a rename, and it succeeds. -/
def succeeds (v : Vfs) : Call → Bool
  | .unlink path => (v.unlinkRamfile path).map Prod.snd == some 0
  | .rename oldpath newpath => (v.renameRamfile oldpath newpath).map Prod.snd == some 0
  | _ => false

/-- The bytes of the ramfile a path resolves to. -/
def contentAt (v : Vfs) (path : List U8) : Option (List U8) :=
  ((v.resolveRamfile path).bind id).map fun r => (v.ramfile r).data

/-- After a successful unlink the path is gone and every path that led elsewhere leads there still;
after a successful rename the new path has the content of the old, which is gone; and link counts
are numbers of names. -/
def LinksMeet (v : Vfs) (c : Call) (w : Vfs) : Prop :=
  (match c with
    | .unlink path => v.succeeds c = true →
      w.resolve none path = some none ∧
        ∀ other, v.resolve none other ≠ v.resolve none path →
          w.resolve none other = v.resolve none other
    | .rename oldpath newpath => v.succeeds c = true → oldpath ≠ newpath →
      w.contentAt newpath = v.contentAt oldpath ∧ w.resolve none oldpath = some none
    | _ => True) ∧ Counted w

lemma unlink_still_resolves {path : List U8} (hc : v.call (.unlink path) = some w)
    (hs : v.succeeds (.unlink path) = true) : w.resolve none path ≠ some none := by
  obtain ⟨⟨u, x⟩, hu, rfl⟩ := map_eq_some_iff.mp hc
  have hx : x = 0 := by simpa [succeeds, hu] using hs
  rcases unlinkRamfile_spec hu with ⟨-, hx'⟩ | ⟨r, hr, -⟩
  · exact absurd (hx.symm.trans hx') (by decide)
  obtain ⟨n, hn, -⟩ := resolveRamfile_eq_some hr
  rw [(sameTree_unlinkRamfile hu).resolve_eq, hn]
  simp

lemma rename_still_resolves {oldpath newpath : List U8}
    (hc : v.call (.rename oldpath newpath) = some w)
    (hs : v.succeeds (.rename oldpath newpath) = true) : w.resolve none oldpath ≠ some none := by
  obtain ⟨⟨u, x⟩, hu, rfl⟩ := map_eq_some_iff.mp hc
  obtain rfl : x = 0 := by simpa [succeeds, hu] using hs
  rcases renameRamfile_spec hu with ⟨-, hx⟩ | ⟨u', y, -, ⟨-, hx, -⟩ | ⟨-, hun⟩⟩
  · exact absurd hx (by decide)
  · exact absurd hx (by decide)
  · refine unlink_still_resolves (v := u') ?_ ?_
    · exact map_eq_some_iff.mpr ⟨_, hun, rfl⟩
    · simp [succeeds, hun]

/-- The tree lets an unlink or a rename succeed: the path names a ramfile that counts another link;
the old path names a ramfile, the new one nothing, its segments are short and a name ends it. -/
def TakesEffect (v : Vfs) : Call → Prop
  | .unlink path => v.writable = true ∧ ∃ r ∈ (v.resolveRamfile path).join, 1 < (v.ramfile r).links
  | .rename oldpath newpath => v.writable = true ∧ (v.resolveRamfile oldpath).join ≠ none ∧
    v.resolve none newpath = some none ∧ (∃ seg ∈ segmentsOf newpath, seg.last = true) ∧
    ∀ seg ∈ segmentsOf newpath, seg.name.length < vfsNameMax
  | _ => False

instance (v : Vfs) : DecidablePred v.TakesEffect
  | .unlink _ => inferInstanceAs (Decidable (_ ∧ ∃ r ∈ _, _))
  | .rename _ _ => inferInstanceAs (Decidable (_ ∧ _ ≠ _ ∧ _ ∧ (∃ seg ∈ segmentsOf _, _) ∧
    ∀ seg ∈ segmentsOf _, _))
  | .mkdir _ | .create _ _ | .link _ _ | .path _ => .isFalse id

lemma unlink_succeeds_iff {path : List U8} :
    v.succeeds (.unlink path) = true ↔ v.TakesEffect (.unlink path) := by
  cases hw : v.writable with
  | false => simp [succeeds, TakesEffect, unlinkRamfile, hw]
  | true =>
    rcases hr : v.resolveRamfile path with _ | _ | r
    · simp [succeeds, TakesEffect, unlinkRamfile, hw, hr]
    · simp [succeeds, TakesEffect, unlinkRamfile, hw, hr]
    · by_cases hlinks : 1 < (v.ramfile r).links <;>
        simp [succeeds, TakesEffect, unlinkRamfile, hw, hr, hlinks]

lemma rename_succeeds_iff {oldpath newpath : List U8} (hv : Reached v) :
    v.succeeds (.rename oldpath newpath) = true ↔ v.TakesEffect (.rename oldpath newpath) := by
  have hlong := descend_eq_none (v := v) (p := rootNode) (segmented_segmentsOf newpath)
  constructor
  · intro hs
    obtain ⟨⟨u, x⟩, hu, rfl⟩ := map_eq_some_iff.mp (beq_iff_eq.mp hs)
    rcases renameRamfile_spec hu with ⟨-, hx⟩ | ⟨u', y, hl, ⟨-, hx, -⟩ | ⟨rfl, -⟩⟩
    · exact absurd hx (by decide)
    · exact absurd hx (by decide)
    rcases linkRamfile_spec hl with
      ⟨-, hx⟩ | ⟨r, _, _, hw, hold, hnew, hd, ⟨-, hx⟩ | ⟨q, name, rfl, -⟩⟩
    · exact absurd hx (by decide)
    · exact absurd hx (by decide)
    refine ⟨hw, by simp [hold], hnew, ?_, ?_⟩
    · by_contra hend
      exact absurd ((target_of_descend hd).mpr hend) (by simp)
    · rw [hd] at hlong
      simpa using hlong
  · rintro ⟨hw, hold, hnew, hend, hshort⟩
    obtain ⟨r, hold⟩ := ne_none_iff_exists'.mp hold
    rw [join_eq_some_iff] at hold
    have hsome : v.descend rootNode (segmentsOf newpath) ≠ none := by
      rw [Ne, hlong]
      simpa using hshort
    obtain ⟨⟨u, target⟩, hd⟩ := ne_none_iff_exists'.mp hsome
    obtain ⟨w, hlink⟩ : ∃ w, v.linkRamfile oldpath newpath = some (w, 0) := by
      rw [linkRamfile_eq hw hold hnew, linkAt, hd]
      cases target with
      | none => exact absurd hend ((target_of_descend hd).mp rfl)
      | some t => exact ⟨_, rfl⟩
    obtain ⟨htree, hlinked⟩ := hv.of_writable hw
    obtain ⟨w', hun⟩ := unlinkRamfile_of_link htree hlinked hlink
    simp [succeeds, renameRamfile, hw, hlink, hun]

/-- **When an unlink or a rename succeeds**, in terms of the tree before it. -/
theorem succeeds_iff (hv : Reached v) (c : Call) : v.succeeds c = true ↔ v.TakesEffect c := by
  cases c with
  | unlink path => exact unlink_succeeds_iff
  | rename oldpath newpath => exact rename_succeeds_iff hv
  | _ => exact iff_of_false Bool.false_ne_true id

lemma rename_ne {oldpath newpath : List U8} (h : v.TakesEffect (.rename oldpath newpath)) :
    oldpath ≠ newpath := by
  rintro rfl
  obtain ⟨-, hold, hnew, -⟩ := h
  exact hold (by rw [resolveRamfile, hnew]; rfl)

/-- An unlink or rename that fails keeps the counts, a link that was made included. -/
theorem Counted.call (h : Counted v) (htree : IsTree v) {c : Call} (hs : v.succeeds c = false)
    (hc : v.call c = some w) : Counted w := by
  cases c with
  | mkdir path =>
    obtain ⟨⟨u, x⟩, hm, rfl⟩ := map_eq_some_iff.mp hc
    exact h.mkdir htree hm
  | create path room =>
    obtain ⟨⟨u, x⟩, hm, rfl⟩ := map_eq_some_iff.mp hc
    exact h.createRamfile htree hm
  | link oldpath newpath =>
    obtain ⟨⟨u, x⟩, hm, rfl⟩ := map_eq_some_iff.mp hc
    exact h.linkRamfile htree hm
  | unlink path =>
    obtain ⟨⟨u, x⟩, hm, rfl⟩ := map_eq_some_iff.mp hc
    rcases unlinkRamfile_spec hm with ⟨rfl, -⟩ | ⟨r, -, -, -, rfl⟩
    · exact h
    · exact absurd hs (by simp [succeeds, hm])
  | rename oldpath newpath =>
    obtain ⟨⟨u, x⟩, hm, rfl⟩ := map_eq_some_iff.mp hc
    rcases renameRamfile_spec hm with ⟨rfl, -⟩ | ⟨u', y, hl, ⟨rfl, -⟩ | ⟨-, hun⟩⟩
    · exact h
    · exact h.linkRamfile htree hl
    · rcases unlinkRamfile_spec hun with ⟨rfl, -⟩ | ⟨r, -, -, -, rfl⟩
      · exact h.linkRamfile htree hl
      · exact absurd hs (by simp [succeeds, hm])
  | path n =>
    obtain rfl := Option.some.inj hc
    refine h.of_eq ?_ ?_ (nameCount_congr (sameTree_path v n)) <;> rw [path] <;> split_ifs <;> rfl

lemma Counted.initRamfs {archive : List InitrdFile} (h : Vfs.initRamfs archive = some v) :
    Counted v := by
  obtain ⟨u, hrun, rfl⟩ := map_eq_some_iff.mp h
  have hnone : IsTree u ∧ u.ramfiles = 0 ∧ ∀ r, u.nameCount r = 0 := by
    refine run_invariant (P := fun u => IsTree u ∧ u.ramfiles = 0 ∧ ∀ r, u.nameCount r = 0)
      (fun {v f w} hI hi => ?_) ⟨.bare, rfl, fun _ => rfl⟩ hrun
    obtain ⟨htree, hrams, hnames⟩ := hI
    obtain ⟨u, target, hd, hu⟩ := insertFile_spec hi
    obtain ⟨-, hrams', hnames'⟩ := descend_names htree htree.root_lt hd
    refine ⟨htree.insertFile hi, ?_⟩
    rcases hu with ⟨-, rfl⟩ | ⟨q, name, rfl, hsame⟩
    · exact ⟨hrams'.trans hrams, fun r => (hnames' r).trans (hnames r)⟩
    · have hq : q < u.size := ((htree.descend htree.root_lt hd).2 q name rfl).1
      refine ⟨(insertFile_ramfiles hi).trans hrams, fun r => ?_⟩
      rw [nameCount_congr hsame, nameCount_attach hq, ramfile_bootNode, if_neg (by simp), hnames',
        hnames]
  obtain ⟨-, hrams, hnames⟩ := hnone
  have hu : Counted u := by
    refine ⟨fun r hr => absurd (hrams ▸ hr) (not_lt_zero r), fun r => ?_⟩
    rw [hrams, hnames]
    exact iff_of_false (not_lt_zero r) (lt_irrefl 0)
  exact ⟨hu.links_eq, hu.stored_iff⟩

/-- **Calls keep the contract of names and links exactly as long as no unlink and no rename takes
effect**, from boot on. -/
theorem linksMeet_iff {archive : List InitrdFile} {calls : List Call}
    (hboot : initRamfs archive = some v) :
    StepsMeet call (fun v c => ∀ w, v.call c = some w → LinksMeet v c w) v calls ↔
      StepsMeet call (fun v c => ¬ v.TakesEffect c) v calls := by
  constructor
  · -- a success is against the contract in any tree
    refine stepsMeet_imp (P := Reached) (fun hu _ hc => hu.call hc) (fun {u c} hu hmeet heff => ?_)
      (.boot hboot)
    have hs := (succeeds_iff hu c).mpr heff
    cases c with
    | unlink path =>
      obtain ⟨⟨w, x⟩, hw, -⟩ := map_eq_some_iff.mp (beq_iff_eq.mp hs)
      have hc : u.call (.unlink path) = some w := map_eq_some_iff.mpr ⟨_, hw, rfl⟩
      exact unlink_still_resolves hc hs ((hmeet w hc).1 hs).1
    | rename oldpath newpath =>
      obtain ⟨⟨w, x⟩, hw, -⟩ := map_eq_some_iff.mp (beq_iff_eq.mp hs)
      have hc : u.call (.rename oldpath newpath) = some w := map_eq_some_iff.mpr ⟨_, hw, rfl⟩
      exact rename_still_resolves hc hs ((hmeet w hc).1 hs (rename_ne heff)).2
    | _ => exact heff
  · refine stepsMeet_imp (P := fun u => Reached u ∧ IsTree u ∧ Counted u)
      (fun {u c w} h hs hc => ?_) (fun {u c} h hs w hc => ?_)
      ⟨.boot hboot, .initRamfs hboot, .initRamfs hboot⟩
    · rw [← succeeds_iff h.1, Bool.not_eq_true] at hs
      exact ⟨h.1.call hc, h.2.1.call hc, h.2.2.call h.2.1 hs hc⟩
    · rw [← succeeds_iff h.1, Bool.not_eq_true] at hs
      refine ⟨?_, h.2.2.call h.2.1 hs hc⟩
      cases c with
      | unlink path => exact fun htrue => absurd (hs.symm.trans htrue) (by simp)
      | rename oldpath newpath => exact fun htrue => absurd (hs.symm.trans htrue) (by simp)
      | _ => trivial

/-- An unlink of the last name fails, and with it the contract is kept. -/
theorem linksMeet_created :
    StepsMeet call (fun v c => ∀ w, v.call c = some w → LinksMeet v c w) emptyTree
      [.create (text "/tmp/a") true, .link (text "/tmp/a") (text "/tmp/b"),
        .create (text "/tmp/c") true, .unlink (text "/tmp/c")] :=
  (linksMeet_iff initRamfs_nil).mpr (by decide +kernel)

/-- After a link, an unlink of the old path reports success: the path resolves as before, and the
count is one less than the two names.  The same holds of a rename. -/
theorem unlinked_name_stays :
    initRamfs [] = some emptyTree ∧
    (∃ v w, run call emptyTree [.create (text "/tmp/a") true, .link (text "/tmp/a") (text "/tmp/b")]
        = some v ∧ v.unlinkRamfile (text "/tmp/a") = some (w, 0) ∧
      w.resolve none (text "/tmp/a") = some (some 16) ∧ (w.ramfile 0).links = 1 ∧
      w.nameCount 0 = 2) ∧
    ∃ v w, run call emptyTree [.create (text "/tmp/a") true] = some v ∧
      v.renameRamfile (text "/tmp/a") (text "/tmp/b") = some (w, 0) ∧
      w.resolve none (text "/tmp/a") = some (some 16) ∧ (w.ramfile 0).links = 1 ∧
      w.nameCount 0 = 2 := by
  have hunlink : ((treeAfter emptyTree [.create (text "/tmp/a") true,
      .link (text "/tmp/a") (text "/tmp/b")]).unlinkRamfile (text "/tmp/a")).map Prod.snd =
        some 0 := by
    decide +kernel
  have hrename : ((treeAfter emptyTree [.create (text "/tmp/a") true]).renameRamfile
      (text "/tmp/a") (text "/tmp/b")).map Prod.snd = some 0 := by
    decide +kernel
  refine ⟨initRamfs_nil, ⟨_, _, run_treeAfter (by decide +kernel),
    eq_some_of_map_snd hunlink (bare, 0), ?_⟩,
    _, _, run_treeAfter (by decide +kernel), eq_some_of_map_snd hrename (bare, 0), ?_⟩ <;>
      decide +kernel

end OpenHobbyOS.Vfs
