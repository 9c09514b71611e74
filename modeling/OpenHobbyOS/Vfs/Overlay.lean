/-
# The archive over an ext2 root

`vfs_init_ext2` and `vfs_overlay_initrd` of `src/vfs.c`: a tree read from an ext2 partition gets the
virtual files, and then the archive's files where nothing is yet.  A new node never hides an old
one, and a file on the way ends the walk.
-/
import OpenHobbyOS.Vfs.Atomicity
import OpenHobbyOS.Vfs.BootFiles

namespace OpenHobbyOS.Vfs

open Lib Paging PathMap List Option Nat

/-! ## The code -/

/-- The trees of `ext2_build_tree_recursive`: nodes of any name and kind below the root. -/
inductive Ext2Tree : Vfs → Prop
  | root : Ext2Tree bare
  | entry {v : Vfs} {p : NodeId} (h : Ext2Tree v) (hp : p < v.size) (name path : List U8)
      (isDir : Bool) : Ext2Tree (v.attach p { newNode name isDir with path := path })

/-- The end of `vfs_init_ext2`. -/
def initExt2 (v : Vfs) : Option Vfs :=
  (run insertFile v virtualFiles).map fun v => { v with mounted := true, hasExt2Root := true }

/-- The walk of `vfs_overlay_initrd`, which a file on the way ends. -/
def overlayDescend : Vfs → NodeId → List Segment → Option (Vfs × Option (NodeId × List U8))
  | v, _, [] => some (v, none)
  | v, parent, seg :: rest =>
    if vfsNameMax ≤ seg.name.length then none
    else if seg.last then some (v, some (parent, seg.name))
    else
      match v.findChild parent seg.name with
      | some next => if !(v.node next).isDir then some (v, none) else overlayDescend v next rest
      | none => overlayDescend (v.attach parent (newNode seg.name true)) v.size rest

/-- The node of a file. -/
def fileNode (name : List U8) (file : InitrdFile) : VfsNode :=
  { newNode name false with file := some file }

/-- The loop body of `vfs_overlay_initrd`. -/
def overlayFile (v : Vfs) (file : InitrdFile) : Option Vfs :=
  (v.overlayDescend rootNode (segmentsOf file.name)).map fun (v, target) =>
    match target with
    | none => v
    | some (parent, name) =>
      if (v.findChild parent name).isSome then v
      else (v.attach parent (fileNode name file)).cachePath v.size

/-- `vfs_overlay_initrd`. -/
def overlayInitrd (v : Vfs) (archive : List InitrdFile) : Option Vfs := run overlayFile v archive

/-! ## Paths of the archive -/

/-- The names of a path, and those that a walk takes for directories. -/
def pathNames (path : List U8) : List (List U8) := (segmentsOf path).map Segment.name

/-- The directories of a path. -/
def wayNames (path : List U8) : List (List U8) := (dirsOf (segmentsOf path)).map Segment.name

variable {v w u : Vfs} {p q n : NodeId} {segs : List Segment} {ps qs : List (List U8)}
variable {target : Option (NodeId × List U8)} {file : InitrdFile}

lemma dirsOf_cons_of_not_last {seg : Segment} (h : seg.last = false) (rest : List Segment) :
    dirsOf (seg :: rest) = seg :: dirsOf rest := by
  simp [dirsOf, h]

lemma name_proper {path name : List U8} (h : name ∈ pathNames path) :
    name ≠ [] ∧ slash ∉ name := by
  have hall : ∀ {segs}, Segmented segs → ∀ seg ∈ segs, seg.name ≠ [] ∧ slash ∉ seg.name := by
    intro segs hsegs
    induction segs with
    | nil => simp
    | cons seg rest ih => simpa using ⟨⟨hsegs.1, hsegs.2.1⟩, ih hsegs.2.2.2⟩
  obtain ⟨seg, hseg, rfl⟩ := mem_map.mp h
  exact hall (segmented_segmentsOf path) seg hseg

lemma pathNames_eq {path : List U8} (h : EndsInName path) :
    ∃ name, pathNames path = wayNames path ++ [name] := by
  have hall : ∀ {segs}, Segmented segs → (∃ seg ∈ segs, seg.last = true) →
      ∃ name, segs.map Segment.name = (dirsOf segs).map Segment.name ++ [name] := by
    intro segs hsegs hlast
    induction segs with
    | nil => simp at hlast
    | cons seg rest ih =>
      cases hseg : seg.last with
      | true =>
        obtain rfl : rest = [] := hsegs.2.2.1 hseg
        exact ⟨seg.name, by simp [dirsOf, hseg]⟩
      | false =>
        obtain ⟨name, hname⟩ := ih hsegs.2.2.2 (by simpa [hseg] using hlast)
        exact ⟨name, by simp [dirsOf_cons_of_not_last hseg, hname]⟩
  exact hall (segmented_segmentsOf path) h

/-- A walk that makes directories, along any path: what it makes, and where it ends. -/
theorem contents_walk (h : IsTree v) (hp : v.walk rootNode ps = some p) (hsegs : Segmented segs)
    (hd : v.descend p segs = some (u, target)) :
    IsTree u ∧ u.contents = makeDirs directory v.contents (ps ++ (dirsOf segs).map Segment.name) ∧
      ∀ q name, target = some (q, name) → name.length < vfsNameMax ∧
        u.walk rootNode (ps ++ (dirsOf segs).map Segment.name) = some q ∧
        segs.map Segment.name = (dirsOf segs).map Segment.name ++ [name] := by
  induction segs generalizing v p ps with
  | nil =>
    rw [descend, some.injEq, Prod.mk.injEq] at hd
    obtain ⟨rfl, rfl⟩ := hd
    refine ⟨h, ?_, by simp⟩
    simp only [dirsOf, filter_nil, map_nil, append_nil]
    exact (makeDirs_eq_self fun _ hqs => contents_ne_none hp hqs).symm
  | cons seg rest ih =>
    obtain ⟨hfit, ⟨hlast, rfl, rfl⟩ | ⟨hlast, hd⟩⟩ := descend_cons hd
    · obtain rfl : rest = [] := hsegs.2.2.1 hlast
      simp only [dirsOf, hlast, Bool.not_true, filter_cons_of_neg, Bool.false_eq_true,
        not_false_eq_true, filter_nil, map_nil, append_nil]
      refine ⟨h, (makeDirs_eq_self fun _ hqs => contents_ne_none hp hqs).symm, ?_⟩
      rintro q name heq
      obtain ⟨rfl, rfl⟩ := Prod.mk.inj (some.inj heq)
      exact ⟨hfit, hp, rfl⟩
    · obtain ⟨v', c, hstep, htree, hc, hmade⟩ := contents_findOrCreateDirectory h hp hfit
      rw [hstep] at hd
      obtain ⟨hu, hcontents, htarget⟩ := ih htree hc hsegs.2.2.2 hd
      have hway : ps ++ (dirsOf (seg :: rest)).map Segment.name =
          ps ++ [seg.name] ++ (dirsOf rest).map Segment.name := by
        simp [dirsOf_cons_of_not_last hlast]
      rw [hway]
      refine ⟨hu, ?_, fun q name heq => ?_⟩
      · rw [hcontents, hmade, makeDirs_makeDirs (prefix_append _ _)]
      · obtain ⟨hname, hq, hnames⟩ := htarget q name heq
        exact ⟨hname, hq, by simp [dirsOf_cons_of_not_last hlast, hnames]⟩

/-- The walk of the overlay is that of the other functions, unless a file is on the way. -/
lemma overlayDescend_eq (h : IsTree v) (hp : p < v.size) (hsegs : Segmented segs)
    (hshort : ∀ seg ∈ segs, seg.name.length < vfsNameMax) (hdir : (v.node p).isDir = true) :
    v.overlayDescend p segs =
      if v.throughDirs p segs then v.descend p segs else some (v, none) := by
  induction segs generalizing v p with
  | nil => rfl
  | cons seg rest ih =>
    have hlong : ¬ vfsNameMax ≤ seg.name.length := not_le.mpr (hshort seg mem_cons_self)
    have hshort' : ∀ seg ∈ rest, seg.name.length < vfsNameMax :=
      fun s hs => hshort s (.tail _ hs)
    rw [overlayDescend, descend, if_neg hlong, if_neg hlong, throughDirs, hdir, Bool.true_and]
    cases hlast : seg.last with
    | true =>
      obtain rfl : rest = [] := hsegs.2.2.1 hlast
      cases v.findChild p seg.name <;> simp [throughDirs]
    | false =>
      simp only [Bool.false_eq_true, if_false, findOrCreateDirectory]
      cases hfind : v.findChild p seg.name with
      | none =>
        have hnode : (v.attach p (newNode seg.name true)).node v.size =
            { newNode seg.name true with parent := some p } := node_attach_new _ hp
        have hnew : ((v.attach p (newNode seg.name true)).node v.size).isDir = true := by
          rw [hnode]
          rfl
        have hthrough : (v.attach p (newNode seg.name true)).throughDirs v.size rest = true :=
          throughDirs_of_childless hnew (by rw [hnode]; rfl)
        simp only [if_true]
        rw [ih (h.attach hp rfl) (lt_succ_self _) hsegs.2.2.2 hshort' hnew, if_pos hthrough]
      | some c =>
        have hc : c < v.size := h.findChild_lt hp hfind
        cases hcdir : (v.node c).isDir with
        | true =>
          simp only [hcdir, Bool.not_true, Bool.false_eq_true, if_false]
          exact ih h hc hsegs.2.2.2 hshort' hcdir
        | false =>
          cases rest with
          | nil => simp [throughDirs, descend, hcdir]
          | cons s rest => simp [throughDirs, hcdir]

lemma throughDirs_of_contents (hp : v.walk rootNode ps = some p)
    (hdirs : ∀ qs, qs <+: ps ++ (dirsOf segs).map Segment.name →
      ∀ c, v.contents qs = some c → c.isDir = true) (hsegs : Segmented segs) :
    v.throughDirs p segs = true := by
  induction segs generalizing p ps with
  | nil => rfl
  | cons seg rest ih =>
    have hdir : (v.node p).isDir = true :=
      hdirs ps (prefix_append _ _) (content (v.node p)) (by simp [contents, hp])
    rw [throughDirs, hdir, Bool.true_and]
    cases hfind : v.findChild p seg.name with
    | none => rfl
    | some c =>
      cases hlast : seg.last with
      | true =>
        obtain rfl : rest = [] := hsegs.2.2.1 hlast
        rfl
      | false =>
        have hc : v.walk rootNode (ps ++ [seg.name]) = some c := by
          rw [walk_concat, hp, bind_some, hfind]
        refine ih hc (fun qs hqs => hdirs qs ?_) hsegs.2.2.2
        simpa [dirsOf_cons_of_not_last hlast] using hqs

/-! ## One file -/

lemma Extends.refl (v : Vfs) : Extends v v := fun _ _ _ _ hc => hc

lemma Extends.trans (h : Extends v w) (h' : Extends w u) (hle : v.size ≤ w.size) :
    Extends v u :=
  fun p name c hp hc => h' p name c (hp.trans_le hle) (h p name c hp hc)

lemma Extends.descend (h : IsTree v) (hp : p < v.size)
    (hd : v.descend p segs = some (u, target)) : Extends v u := by
  have hkeeps := h.descend_keeps (P := fun u => v.size ≤ u.size ∧ Extends v u) hp hd
    ⟨le_rfl, .refl v⟩ fun htree hq hfit hfree hu => ⟨hu.1.trans (le_succ _),
      hu.2.trans (.attach htree hq (by rwa [newNode_name hfit])) hu.1⟩
  exact hkeeps.2

/-- What a file's node holds. -/
def fileContent (file : InitrdFile) : Content := ⟨false, none, some file, none⟩

/-- The overlay of one file: nothing is hidden, what is new is a directory on the way or the file,
and it is put in if its place is free and no file is on the way. -/
structure Overlays (v : Vfs) (file : InitrdFile) (w : Vfs) : Prop where
  tree : IsTree w
  grows : Grows v w
  finds : Extends v w
  mounted : w.mounted = v.mounted
  new : ∀ qs c, v.contents qs = none → w.contents qs = some c →
    qs <+: wayNames file.name ∨ EndsInName file.name ∧ qs = pathNames file.name
  puts : EndsInName file.name → v.contents (pathNames file.name) = none →
    (∀ qs, qs <+: wayNames file.name → ∀ c, v.contents qs = some c → c.isDir = true) →
      w.contents (pathNames file.name) = some (fileContent file)

theorem overlayFile_overlays (h : IsTree v) (hdir : (v.node rootNode).isDir = true)
    (hshort : ∀ seg ∈ segmentsOf file.name, seg.name.length < vfsNameMax) :
    ∃ w, v.overlayFile file = some w ∧ Overlays v file w := by
  have hsegs := segmented_segmentsOf file.name
  have hroot : v.walk rootNode [] = some rootNode := rfl
  rw [overlayFile, overlayDescend_eq h h.root_lt hsegs hshort hdir]
  cases hthrough : v.throughDirs rootNode (segmentsOf file.name) with
  | false =>
    refine ⟨v, rfl, h, .refl v, .refl v, rfl, fun qs c hnone hsome => ?_, fun _ _ hdirs => ?_⟩
    · rw [hnone] at hsome
      cases hsome
    · rw [throughDirs_of_contents hroot (by simpa [wayNames] using hdirs) hsegs] at hthrough
      cases hthrough
  | true =>
    cases hd : v.descend rootNode (segmentsOf file.name) with
    | none =>
      obtain ⟨seg, hseg, hlong⟩ := (descend_eq_none hsegs).mp hd
      exact absurd (hshort seg hseg) (not_lt.mpr hlong)
    | some found =>
      obtain ⟨u, target⟩ := found
      obtain ⟨htree, hcontents, htarget⟩ := contents_walk h hroot hsegs hd
      have hgrows := Grows.descend h h.root_lt hd
      have hextends := Extends.descend h h.root_lt hd
      rw [nil_append] at hcontents
      -- what the walk makes is on the way
      have hnew : ∀ qs c, v.contents qs = none → u.contents qs = some c →
          qs <+: wayNames file.name := by
        intro qs c hnone hsome
        rw [hcontents, makeDirs] at hsome
        split_ifs at hsome with hmade
        · exact hmade.1
        · rw [hnone] at hsome
          cases hsome
      cases target with
      | none =>
        refine ⟨u, rfl, htree, hgrows, hextends, (descend_flags hd).1,
          fun qs c hnone hsome => .inl (hnew qs c hnone hsome), fun hends => ?_⟩
        exact absurd hends ((target_of_descend hd).mp rfl)
      | some t =>
        obtain ⟨q, name⟩ := t
        obtain ⟨hfit, hq, hnames⟩ := htarget q name rfl
        have hpath : pathNames file.name = wayNames file.name ++ [name] := hnames
        have hends : EndsInName file.name :=
          not_not.mp ((target_of_descend hd).not.mp (by simp))
        have hqlt : q < u.size := walk_lt htree htree.root_lt hq
        rw [nil_append] at hq
        have hlast : u.contents (pathNames file.name) =
            (u.findChild q name).map fun n => content (u.node n) := by
          rw [contents, hpath, walk_concat, wayNames, hq, bind_some]
        cases hfree : u.findChild q name with
        | some c =>
          refine ⟨u, by simp [hfree], htree, hgrows, hextends, (descend_flags hd).1,
            fun qs c hnone hsome => .inl (hnew qs c hnone hsome), fun _ hnone _ => ?_⟩
          -- a name that is taken was taken before
          rw [hfree, map_some] at hlast
          have hway := (hnew _ _ hnone hlast).length_le
          rw [hpath, length_append] at hway
          exact absurd hway (not_succ_le_self _)
        | none =>
          have hname : (fileNode name file).name = name := newNode_name hfit false
          have hsame := SameTree.cachePath (u.attach q (fileNode name file)) u.size
          have hattach : ((u.attach q (fileNode name file)).cachePath u.size).contents =
              graft u.contents (pathNames file.name) (fileContent file) := by
            rw [hsame.contents_eq, contents_attach htree hq rfl, hname, hpath]
            rfl
          refine ⟨_, by simp [hfree], (htree.attach hqlt rfl).congr hsame,
            hgrows.trans ((Grows.attach hqlt).trans (.of_sameTree hsame)),
            hextends.trans (fun p name' c hp hc => ?_) hgrows.size_le, (descend_flags hd).1,
            fun qs c hnone hsome => ?_, fun _ _ _ => ?_⟩
          · rw [hsame.findChild_eq]
            exact Extends.attach htree hqlt (by rwa [hname]) p name' c hp hc
          · rw [hattach, graft] at hsome
            split_ifs at hsome with heq
            · exact .inr ⟨hends, heq⟩
            · exact .inl (hnew qs c hnone hsome)
          · rw [hattach, graft, if_pos rfl]

/-! ## The archive -/

variable {archive before after : List InitrdFile}

lemma contents_kept (h : IsTree v) (hgrows : Grows v w) (hfinds : Extends v w) {c : Content}
    (hc : v.contents qs = some c) : w.contents qs = some c := by
  obtain ⟨n, hn, rfl⟩ := map_eq_some_iff.mp hc
  have hwalk : ∀ {p ps}, p < v.size → v.walk p ps = some n → w.walk p ps = some n := by
    intro p ps hp hw
    induction ps generalizing p with
    | nil => exact hw
    | cons name ps ih =>
      obtain ⟨c, hc, hrest⟩ := bind_eq_some_iff.mp hw
      rw [walk, hfinds p name c hp hc]
      exact ih (h.findChild_lt hp hc) hrest
  have hown := hgrows.own_eq n (walk_lt h h.root_lt hn)
  have hcontent : content (own (w.node n)) = content (own (v.node n)) := by rw [hown]
  rw [contents, hwalk h.root_lt hn]
  exact congrArg some hcontent

/-- **The whole archive**: nothing is hidden. -/
lemma overlayInitrd_keeps (h : IsTree v) (hdir : (v.node rootNode).isDir = true)
    (hshort : ∀ file ∈ archive, ∀ seg ∈ segmentsOf file.name, seg.name.length < vfsNameMax) :
    ∃ w, v.overlayInitrd archive = some w ∧ IsTree w ∧ (w.node rootNode).isDir = true ∧
      Grows v w ∧ Extends v w ∧ w.mounted = v.mounted := by
  induction archive generalizing v with
  | nil => exact ⟨v, rfl, h, hdir, .refl v, .refl v, rfl⟩
  | cons file archive ih =>
    obtain ⟨u, hu, ho⟩ := overlayFile_overlays h hdir (hshort file mem_cons_self)
    have hudir : (u.node rootNode).isDir = true :=
      (ho.grows.isDir_eq h.root_lt).trans hdir
    obtain ⟨w, hw, htree, hwdir, hgrows, hfinds, hmounted⟩ :=
      ih ho.tree hudir fun f hf => hshort f (.tail _ hf)
    exact ⟨w, by rw [overlayInitrd, run_cons_of_eq hu]; exact hw, htree, hwdir,
      ho.grows.trans hgrows, ho.finds.trans hfinds ho.grows.size_le,
      hmounted.trans ho.mounted⟩

lemma overlayInitrd_free (h : IsTree v) (hdir : (v.node rootNode).isDir = true)
    (hshort : ∀ file ∈ archive, ∀ seg ∈ segmentsOf file.name, seg.name.length < vfsNameMax)
    (hfree : v.contents qs = none)
    (hother : ∀ file ∈ archive, ¬ qs <+: wayNames file.name ∧
      ¬ (EndsInName file.name ∧ qs = pathNames file.name))
    (hw : v.overlayInitrd archive = some w) : w.contents qs = none := by
  induction archive generalizing v with
  | nil => exact some.inj hw ▸ hfree
  | cons file archive ih =>
    obtain ⟨u, hu, ho⟩ := overlayFile_overlays h hdir (hshort file mem_cons_self)
    rw [overlayInitrd, run_cons_of_eq hu] at hw
    refine ih ho.tree ((ho.grows.isDir_eq h.root_lt).trans hdir)
      (fun f hf => hshort f (.tail _ hf)) ?_ (fun f hf => hother f (.tail _ hf)) hw
    obtain ⟨hway, hpath⟩ := hother file mem_cons_self
    cases hc : u.contents qs with
    | none => rfl
    | some c => exact absurd (ho.new qs c hfree hc) (not_or.mpr ⟨hway, hpath⟩)

lemma overlayInitrd_puts (h : IsTree v) (hdir : (v.node rootNode).isDir = true)
    (hshort : ∀ f ∈ before ++ file :: after, ∀ seg ∈ segmentsOf f.name,
      seg.name.length < vfsNameMax)
    (hends : EndsInName file.name) (hfree : v.contents (pathNames file.name) = none)
    (hother : ∀ f ∈ before, pathNames f.name ≠ pathNames file.name ∧
      ¬ pathNames file.name <+: wayNames f.name)
    (hw : v.overlayInitrd (before ++ file :: after) = some w)
    (hclear : ∀ qs, qs <+: wayNames file.name → ∀ c, w.contents qs = some c → c.isDir = true) :
    w.contents (pathNames file.name) = some (fileContent file) := by
  have hshort₁ := fun f hf => hshort f (mem_append_left _ hf)
  have hshort₂ := hshort file (mem_append_right _ mem_cons_self)
  have hshort₃ := fun f hf => hshort f (mem_append_right _ (.tail _ hf))
  obtain ⟨v₁, h₁, htree₁, hdir₁, hgrows₁, -, -⟩ := overlayInitrd_keeps h hdir hshort₁
  obtain ⟨v₂, h₂, ho⟩ := overlayFile_overlays htree₁ hdir₁ hshort₂
  have hdir₂ := (ho.grows.isDir_eq htree₁.root_lt).trans hdir₁
  obtain ⟨v₃, h₃, htree₃, -, hgrows₃, hfinds₃, -⟩ := overlayInitrd_keeps ho.tree hdir₂ hshort₃
  obtain rfl : v₃ = w := by
    rw [overlayInitrd, run_append, ← overlayInitrd, h₁, bind_some, run_cons_of_eq h₂,
      ← overlayInitrd, h₃] at hw
    exact some.inj hw
  refine contents_kept ho.tree hgrows₃ hfinds₃ (ho.puts hends ?_ fun qs hqs c hc => ?_)
  · exact overlayInitrd_free h hdir hshort₁ hfree
      (fun f hf => ⟨(hother f hf).2, fun heq => (hother f hf).1 heq.2.symm⟩) h₁
  · exact hclear qs hqs c (contents_kept ho.tree hgrows₃ hfinds₃
      (contents_kept htree₁ ho.grows ho.finds hc))

/-! ## Paths -/

lemma Ext2Tree.isTree (hu : Ext2Tree u) : IsTree u ∧ (u.node rootNode).isDir = true := by
  induction hu with
  | root => exact ⟨.bare, rfl⟩
  | entry hu hp name path isDir ih =>
    exact ⟨ih.1.attach hp rfl, ((Grows.attach hp).isDir_eq ih.1.root_lt).trans ih.2⟩

lemma initExt2_tree (hu : Ext2Tree u) (hv : initExt2 u = some v) :
    IsTree v ∧ (v.node rootNode).isDir = true ∧ v.mounted = true := by
  obtain ⟨x, hrun, rfl⟩ := map_eq_some_iff.mp hv
  have hx : IsTree x ∧ (x.node rootNode).isDir = true := by
    refine run_invariant (P := fun x => IsTree x ∧ (x.node rootNode).isDir = true)
      (fun {s f s'} hs hf => ⟨hs.1.insertFile hf, ?_⟩) hu.isTree hrun
    obtain ⟨y, target, hd, hy⟩ := insertFile_spec hf
    have hgrows := Grows.descend hs.1 hs.1.root_lt hd
    rw [← hs.2]
    rcases hy with ⟨-, rfl⟩ | ⟨q, name, rfl, hsame⟩
    · exact hgrows.isDir_eq hs.1.root_lt
    · have hq := ((hs.1.descend hs.1.root_lt hd).2 q name rfl).1
      exact (hgrows.trans ((Grows.attach hq).trans (.of_sameTree hsame))).isDir_eq hs.1.root_lt
  exact ⟨⟨hx.1.root_lt, hx.1.root_parent, hx.1.children_nodup, hx.1.children_lt,
    hx.1.mem_children, hx.1.has_parent⟩, hx.2, rfl⟩

lemma resolve_names {path : List U8} (hmounted : v.mounted = true)
    (hplain : ∀ name ∈ ps, plain name = true ∧ name.length < vfsNameMax)
    (hpath : pathNames path = ps) : v.resolve none path = some (v.walk rootNode ps) := by
  rw [resolve_none hmounted, ← resolveFrom_toSegments hplain]
  exact resolveFrom_congr (hpath.trans (map_name_toSegments ps).symm) rootNode

lemma Extends.resolve (h : IsTree v) (hgrows : Grows v w) (hfinds : Extends v w)
    (hmounted : w.mounted = v.mounted) {cwd : Option NodeId} (hcwd : ∀ b, cwd = some b → b < v.size)
    {path : List U8} (hr : v.resolve cwd path = some (some n)) :
    w.resolve cwd path = some (some n) := by
  rw [Vfs.resolve] at hr ⊢
  rw [hmounted]
  cases hm : v.mounted with
  | false =>
    rw [hm] at hr
    cases hr
  | true =>
    rw [hm, if_neg (by simp)] at hr
    rw [if_neg (by simp)]
    by_cases hroot : path = [slash]
    · rw [if_pos hroot] at hr ⊢
      exact hr
    rw [if_neg hroot] at hr ⊢
    refine resolveFrom_of_kept (S := (· < v.size)) ?_ (fun hq => ⟨hgrows.parent_eq hq,
      fun p hp => (h.parent_lt hq hp).trans hq⟩)
      (fun hq _ hc => ⟨hfinds _ _ _ hq hc, h.findChild_lt hq hc⟩) hr
    split_ifs
    · exact h.root_lt
    · cases cwd with
      | none => exact h.root_lt
      | some b => exact hcwd b rfl

/-- **Precedence of the overlay.**  The archive's files change no path that resolved before.  A path
that was free resolves to the first entry with it, if it is plain and ends in a name, no file is on
its way, and no earlier entry goes through it. -/
theorem overlay_precedence (hu : Ext2Tree u) (hv : initExt2 u = some v)
    (hshort : ∀ file ∈ archive, ∀ seg ∈ segmentsOf file.name, seg.name.length < vfsNameMax) :
    ∃ w, v.overlayInitrd archive = some w ∧
      (∀ cwd path n, (∀ b, cwd = some b → b < v.size) → v.resolve cwd path = some (some n) →
        w.resolve cwd path = some (some n)) ∧
      ∀ before file after, archive = before ++ file :: after → plainPath file.name = true →
        v.resolve none file.name = some none →
        (∀ f ∈ before, pathNames f.name ≠ pathNames file.name) →
        (∀ ps n, ps <+: pathNames file.name → ps ≠ pathNames file.name →
          w.resolve none (spell ps) = some (some n) → (w.node n).isDir = true) →
        EndsInName file.name → (∀ f ∈ before, ¬ pathNames file.name <+: wayNames f.name) →
          ∃ n, w.resolve none file.name = some (some n) ∧ (w.node n).isDir = false ∧
            (w.node n).file = some file := by
  obtain ⟨htree, hdir, hmounted⟩ := initExt2_tree hu hv
  obtain ⟨w, hw, hwtree, -, hgrows, hfinds, hflag⟩ := overlayInitrd_keeps htree hdir hshort
  refine ⟨w, hw, fun cwd path n hcwd hr => hfinds.resolve htree hgrows hflag hcwd hr, ?_⟩
  rintro before file after rfl hplain hfree hfirst hclear hends hthrough
  have hwm : w.mounted = true := hflag.trans hmounted
  have hnames : ∀ name ∈ pathNames file.name, plain name = true ∧ name.length < vfsNameMax := by
    intro name hname
    obtain ⟨seg, hseg, rfl⟩ := mem_map.mp hname
    exact ⟨plainPath_iff.mp hplain seg hseg,
      hshort file (mem_append_right _ mem_cons_self) seg hseg⟩
  have hput := overlayInitrd_puts htree hdir hshort hends ?_
    (fun f hf => ⟨hfirst f hf, hthrough f hf⟩) hw fun qs hqs c hc => ?_
  · rw [resolve_names hwm hnames rfl]
    obtain ⟨n, hn, hcontent⟩ := map_eq_some_iff.mp hput
    refine ⟨n, by rw [hn], congrArg Content.isDir hcontent, congrArg Content.file hcontent⟩
  · rw [resolve_names hmounted hnames rfl, some.injEq] at hfree
    rw [contents, hfree, map_none]
  · -- a directory on the way is a proper prefix of the path
    obtain ⟨name, hpath⟩ := pathNames_eq hends
    have hbegins : qs <+: pathNames file.name := hpath ▸ hqs.trans (prefix_append _ _)
    have hne : qs ≠ pathNames file.name := by
      rintro rfl
      have hlen := hqs.length_le
      rw [hpath, length_append] at hlen
      exact absurd hlen (not_succ_le_self _)
    obtain ⟨n, hn, rfl⟩ := map_eq_some_iff.mp hc
    refine hclear qs n hbegins hne ?_
    rw [resolve_names hwm (fun name hname => hnames name (hbegins.subset hname)) ?_, hn]
    rw [pathNames, segmentsOf_spell fun name hname => name_proper (hbegins.subset hname),
      map_name_toSegments]

/-- The virtual files over an empty ext2 partition. -/
def ext2Tree : Vfs := (initExt2 bare).getD bare

lemma initExt2_bare : initExt2 bare = some ext2Tree :=
  (getD_of_ne_none (by decide +kernel) _).symm

/-- The tree with the files of an archive of empty files. -/
def overlaid (names : List (List U8)) : Vfs :=
  (ext2Tree.overlayInitrd (names.map fun name => ⟨name, []⟩)).getD bare

/-- A file behind another one, and a virtual file that was there before. -/
theorem overlay_precedence_file :
    ∃ w n m, ext2Tree.overlayInitrd [⟨text "b", []⟩, ⟨text "a", []⟩] = some w ∧
      ext2Tree.resolve none (text "dev/null") = some (some m) ∧
      w.resolve none (text "dev/null") = some (some m) ∧
      w.resolve none (text "a") = some (some n) ∧ (w.node n).file = some ⟨text "a", []⟩ := by
  obtain ⟨w, hw, hkeeps, hput⟩ := @overlay_precedence ext2Tree bare
    [⟨text "b", []⟩, ⟨text "a", []⟩] .root initExt2_bare (by decide)
  have hover : overlaid [text "b", text "a"] = w := by
    rw [overlaid, map_cons, map_singleton, hw]
    rfl
  have hclear : ∀ ps n, ps <+: pathNames (text "a") → ps ≠ pathNames (text "a") →
      w.resolve none (spell ps) = some (some n) → (w.node n).isDir = true := by
    rintro ps n hps hne hn
    obtain rfl : ps = [] := (prefix_concat_iff.mp (show ps <+: [] ++ [text "a"] from hps)).elim
      (fun heq => absurd heq hne) prefix_nil.mp
    have hroot : (overlaid [text "b", text "a"]).resolve none (spell []) =
          some (some rootNode) ∧
        ((overlaid [text "b", text "a"]).node rootNode).isDir = true := by decide +kernel
    rw [hover] at hroot
    obtain rfl : rootNode = n := some.inj (some.inj (hroot.1.symm.trans hn))
    exact hroot.2
  obtain ⟨n, hn, -, hfile⟩ := hput [⟨text "b", []⟩] ⟨text "a", []⟩ [] rfl (by decide)
    (by decide +kernel) (by decide) hclear ⟨⟨text "a", true⟩, by decide, rfl⟩ (by decide)
  have hnull : ext2Tree.resolve none (text "dev/null") = some (some 10) := by decide +kernel
  exact ⟨w, n, 10, hw, hnull, hkeeps none _ _ (by simp) hnull, hn, hfile⟩

/-- **Directories in place of a file**: behind an entry below it, and for an entry that ends in a
slash. -/
theorem overlay_directory :
    Ext2Tree bare ∧ initExt2 bare = some ext2Tree ∧
      ext2Tree.resolve none (text "a") = some none ∧
      (∃ w n, ext2Tree.overlayInitrd [⟨text "a/b", []⟩, ⟨text "a", []⟩] = some w ∧
        w.resolve none (text "a") = some (some n) ∧ (w.node n).isDir = true) ∧
      ∃ w n, ext2Tree.overlayInitrd [⟨text "a/", []⟩] = some w ∧
        w.resolve none (text "a/") = some (some n) ∧ (w.node n).isDir = true := by
  have hbelow : ext2Tree.overlayInitrd [⟨text "a/b", []⟩, ⟨text "a", []⟩] ≠ none := by
    decide +kernel
  have hslash : ext2Tree.overlayInitrd [⟨text "a/", []⟩] ≠ none := by decide +kernel
  exact ⟨.root, initExt2_bare, by decide +kernel,
    ⟨_, ext2Tree.size, (getD_of_ne_none hbelow bare).symm, by decide +kernel⟩,
    _, ext2Tree.size, (getD_of_ne_none hslash bare).symm, by decide +kernel⟩

end OpenHobbyOS.Vfs
