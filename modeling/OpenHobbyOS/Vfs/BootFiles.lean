/-
# The archive's files in the tree

`vfs_init_ramfs` puts the files of the archive into the tree and then the virtual files.  Seen from
outside the tree is a map from paths to contents (`contents`), and putting in a file is the
insertion of `Lib.PathMap`; new nodes hide what has the same name.
-/
import OpenHobbyOS.Lib.PathMap
import OpenHobbyOS.Vfs.Agreement
import OpenHobbyOS.Vfs.Read

namespace OpenHobbyOS.Vfs

open Lib Paging PathMap List Option

variable {v w : Vfs} {p q n : NodeId} {nd : VfsNode} {name : List U8} {ps qs : List (List U8)}

/-! ## The tree as a map -/

/-- The node the names lead to. -/
def walk (v : Vfs) : NodeId → List (List U8) → Option NodeId
  | p, [] => some p
  | p, name :: rest => (v.findChild p name).bind fun c => walk v c rest

/-- A node apart from its place in the tree. -/
structure Content where
  isDir : Bool
  virtualId : Option VirtualFile
  file : Option InitrdFile
  ramfile : Option RamfileId
  deriving DecidableEq

/-- What a node holds. -/
def content (nd : VfsNode) : Content := ⟨nd.isDir, nd.virtualId, nd.file, nd.ramfile⟩

/-- A directory's content. -/
def directory : Content := ⟨true, none, none, none⟩

/-- What is found at each path. -/
def contents (v : Vfs) : PathMap (List U8) Content := fun ps =>
  (v.walk rootNode ps).map fun n => content (v.node n)

lemma walk_append : v.walk p (ps ++ qs) = (v.walk p ps).bind fun q => v.walk q qs := by
  induction ps generalizing p with
  | nil => rfl
  | cons name ps ih =>
    simp only [cons_append, walk, bind_assoc, ih]

lemma walk_concat : v.walk p (ps ++ [name]) = (v.walk p ps).bind fun q => v.findChild q name := by
  simp [walk_append, walk]

lemma walk_lt (h : IsTree v) (hp : p < v.size) (hw : v.walk p ps = some n) : n < v.size := by
  induction ps generalizing p with
  | nil => exact some.inj hw ▸ hp
  | cons name ps ih =>
    obtain ⟨c, hc, hrest⟩ := bind_eq_some_iff.mp hw
    exact ih (h.findChild_lt hp hc) hrest

lemma namesTo_of_walk (h : IsTree v) (hw : v.walk rootNode ps = some n) :
    v.namesTo (n + 1) n = ps := by
  induction ps using List.reverseRecOn generalizing n with
  | nil =>
    obtain rfl : rootNode = n := some.inj hw
    exact namesTo_root h
  | append_singleton ps name ih =>
    rw [walk_concat] at hw
    obtain ⟨q, hq, hn⟩ := bind_eq_some_iff.mp hw
    have hlt : q < v.size := walk_lt h h.root_lt hq
    obtain ⟨hmem, hname⟩ := findChild_eq_some hn
    rw [namesTo_child h (h.children_lt hlt hmem) (h.parent_eq hlt hmem), ih hq, hname]

lemma walk_congr (h : ∀ p name, w.findChild p name = v.findChild p name) :
    w.walk p ps = v.walk p ps := by
  induction ps generalizing p with
  | nil => rfl
  | cons name ps ih => simp only [walk, h, ih]

lemma contents_congr (h : ∀ p name, w.findChild p name = v.findChild p name)
    (hnode : ∀ n, content (w.node n) = content (v.node n)) : w.contents = v.contents := by
  funext ps
  simp only [contents, walk_congr h, hnode]

lemma SameTree.contents_eq (hs : SameTree v w) : w.contents = v.contents := by
  refine contents_congr hs.findChild_eq fun n => ?_
  have hnode := hs.node_eq n
  rw [uncached, uncached, VfsNode.mk.injEq] at hnode
  obtain ⟨-, -, hdir, hvirtual, hfile, hram, -, -⟩ := hnode
  rw [content, content, hdir, hvirtual, hfile, hram]

lemma contents_ne_none (hp : v.walk rootNode ps = some p) (hq : qs <+: ps) :
    v.contents qs ≠ none := by
  obtain ⟨rest, rfl⟩ := hq
  rw [walk_append] at hp
  obtain ⟨q, hq, -⟩ := bind_eq_some_iff.mp hp
  simp [contents, hq]

lemma contents_eq_none (hp : v.walk rootNode ps = some p) (hfree : v.findChild p name = none)
    (hq : ps ++ [name] <+: qs) : v.contents qs = none := by
  obtain ⟨rest, rfl⟩ := hq
  simp [contents, walk_append, walk, hp, hfree]

/-! ## Steps of the tree are steps of the map -/

lemma walk_attach (h : IsTree v) (hp : v.walk rootNode ps = some p) (hnd : nd.children = []) :
    (v.attach p nd).walk rootNode qs =
      if qs = ps ++ [nd.name] then some v.size
      else if ps ++ [nd.name] <+: qs then none else v.walk rootNode qs := by
  have hlt : p < v.size := walk_lt h h.root_lt hp
  induction qs using List.reverseRecOn with
  | nil => simp [walk]
  | append_singleton qs name ih =>
    rw [walk_concat, ih]
    by_cases hbelow : ps ++ [nd.name] <+: qs
    · -- the way leads through the new node, which has no children
      have hbelow' : ps ++ [nd.name] <+: qs ++ [name] := hbelow.trans (prefix_append _ _)
      have hne : qs ++ [name] ≠ ps ++ [nd.name] := by
        intro heq
        have := hbelow.length_le
        rw [← heq] at this
        simp at this
      rw [if_pos hbelow, if_neg hne, if_pos hbelow']
      split_ifs
      · rw [bind_some, findChild, node_attach_new _ hlt, hnd, find?_nil]
      · rfl
    · have hne : qs ≠ ps ++ [nd.name] := fun heq => hbelow (heq ▸ prefix_rfl)
      have hiff : ps ++ [nd.name] <+: qs ++ [name] ↔ qs ++ [name] = ps ++ [nd.name] := by
        rw [prefix_concat_iff, or_iff_left hbelow, eq_comm]
      rw [if_neg hne, if_neg hbelow]
      by_cases heq : qs ++ [name] = ps ++ [nd.name]
      · obtain ⟨rfl, hname⟩ := append_inj' heq rfl
        rw [if_pos heq, hp, bind_some, findChild_attach h hlt hlt,
          if_pos ⟨rfl, (List.cons.inj hname).1.symm⟩]
      · rw [if_neg heq, if_neg (fun hpre => heq (hiff.mp hpre)), walk_concat]
        cases hq : v.walk rootNode qs with
        | none => rfl
        | some q =>
          rw [bind_some, bind_some, findChild_attach h hlt (walk_lt h h.root_lt hq),
            if_neg]
          rintro ⟨rfl, rfl⟩
          rw [← namesTo_of_walk h hp, namesTo_of_walk h hq] at heq
          exact heq rfl

lemma content_attach (hp : p < v.size) (n : NodeId) :
    content ((v.attach p nd).node n) = if n = v.size then content nd else content (v.node n) := by
  rw [node_attach _ _ hp]
  by_cases hnp : n = p
  · subst hnp
    rw [if_pos rfl, if_neg hp.ne]
    rfl
  · rw [if_neg hnp]
    split_ifs <;> rfl

theorem contents_attach (h : IsTree v) (hp : v.walk rootNode ps = some p)
    (hnd : nd.children = []) :
    (v.attach p nd).contents = graft v.contents (ps ++ [nd.name]) (content nd) := by
  have hlt : p < v.size := walk_lt h h.root_lt hp
  funext qs
  rw [contents, walk_attach h hp hnd, graft]
  by_cases heq : qs = ps ++ [nd.name]
  · rw [if_pos heq, if_pos heq, map_some, content_attach hlt, if_pos rfl]
  rw [if_neg heq, if_neg heq]
  by_cases hbelow : ps ++ [nd.name] <+: qs
  · rw [if_pos hbelow, if_pos hbelow, map_none]
  rw [if_neg hbelow, if_neg hbelow, contents]
  cases hq : v.walk rootNode qs with
  | none => rfl
  | some q =>
    rw [map_some, map_some, content_attach hlt, if_neg (walk_lt h h.root_lt hq).ne]

lemma contents_findOrCreateDirectory (h : IsTree v) (hp : v.walk rootNode ps = some p)
    (hfit : name.length < vfsNameMax) :
    ∃ w c, v.findOrCreateDirectory p name = (w, c) ∧ IsTree w ∧
      w.walk rootNode (ps ++ [name]) = some c ∧
      w.contents = makeDirs directory v.contents (ps ++ [name]) := by
  have hlt : p < v.size := walk_lt h h.root_lt hp
  rw [findOrCreateDirectory]
  cases hfind : v.findChild p name with
  | some c =>
    have hc : v.walk rootNode (ps ++ [name]) = some c := by rw [walk_concat, hp, bind_some, hfind]
    exact ⟨v, c, rfl, h, hc, (makeDirs_eq_self fun _ hqs => contents_ne_none hc hqs).symm⟩
  | none =>
    have hname : (newNode name true).name = name := newNode_name hfit true
    refine ⟨_, _, rfl, h.attach hlt rfl, ?_, ?_⟩
    · rw [walk_attach h hp rfl, hname, if_pos rfl]
    · rw [contents_attach h hp rfl, hname]
      exact graft_eq_makeDirs (fun _ hqs => contents_ne_none hp hqs)
        fun _ hqs => contents_eq_none hp hfind hqs

/-- **The walk to a new file** makes the directories on its way. -/
theorem contents_descend (h : IsTree v) (hp : v.walk rootNode ps = some p) (hne : qs ≠ [])
    (hfit : ∀ name ∈ qs, name.length < vfsNameMax) :
    ∃ w q, v.descend p (toSegments qs) = some (w, some (q, qs.getLast hne)) ∧ IsTree w ∧
      w.walk rootNode (ps ++ qs.dropLast) = some q ∧
      w.contents = makeDirs directory v.contents (ps ++ qs.dropLast) := by
  induction qs generalizing v p ps with
  | nil => exact absurd rfl hne
  | cons name qs ih =>
    have hname : name.length < vfsNameMax := hfit name mem_cons_self
    rw [toSegments, descend, if_neg (Nat.not_le_of_lt hname)]
    by_cases hlast : qs = []
    · subst hlast
      refine ⟨v, p, by simp, h, by simpa using hp, ?_⟩
      rw [dropLast_singleton, append_nil]
      exact (makeDirs_eq_self fun _ hqs => contents_ne_none hp hqs).symm
    · obtain ⟨u, c, hstep, hu, hc, hmade⟩ := contents_findOrCreateDirectory h hp hname
      obtain ⟨w, q, hd, hw, hq, hrest⟩ :=
        ih hu hc hlast fun name hname => hfit name (.tail _ hname)
      have hway : ps ++ (name :: qs).dropLast = ps ++ [name] ++ qs.dropLast := by
        simp [dropLast_cons_of_ne_nil hlast]
      refine ⟨w, q, ?_, hw, by rw [hway, hq], ?_⟩
      · rw [if_neg (by simpa using hlast), hstep, hd, getLast_cons hlast]
      · rw [hrest, hmade, hway]
        exact makeDirs_makeDirs (prefix_append _ _)

/-! ## The tree at boot -/

namespace BootFile

/-- The names in the file's path. -/
def names (f : BootFile) : List (List U8) := (segmentsOf f.path).map Segment.name

/-- What the file's node holds. -/
def content (f : BootFile) : Content := Vfs.content (f.node [])

/-- The path ends in a name, and none of its names is too long. -/
def Spelled (f : BootFile) : Prop :=
  f.names ≠ [] ∧ segmentsOf f.path = toSegments f.names ∧
    ∀ name ∈ f.names, name.length < vfsNameMax

instance decidableSpelled (f : BootFile) : Decidable f.Spelled :=
  inferInstanceAs (Decidable (_ ∧ _ ∧ _))

lemma content_node (f : BootFile) (name : List U8) : Vfs.content (f.node name) = f.content := by
  cases f <;> rfl

end BootFile

theorem contents_insertFile (h : IsTree v) {f : BootFile} (hf : f.Spelled) :
    ∃ w, v.insertFile f = some w ∧ IsTree w ∧
      w.contents = PathMap.insert directory v.contents f.names f.content := by
  obtain ⟨hne, hsegs, hfit⟩ := hf
  obtain ⟨u, q, hd, hu, hq, hmade⟩ :=
    contents_descend h (show v.walk rootNode [] = some rootNode from rfl) hne hfit
  have hlast : (f.node (f.names.getLast hne)).name = f.names.getLast hne := by
    rw [name_bootNode]
    exact newNode_name (hfit _ (getLast_mem hne)) false
  have hattach : (u.attach q (f.node (f.names.getLast hne))).contents =
      PathMap.insert directory v.contents f.names f.content := by
    rw [contents_attach hu hq (children_bootNode _ _), hlast, f.content_node, hmade, PathMap.insert,
      nil_append, dropLast_append_getLast hne]
  have hw : ∃ w, v.insertFile f = some w ∧ SameTree (u.attach q (f.node (f.names.getLast hne))) w := by
    rw [insertFile, hsegs, hd]
    cases f with
    | archive file => exact ⟨_, rfl, .cachePath _ _⟩
    | virtual path id => exact ⟨_, rfl, .refl _⟩
  obtain ⟨w, hinsert, hsame⟩ := hw
  exact ⟨w, hinsert, h.insertFile hinsert, hsame.contents_eq.trans hattach⟩

theorem contents_run {files : List BootFile} (h : IsTree v) (hfiles : ∀ f ∈ files, f.Spelled) :
    ∃ w, run insertFile v files = some w ∧
      w.contents = build directory v.contents (files.map fun f => (f.names, f.content)) := by
  induction files generalizing v with
  | nil => exact ⟨v, rfl, rfl⟩
  | cons f files ih =>
    obtain ⟨u, hu, htree, hinsert⟩ := contents_insertFile h (hfiles f mem_cons_self)
    obtain ⟨w, hw, hbuild⟩ := ih htree fun g hg => hfiles g (.tail _ hg)
    exact ⟨w, by rw [run_cons_of_eq hu, hw], by rw [hbuild, hinsert]; rfl⟩

lemma open_bare (ps : List (List U8)) : Open directory bare.contents ps := by
  cases ps with
  | nil => exact .inr rfl
  | cons name ps => exact .inl rfl

lemma spelled_virtualFiles : ∀ f ∈ virtualFiles, f.Spelled := by decide +kernel

/-- **The tree at boot** holds the archive's files and then the virtual ones. -/
theorem contents_initRamfs {archive : List InitrdFile}
    (h : ∀ file ∈ archive, (BootFile.archive file).Spelled) :
    ∃ v, initRamfs archive = some v ∧ v.mounted = true ∧
      v.contents = build directory bare.contents
        ((bootFiles archive).map fun f => (f.names, f.content)) := by
  have hall : ∀ f ∈ bootFiles archive, f.Spelled := by
    intro f hf
    rcases mem_append.mp hf with hf | hf
    · obtain ⟨file, hfile, rfl⟩ := mem_map.mp hf
      exact h file hfile
    · exact spelled_virtualFiles f hf
  obtain ⟨w, hrun, hw⟩ := contents_run IsTree.bare hall
  refine ⟨{ w with mounted := true }, ?_, rfl, ?_⟩
  · rw [initRamfs, hrun, map_some]
  · rw [← hw]
    exact contents_congr (fun _ _ => rfl) fun _ => rfl

lemma pairwise_virtualFiles :
    virtualFiles.Pairwise fun f g => ¬ g.names <+: f.names := by decide +kernel

lemma isDir_virtualFiles : ∀ u ∈ virtualFiles, u.content.isDir = false := by decide +kernel

/-! ## Files of an archive -/

/-- A file of an archive with its path: names between slashes, and perhaps a slash in
front. -/
structure ArchiveFile where
  names : List (List U8)
  absolute : Bool
  data : List U8
  ne_nil : names ≠ []
  proper : ∀ name ∈ names, name ≠ [] ∧ slash ∉ name ∧ plain name = true ∧ name.length < vfsNameMax

namespace ArchiveFile

/-- The path in the archive. -/
def path (f : ArchiveFile) : List U8 := if f.absolute then spell f.names else (spell f.names).tail

/-- The entry of the archive. -/
def initrdFile (f : ArchiveFile) : InitrdFile := ⟨f.path, f.data⟩

lemma segmentsOf_path (f : ArchiveFile) : segmentsOf f.path = toSegments f.names := by
  have hproper : ∀ name ∈ f.names, name ≠ [] ∧ slash ∉ name := fun name hname =>
    ⟨(f.proper name hname).1, (f.proper name hname).2.1⟩
  rw [path]
  split_ifs
  · exact segmentsOf_spell hproper
  · obtain ⟨a, rest, hnames⟩ := exists_cons_of_ne_nil f.ne_nil
    -- the slash that is left out would have been skipped
    have htail : (spell f.names).tail = a ++ rest.flatMap (slash :: ·) := by
      rw [spell, if_neg f.ne_nil, hnames]
      rfl
    have hlen : f.names.length ≤ (spell f.names).tail.length := by
      have ha : 0 < a.length :=
        length_pos_iff.mpr (hproper a (hnames ▸ mem_cons_self)).1
      have hrest := length_le_flatMap rest
      rw [htail, hnames, length_append, length_cons]
      omega
    have hskip : ∀ fuel cursor, pathSegments fuel (slash :: cursor) = pathSegments fuel cursor := by
      intro fuel cursor
      cases fuel with
      | zero => rfl
      | succ fuel => simp [pathSegments, pathSegment]
    rw [segmentsOf, ← pathSegments_flatMap hlen hproper, ← hskip, htail, hnames]
    rfl

lemma names_boot (f : ArchiveFile) : (BootFile.archive f.initrdFile).names = f.names := by
  rw [BootFile.names, BootFile.path, initrdFile, segmentsOf_path, map_name_toSegments]

lemma spelled (f : ArchiveFile) : (BootFile.archive f.initrdFile).Spelled := by
  rw [BootFile.Spelled, names_boot]
  exact ⟨f.ne_nil, f.segmentsOf_path, fun name hname => (f.proper name hname).2.2.2⟩

end ArchiveFile

lemma resolveFrom_toSegments (h : ∀ name ∈ ps, plain name = true ∧ name.length < vfsNameMax) :
    v.resolveFrom p (toSegments ps) = some (v.walk p ps) := by
  induction ps generalizing p with
  | nil => rfl
  | cons name ps ih =>
    obtain ⟨hplain, hfit⟩ := h name mem_cons_self
    obtain ⟨hdot, hdotdot⟩ := plain_iff.mp hplain
    rw [toSegments, resolveFrom, if_neg (Nat.not_le_of_lt hfit), if_neg hdot, if_neg hdotdot, walk]
    cases v.findChild p name with
    | none => rfl
    | some c => exact ih fun name hname => h name (.tail _ hname)

lemma exists_resolve_iff {path : List U8} {P : Content → Prop} (hmounted : v.mounted = true)
    (hpath : segmentsOf path = toSegments ps)
    (h : ∀ name ∈ ps, plain name = true ∧ name.length < vfsNameMax) :
    (∃ n, v.resolve (some rootNode) path = some (some n) ∧ P (content (v.node n))) ↔
      ∃ c, v.contents ps = some c ∧ P c := by
  have hresolve : v.resolve (some rootNode) path = some (v.walk rootNode ps) :=
    (resolve_none hmounted path).trans (by rw [hpath, resolveFrom_toSegments h])
  rw [hresolve, contents]
  cases v.walk rootNode ps <;> simp

/-- No path is another one's or lies above it, and none is a virtual file's or lies above it. -/
structure Separate (archive : List ArchiveFile) : Prop where
  apart : archive.Pairwise fun f g => ¬ f.names <+: g.names ∧ ¬ g.names <+: f.names
  off_virtual : ∀ f ∈ archive, ∀ u ∈ virtualFiles, ¬ f.names <+: u.names

/-- The file is found and read as its data, and directories are on its way. -/
def Visible (v : Vfs) (g : Gauges) (f : ArchiveFile) (offset length : ℕ) : Prop :=
  (∃ n, v.resolve (some rootNode) f.path = some (some n) ∧ (v.node n).isDir = false ∧
    v.read g n offset length =
      some (((slice f.data offset length).length : ℤ), slice f.data offset length)) ∧
  ∀ ps, ps <+: f.names → ps ≠ f.names →
    ∃ d, v.resolve (some rootNode) (spell ps) = some (some d) ∧ (v.node d).isDir = true

/-! ## What is found at boot -/

/-- The entries of the files put in at boot. -/
def bootEntries (archive : List ArchiveFile) : List (List (List U8) × Content) :=
  (bootFiles (archive.map ArchiveFile.initrdFile)).map fun f => (f.names, f.content)

section Boot

variable {archive : List ArchiveFile} {f : ArchiveFile} {u : BootFile}

lemma bootEntries_eq (archive : List ArchiveFile) :
    bootEntries archive =
      archive.map (fun f => (f.names, (BootFile.archive f.initrdFile).content)) ++
        virtualFiles.map fun u => (u.names, u.content) := by
  simp [bootEntries, bootFiles, Function.comp_def, ArchiveFile.names_boot]

lemma build_archive (h : Separate archive) (hf : f ∈ archive)
    (hclear : ∀ u ∈ virtualFiles, ¬ u.names <+: f.names) :
    build directory bare.contents (bootEntries archive) f.names =
      some (BootFile.archive f.initrdFile).content := by
  obtain ⟨before, after, rfl⟩ := append_of_mem hf
  have hafter : ∀ g ∈ after, ¬ g.names <+: f.names := fun g hg =>
    ((pairwise_cons.mp (pairwise_append.mp h.apart).2.1).1 g hg).2
  rw [bootEntries_eq, map_append, map_cons, append_assoc, cons_append]
  refine build_file fun e he => ?_
  rcases mem_append.mp he with he | he
  · obtain ⟨g, hg, rfl⟩ := mem_map.mp he
    exact hafter g hg
  · obtain ⟨u, hu, rfl⟩ := mem_map.mp he
    exact hclear u hu

lemma build_way (h : Separate archive) (hf : f ∈ archive)
    (hclear : ∀ u ∈ virtualFiles, ¬ u.names <+: f.names) (hps : ps <+: f.names)
    (hne : ps ≠ f.names) :
    build directory bare.contents (bootEntries archive) ps = some directory := by
  have hmem : (f.names, (BootFile.archive f.initrdFile).content) ∈ bootEntries archive := by
    rw [bootEntries_eq]
    exact mem_append_left _ (mem_map_of_mem hf)
  refine build_dir (open_bare ps) hmem hps hne fun e he hpre => ?_
  rw [bootEntries_eq] at he
  rcases mem_append.mp he with he | he
  · obtain ⟨g, hg, rfl⟩ := mem_map.mp he
    by_cases hgf : g = f
    · subst hgf
      exact hne (hps.eq_of_length_le hpre.length_le)
    · -- two files of the archive, neither above the other
      have hsymm : Std.Symm fun f g : ArchiveFile =>
          ¬ f.names <+: g.names ∧ ¬ g.names <+: f.names := ⟨fun _ _ hfg => hfg.symm⟩
      exact (h.apart.forall hg hf hgf).1 (hpre.trans hps)
  · obtain ⟨u, hu, rfl⟩ := mem_map.mp he
    exact hclear u hu (hpre.trans hps)

lemma build_virtual (hu : u ∈ virtualFiles) :
    build directory bare.contents (bootEntries archive) u.names = some u.content := by
  obtain ⟨before, after, hsplit⟩ := append_of_mem hu
  have hafter : ∀ g ∈ after, ¬ g.names <+: u.names := by
    have hpair := pairwise_virtualFiles
    rw [hsplit] at hpair
    exact (pairwise_cons.mp (pairwise_append.mp hpair).2.1).1
  rw [bootEntries_eq, hsplit, map_append, map_cons, ← append_assoc]
  refine build_file fun e he => ?_
  obtain ⟨g, hg, rfl⟩ := mem_map.mp he
  exact hafter g hg

end Boot

lemma read_content {file : InitrdFile}
    (h : content (v.node n) = (BootFile.archive file).content) :
    (v.node n).isDir = false ∧ ∀ g offset {length : ℕ}, length ≠ 0 → v.read g n offset length =
      some (ssize (slice file.data offset length).length, slice file.data offset length) := by
  have hfields := h
  rw [content, BootFile.content, content, Content.mk.injEq] at hfields
  obtain ⟨hdir, hvirtual, hfile, hram⟩ := hfields
  exact ⟨hdir, fun g offset _ hlen => read_file hdir hvirtual hram hfile offset hlen⟩

/-- **A file of the archive is visible after `vfs_init_ramfs`** exactly if no virtual file
lies above it and some bytes are asked for, no more than an `ssize_t` counts. -/
theorem archive_visible_iff {archive : List ArchiveFile} (h : Separate archive) :
    ∃ v, initRamfs (archive.map ArchiveFile.initrdFile) = some v ∧
      ∀ g, ∀ f ∈ archive, ∀ offset length, Visible v g f offset length ↔
        (∀ u ∈ virtualFiles, ¬ u.names <+: f.names) ∧ length ≠ 0 ∧
          min length (f.data.length - offset) < 2 ^ 31 := by
  have hspelled : ∀ file ∈ archive.map ArchiveFile.initrdFile, (BootFile.archive file).Spelled :=
    forall_mem_map.mpr fun f _ => f.spelled
  obtain ⟨v, hinit, hmounted, hcontents⟩ := contents_initRamfs hspelled
  refine ⟨v, hinit, fun g f hf offset length => ?_⟩
  have hplain : ∀ name ∈ f.names, plain name = true ∧ name.length < vfsNameMax :=
    fun name hname => (f.proper name hname).2.2
  have hway : ∀ ps, ps <+: f.names →
      ((∃ d, v.resolve (some rootNode) (spell ps) = some (some d) ∧ (v.node d).isDir = true) ↔
        ∃ c, v.contents ps = some c ∧ c.isDir = true) := fun ps hps =>
    exists_resolve_iff (P := fun c => c.isDir = true) hmounted
      (segmentsOf_spell fun name hname =>
        ⟨(f.proper name (hps.subset hname)).1, (f.proper name (hps.subset hname)).2.1⟩)
      fun name hname => hplain name (hps.subset hname)
  have hfound : (∀ u ∈ virtualFiles, ¬ u.names <+: f.names) →
      ∃ n, v.resolve (some rootNode) f.path = some (some n) ∧
        content (v.node n) = (BootFile.archive f.initrdFile).content := fun hclear =>
    (exists_resolve_iff (P := fun c => c = (BootFile.archive f.initrdFile).content) hmounted
      f.segmentsOf_path hplain).mpr ⟨_, hcontents ▸ build_archive h hf hclear, rfl⟩
  constructor
  · rintro ⟨⟨n, hn, -, hread⟩, hdirs⟩
    -- a virtual file above it would be a directory
    have hclear : ∀ u ∈ virtualFiles, ¬ u.names <+: f.names := by
      intro u hu hpre
      have hne : u.names ≠ f.names := fun heq =>
        h.off_virtual f hf u hu (heq ▸ prefix_rfl)
      obtain ⟨c, hc, hcdir⟩ := (hway u.names hpre).mp (hdirs u.names hpre hne)
      rw [hcontents] at hc
      have huc : u.content = c := some.inj ((build_virtual hu).symm.trans hc)
      rw [← huc, isDir_virtualFiles u hu] at hcdir
      cases hcdir
    have hlen : length ≠ 0 := by
      rintro rfl
      rw [read_zero] at hread
      have := (Prod.mk.inj (some.inj hread)).1
      omega
    obtain ⟨n', hn', hfile⟩ := hfound hclear
    obtain rfl : n = n' := some.inj (some.inj (hn.symm.trans hn'))
    rw [(read_content hfile).2 g offset hlen] at hread
    have hcount := (ssize_eq_iff _).mp (Prod.mk.inj (some.inj hread)).1
    rw [length_slice] at hcount
    exact ⟨hclear, hlen, hcount⟩
  · rintro ⟨hclear, hlen, hcount⟩
    obtain ⟨n, hn, hfile⟩ := hfound hclear
    rw [← length_slice] at hcount
    refine ⟨⟨n, hn, (read_content hfile).1, ?_⟩, fun ps hps hne => ?_⟩
    · rw [(read_content hfile).2 g offset hlen, ← (ssize_eq_iff _).mpr hcount]
      rfl
    · exact (hway ps hps).mpr ⟨directory, hcontents ▸ build_way h hf hclear hps hne, rfl⟩

/-- `/bin/sh`. -/
def shellNames : List (List U8) := [text "bin", text "sh"]

lemma shellNames_proper : ∀ name ∈ shellNames,
    name ≠ [] ∧ slash ∉ name ∧ plain name = true ∧ name.length < vfsNameMax := by decide

/-- A file at `/bin/sh`. -/
def shellFile : ArchiveFile := ⟨shellNames, true, [1, 2, 3], cons_ne_nil _ _, shellNames_proper⟩

lemma separate_shell : Separate [shellFile] :=
  ⟨pairwise_singleton _ _, by decide +kernel⟩

/-- A read of two bytes at offset 1 of the one file of an archive. -/
theorem shell_visible :
    ∃ v, initRamfs [⟨text "/bin/sh", [1, 2, 3]⟩] = some v ∧ ∀ g, Visible v g shellFile 1 2 := by
  obtain ⟨v, hinit, hvisible⟩ := archive_visible_iff separate_shell
  refine ⟨v, hinit, fun g => (hvisible g shellFile mem_cons_self 1 2).mpr ⟨?_, ?_, ?_⟩⟩
  · decide +kernel
  · decide
  · decide

/-- `/dev/null/x`. -/
def hiddenNames : List (List U8) := [text "dev", text "null", text "x"]

lemma hiddenNames_proper : ∀ name ∈ hiddenNames,
    name ≠ [] ∧ slash ∉ name ∧ plain name = true ∧ name.length < vfsNameMax := by decide

/-- A file below `/dev/null`. -/
def hiddenFile : ArchiveFile := ⟨hiddenNames, true, [1], cons_ne_nil _ _, hiddenNames_proper⟩

/-- The file `/dev/null/x` of an archive: the virtual file `/dev/null` hides the directory
made for it. -/
theorem archive_file_hidden :
    Separate [hiddenFile] ∧ ∃ v, initRamfs [⟨text "/dev/null/x", [1]⟩] = some v ∧
      v.resolve (some rootNode) (text "/dev/null/x") = some none ∧
      ∃ n, v.resolve (some rootNode) (text "/dev/null") = some (some n) ∧
        (v.node n).isDir = false := by
  have hhidden : (initRamfs [⟨text "/dev/null/x", [1]⟩]).any (fun v =>
      v.resolve (some rootNode) (text "/dev/null/x") = some none ∧
        (v.resolve (some rootNode) (text "/dev/null")).any fun found =>
          found.any fun n => (v.node n).isDir = false) = true := by
    decide +kernel
  obtain ⟨v, hv, hall⟩ := (any_eq_true _ _).mp hhidden
  obtain ⟨hnone, hnull⟩ := of_decide_eq_true hall
  obtain ⟨found, hfound, hnull⟩ := (any_eq_true _ _).mp hnull
  obtain ⟨n, rfl, hdir⟩ := (any_eq_true _ _).mp hnull
  exact ⟨⟨pairwise_singleton _ _, by decide +kernel⟩, v, hv, hnone, n, hfound,
    of_decide_eq_true hdir⟩

end OpenHobbyOS.Vfs
