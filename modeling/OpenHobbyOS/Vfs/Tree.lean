/-
# The file tree

`src/vfs.c`: the nodes, the path walkers, the functions that change the tree and the tree built at
boot.  A node is named by the order of its allocation, the root being node 0; the `child` pointer
with the chain of `sibling` pointers is the list of children, newest first.

`none` is a halted machine: a segment of 64 bytes or more panics where a walk reaches it.  A node
that cannot be allocated panics as well, so a run goes on only with the node; whether a ramfile and
its buffer can be allocated is an input.  Left out are inode numbers and the nodes of an ext2 root.
-/
import Mathlib.Data.List.TakeWhile
import OpenHobbyOS.Kernel.Types
import OpenHobbyOS.Lib.Run

namespace OpenHobbyOS

open Lib Paging Function List

/-! ## Paths -/

/-- The bytes of a string constant of the source. -/
def text (s : String) : List U8 := s.toList.map fun c => BitVec.ofNat 8 c.toNat

/-- A slash. -/
def slash : U8 := 0x2F

/-- The name of the directory itself. -/
def dot : List U8 := text "."
/-- The name of the parent. -/
def dotdot : List U8 := text ".."

/-- `VFS_NAME_MAX`. -/
def vfsNameMax : ℕ := 64

/-- `path_segment`, `none` at the end of the path.  Its panic is left to the walks. -/
def pathSegment (cursor : List U8) : Option (List U8 × List U8) :=
  let cursor := cursor.dropWhile (· == slash)
  if cursor = [] then none
  else some (cursor.takeWhile (· != slash), cursor.dropWhile (· != slash))

/-- A segment, and whether the path ends right behind it (`*cursor == '\0'`). -/
structure Segment where
  name : List U8
  last : Bool
  deriving DecidableEq

/-- What the loop `while (path_segment(&cursor, segment, …))` runs through. -/
def pathSegments : ℕ → List U8 → List Segment
  | 0, _ => []
  | fuel + 1, cursor =>
    match pathSegment cursor with
    | none => []
    | some (name, cursor) => ⟨name, decide (cursor = [])⟩ :: pathSegments fuel cursor

/-- The segments of a path; the length is fuel enough. -/
def segmentsOf (path : List U8) : List Segment := pathSegments path.length path

/-- No empty segment, no slash in one, and nothing behind one the path ends with. -/
def Segmented : List Segment → Prop
  | [] => True
  | seg :: rest =>
    seg.name ≠ [] ∧ slash ∉ seg.name ∧ (seg.last = true → rest = []) ∧ Segmented rest

lemma pathSegments_nil (fuel : ℕ) : pathSegments fuel [] = [] := by cases fuel <;> rfl

lemma pathSegment_spec {cursor rest name : List U8} (h : pathSegment cursor = some (name, rest)) :
    name ≠ [] ∧ slash ∉ name := by
  simp only [pathSegment] at h
  split_ifs at h with hnil
  rw [Option.some.injEq, Prod.mk.injEq] at h
  obtain ⟨rfl, -⟩ := h
  constructor
  · -- the first byte behind the slashes belongs to the segment
    obtain ⟨c, cs, hcs⟩ := exists_cons_of_ne_nil hnil
    have hc : (c == slash) = false := by
      have hhead := head_dropWhile_not (· == slash) hnil
      simpa [hcs] using hhead
    rw [hcs, takeWhile_cons_of_pos (by simpa [bne] using hc)]
    exact cons_ne_nil _ _
  · intro hmem
    have := mem_takeWhile_imp hmem
    simp at this

lemma segmented_pathSegments (fuel : ℕ) (cursor : List U8) :
    Segmented (pathSegments fuel cursor) := by
  induction fuel generalizing cursor with
  | zero => trivial
  | succ fuel ih =>
    rw [pathSegments]
    cases hseg : pathSegment cursor with
    | none => trivial
    | some r =>
      obtain ⟨name, rest⟩ := r
      obtain ⟨hne, hslash⟩ := pathSegment_spec hseg
      refine ⟨hne, hslash, fun hlast => ?_, ih rest⟩
      rw [of_decide_eq_true hlast, pathSegments_nil]

lemma segmented_segmentsOf (path : List U8) : Segmented (segmentsOf path) :=
  segmented_pathSegments _ _

/-! ## Nodes -/

/-- `initrd_file_t`: a file of the boot archive. -/
structure InitrdFile where
  name : List U8
  data : List U8
  deriving DecidableEq

/-- `VFS_VIRTUAL_*`. -/
inductive VirtualFile where
  | procUptime | procLoadavg | procMeminfo | procCpuinfo | procMounts | procRoute
  | devNull | devTty | devFb0 | devNet | devKeyboard
  deriving DecidableEq

/-- A pointer to a node. -/
abbrev NodeId := ℕ
/-- A pointer to a ramfile. -/
abbrev RamfileId := ℕ

/-- `struct vfs_node`.  `path` is the cached path, empty when it was not built yet. -/
structure VfsNode where
  name : List U8
  path : List U8
  isDir : Bool
  virtualId : Option VirtualFile
  file : Option InitrdFile
  ramfile : Option RamfileId
  parent : Option NodeId
  children : List NodeId
  deriving DecidableEq

/-- `vfs_ramfile_t`: `data` is the first `size` bytes of the buffer. -/
structure Ramfile where
  data : List U8
  capacity : ℕ
  links : ℕ
  deriving DecidableEq

/-- The statics of `vfs.c`, with the nodes and ramfiles allocated so far. -/
structure Vfs where
  node : NodeId → VfsNode
  size : ℕ
  ramfile : RamfileId → Ramfile
  ramfiles : ℕ
  mounted : Bool
  hasExt2Root : Bool

/-- `root_node`. -/
def rootNode : NodeId := 0

/-- `new_node`, before it has a place in the tree. -/
def newNode (name : List U8) (isDir : Bool) : VfsNode :=
  ⟨name.take (vfsNameMax - 1), [], isDir, none, none, none, none, []⟩

namespace Vfs

variable (v : Vfs)

/-- A node is changed. -/
def updNode (n : NodeId) (f : VfsNode → VfsNode) : Vfs :=
  { v with node := update v.node n (f (v.node n)) }

/-- A ramfile is changed. -/
def updRamfile (r : RamfileId) (f : Ramfile → Ramfile) : Vfs :=
  { v with ramfile := update v.ramfile r (f (v.ramfile r)) }

/-- The node takes the next free place in memory. -/
def alloc (nd : VfsNode) : Vfs :=
  { v with node := update v.node v.size nd, size := v.size + 1 }

/-- `add_child`. -/
def addChild (parent child : NodeId) : Vfs :=
  (v.updNode child fun nd => { nd with parent := some parent }).updNode parent fun nd =>
    { nd with children := child :: nd.children }

/-- `new_node` followed by `add_child`; the new node is `v.size`. -/
def attach (parent : NodeId) (nd : VfsNode) : Vfs := (v.alloc nd).addChild parent v.size

/-- `find_child`. -/
def findChild (parent : NodeId) (name : List U8) : Option NodeId :=
  (v.node parent).children.find? fun c => (v.node c).name = name

/-- `find_or_create_directory`. -/
def findOrCreateDirectory (parent : NodeId) (name : List U8) : Vfs × NodeId :=
  match v.findChild parent name with
  | some c => (v, c)
  | none => (v.attach parent (newNode name true), v.size)

/-- `build_path` into a buffer of `VFS_PATH_MAX` bytes; the number of nodes is fuel enough. -/
def buildPath : ℕ → NodeId → List U8
  | 0, _ => []
  | fuel + 1, n =>
    match (v.node n).parent with
    | none => [slash]
    | some parent =>
      let buffer := buildPath fuel parent
      if buffer.length + 1 < vfsPathMax then
        let buffer :=
          if 1 < buffer.length ∨ buffer.head? ≠ some slash then buffer ++ [slash] else buffer
        (buffer ++ (v.node n).name).take (vfsPathMax - 1)
      else buffer

/-- `build_path(node, node->path, VFS_PATH_MAX)`. -/
def cachePath (n : NodeId) : Vfs :=
  v.updNode n fun nd => { nd with path := v.buildPath v.size n }

/-- `vfs_path`, which builds the path on first use. -/
def path (n : NodeId) : Vfs × List U8 :=
  let v := if (v.node n).path = [] then v.cachePath n else v
  (v, (v.node n).path)

/-! ### Reading after a change -/

section Changes

variable (n m p : NodeId) (r : RamfileId) (nd : VfsNode) (f : VfsNode → VfsNode)
  (g : Ramfile → Ramfile)

lemma node_updNode : (v.updNode n f).node m = if m = n then f (v.node n) else v.node m :=
  update_apply _ _ _ _

@[simp] lemma size_attach : (v.attach p nd).size = v.size + 1 := rfl
@[simp] lemma ramfile_attach : (v.attach p nd).ramfile = v.ramfile := rfl
@[simp] lemma ramfile_cachePath : (v.cachePath n).ramfile = v.ramfile := rfl
/-- The nodes behind an `attach`: the new one, its parent with one child more, and the
others as they were. -/
lemma node_attach {v : Vfs} {p : NodeId} (hp : p < v.size) :
    (v.attach p nd).node n =
      if n = p then { v.node p with children := v.size :: (v.node p).children }
      else if n = v.size then { nd with parent := some p } else v.node n := by
  have hne : p ≠ v.size := hp.ne
  rw [attach, addChild, node_updNode, node_updNode, node_updNode]
  by_cases hnp : n = p
  · rw [if_pos hnp, if_pos hnp, if_neg hne]
    rw [show (v.alloc nd).node p = v.node p from update_of_ne hne _ _]
  · rw [if_neg hnp, if_neg hnp]
    by_cases hns : n = v.size
    · rw [if_pos hns, if_pos hns, show (v.alloc nd).node v.size = nd from update_self ..]
    · rw [if_neg hns, if_neg hns, show (v.alloc nd).node n = v.node n from
        update_of_ne hns _ _]

lemma node_attach_parent {v : Vfs} {p : NodeId} (hp : p < v.size) :
    (v.attach p nd).node p = { v.node p with children := v.size :: (v.node p).children } := by
  rw [node_attach _ _ hp, if_pos rfl]

lemma node_attach_new {v : Vfs} {p : NodeId} (hp : p < v.size) :
    (v.attach p nd).node v.size = { nd with parent := some p } := by
  rw [node_attach _ _ hp, if_neg hp.ne', if_pos rfl]

lemma node_attach_of_ne {v : Vfs} {p n : NodeId} (hp : p < v.size) (hn : n ≠ p)
    (hs : n ≠ v.size) : (v.attach p nd).node n = v.node n := by
  rw [node_attach _ _ hp, if_neg hn, if_neg hs]

end Changes

/-! ## Lookup -/

/-- The loop of `vfs_resolve`; the inner `none` is `NULL`. -/
def resolveFrom : NodeId → List Segment → Option (Option NodeId)
  | base, [] => some (some base)
  | base, seg :: rest =>
    if vfsNameMax ≤ seg.name.length then none
    else if seg.name = dot then resolveFrom base rest
    else if seg.name = dotdot then resolveFrom ((v.node base).parent.getD base) rest
    else
      match v.findChild base seg.name with
      | none => some none
      | some child => resolveFrom child rest

/-- `vfs_resolve`. -/
def resolve (cwd : Option NodeId) (path : List U8) : Option (Option NodeId) :=
  if !v.mounted then some none
  else
    let base := if path.head? = some slash then rootNode else cwd.getD rootNode
    if path = [slash] then some (some rootNode) else v.resolveFrom base (segmentsOf path)

/-! ## Changing the tree -/

/-- The walk shared by the functions that make nodes: the parent and the name for the segment the
path ends with, `none` if it ends in a slash or has no segment. -/
def descend : Vfs → NodeId → List Segment → Option (Vfs × Option (NodeId × List U8))
  | v, _, [] => some (v, none)
  | v, parent, seg :: rest =>
    if vfsNameMax ≤ seg.name.length then none
    else if seg.last then some (v, some (parent, seg.name))
    else descend (v.findOrCreateDirectory parent seg.name).1
      (v.findOrCreateDirectory parent seg.name).2 rest

/-- The functions below do nothing before the tree is mounted or on an ext2 root. -/
def writable : Bool := v.mounted && !v.hasExt2Root

/-- `vfs_mkdir`. -/
def mkdir (path : List U8) : Option (Vfs × ℤ) :=
  if !v.writable then some (v, -1)
  else
    (v.descend rootNode (segmentsOf path)).map fun (v, target) =>
      match target with
      | none => (v, -1)
      | some (parent, name) =>
        if (v.findChild parent name).isSome then (v, -1)
        else (v.attach parent (newNode name true), 0)

/-- A ramfile with a page of buffer and one name. -/
def newRamfile : Vfs :=
  { v with ramfile := update v.ramfile v.ramfiles ⟨[], 4096, 1⟩, ramfiles := v.ramfiles + 1 }

/-- A node that names the ramfile `r`. -/
def ramfileNode (name : List U8) (r : RamfileId) : VfsNode :=
  { newNode name false with ramfile := some r }

/-- A new name for the ramfile `r`, with its path. -/
def attachRamfile (parent : NodeId) (name : List U8) (r : RamfileId) : Vfs :=
  (v.attach parent (ramfileNode name r)).cachePath v.size

/-- `vfs_create_ramfile`; `room` is memory for the ramfile. -/
def createRamfile (path : List U8) (room : Bool) : Option (Vfs × Option NodeId) :=
  if !v.writable then some (v, none)
  else
    (v.descend rootNode (segmentsOf path)).map fun (v, target) =>
      match target with
      | none => (v, none)
      | some (parent, name) =>
        if (v.findChild parent name).isSome then (v, none)
        else if !room then (v, none)
        else (v.newRamfile.attachRamfile parent name v.ramfiles, some v.size)

/-- The ramfile a path resolves to. -/
def resolveRamfile (path : List U8) : Option (Option RamfileId) :=
  (v.resolve none path).map fun n => n.bind fun n => (v.node n).ramfile

/-- `vfs_unlink_ramfile`. -/
def unlinkRamfile (path : List U8) : Option (Vfs × ℤ) :=
  if !v.writable then some (v, -1)
  else
    (v.resolveRamfile path).map fun
      | none => (v, -1)
      | some r =>
        if 1 < (v.ramfile r).links then
          (v.updRamfile r fun f => { f with links := f.links - 1 }, 0)
        else (v, -1)

/-- The end of `vfs_link_ramfile`, which does not look whether the name is taken. -/
def linkAt (newpath : List U8) (r : RamfileId) : Option (Vfs × ℤ) :=
  (v.descend rootNode (segmentsOf newpath)).map fun (v, target) =>
    match target with
    | none => (v, -1)
    | some (parent, name) =>
      ((v.updRamfile r fun f => { f with links := f.links + 1 }).attachRamfile parent name r, 0)

/-- `vfs_link_ramfile`. -/
def linkRamfile (oldpath newpath : List U8) : Option (Vfs × ℤ) :=
  if !v.writable then some (v, -1)
  else
    (v.resolveRamfile oldpath).bind fun
      | none => some (v, -1)
      | some r =>
        (v.resolve none newpath).bind fun
          | some _ => some (v, -1)
          | none => v.linkAt newpath r

/-- `vfs_rename_ramfile`. -/
def renameRamfile (oldpath newpath : List U8) : Option (Vfs × ℤ) :=
  if !v.writable then some (v, -1)
  else
    (v.linkRamfile oldpath newpath).bind fun (v, result) =>
      if result ≠ 0 then some (v, -1) else v.unlinkRamfile oldpath

/-! ## Writing -/

/-- `while (new_capacity < required) new_capacity *= 2;` in 32 bits.  After 32 doublings the
capacity is 0, so `none` for 33 units of fuel is an endless loop. -/
def growCapacity (required : ℕ) : ℕ → ℕ → Option ℕ
  | 0, _ => none
  | fuel + 1, capacity =>
    if capacity < required then growCapacity required fuel (capacity * 2 % 2 ^ 32)
    else some capacity

/-- `(capacity + RAMFILE_PAGE_ALIGN - 1) & ~(RAMFILE_PAGE_ALIGN - 1)`. -/
def alignCapacity (capacity : ℕ) : ℕ := (capacity + 4095) % 2 ^ 32 / 4096 * 4096

/-- The capacity of a ramfile's buffer for a write up to `required`. -/
def capacityFor (f : Ramfile) (required : ℕ) : Option ℕ :=
  if f.capacity < required then (growCapacity required 33 f.capacity).map alignCapacity
  else some f.capacity

/-- The file's bytes after a write, a gap before it filled with zeros. -/
def overwrite (data : List U8) (offset : ℕ) (bytes : List U8) : List U8 :=
  let data := data ++ List.replicate (offset - data.length) 0
  data.take offset ++ bytes ++ data.drop (offset + bytes.length)

/-- `vfs_write_ramfile`; `room` is memory for a larger buffer.  `none` also if the stores run past
the buffer. -/
def writeRamfile (n : NodeId) (offset : ℕ) (bytes : List U8) (room : Bool) : Option (Vfs × ℤ) :=
  match (v.node n).ramfile with
  | none => some (v, -1)
  | some r =>
    if bytes = [] then some (v, -1)
    else
      let required := (offset + bytes.length) % 2 ^ 32
      (capacityFor (v.ramfile r) required).bind fun capacity =>
        if (v.ramfile r).capacity < required ∧ !room then some (v, -1)
        else if capacity < offset + bytes.length then none
        else
          some (v.updRamfile r fun f =>
            { f with capacity := capacity, data := overwrite f.data offset bytes }, bytes.length)

/-! ## The tree at boot -/

/-- The tree of `vfs_init_ramfs` before the first file: the root alone. -/
def bare : Vfs where
  node := fun _ => newNode [] true
  size := 1
  ramfile := fun _ => ⟨[], 0, 0⟩
  ramfiles := 0
  mounted := false
  hasExt2Root := false

/-- A file that exists from boot on: an archive's, or one of the virtual files. -/
inductive BootFile where
  | archive (file : InitrdFile)
  | virtual (path : List U8) (id : VirtualFile)
  deriving DecidableEq

/-- Where the file goes. -/
def BootFile.path : BootFile → List U8
  | archive file => file.name
  | virtual path _ => path

/-- The node a file of the boot tree gets. -/
def BootFile.node (f : BootFile) (name : List U8) : VfsNode :=
  match f with
  | archive file => { newNode name false with file := some file }
  | virtual _ id => { newNode name false with virtualId := some id }

/-- The loop body of `vfs_init_ramfs` and of `create_virtual_nodes`: the last segment gets a new
node whatever is there.  Only an archive's file gets its path right away. -/
def insertFile (f : BootFile) : Option Vfs :=
  (v.descend rootNode (segmentsOf f.path)).map fun (v, target) =>
    match target with
    | none => v
    | some (parent, name) =>
      match f with
      | .archive _ => (v.attach parent (f.node name)).cachePath v.size
      | .virtual _ _ => v.attach parent (f.node name)

/-- `virtual_files`. -/
def virtualFiles : List BootFile :=
  [.virtual (text "/proc/uptime") .procUptime,
   .virtual (text "/proc/loadavg") .procLoadavg,
   .virtual (text "/proc/meminfo") .procMeminfo,
   .virtual (text "/proc/cpuinfo") .procCpuinfo,
   .virtual (text "/proc/mounts") .procMounts,
   .virtual (text "/proc/net/route") .procRoute,
   .virtual (text "/dev/null") .devNull,
   .virtual (text "/dev/tty") .devTty,
   .virtual (text "/dev/fb0") .devFb0,
   .virtual (text "/dev/net") .devNet,
   .virtual (text "/dev/keyboard") .devKeyboard]

/-- The files `vfs_init_ramfs` puts into the tree, in its order. -/
def bootFiles (archive : List InitrdFile) : List BootFile :=
  archive.map BootFile.archive ++ virtualFiles

/-- `vfs_init_ramfs` with an archive. -/
def initRamfs (archive : List InitrdFile) : Option Vfs :=
  (run insertFile bare (bootFiles archive)).map fun v => { v with mounted := true }

/-! ## Calls -/

/-- A call of one of the functions above. -/
inductive Call where
  | mkdir (path : List U8)
  | create (path : List U8) (room : Bool)
  | link (oldpath newpath : List U8)
  | unlink (path : List U8)
  | rename (oldpath newpath : List U8)
  | path (n : NodeId)
  deriving DecidableEq

/-- The path a call makes nodes on, if it does. -/
def Call.newpath : Call → List U8
  | .mkdir new | .create new _ | .link _ new | .rename _ new => new
  | .unlink _ | .path _ => []

/-- The tree after a call. -/
def call : Call → Option Vfs
  | .mkdir path => (v.mkdir path).map Prod.fst
  | .create path room => (v.createRamfile path room).map Prod.fst
  | .link oldpath newpath => (v.linkRamfile oldpath newpath).map Prod.fst
  | .unlink path => (v.unlinkRamfile path).map Prod.fst
  | .rename oldpath newpath => (v.renameRamfile oldpath newpath).map Prod.fst
  | .path n => some (v.path n).1

end Vfs

end OpenHobbyOS
