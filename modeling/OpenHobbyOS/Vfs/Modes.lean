/-
# Access modes

`task_write_fd`, `task_read_fd` and `task_mmap` of `src/task.c` do not look at the flags of a
descriptor that is open on a file.  Calls of several tasks, with descriptors that are duplicated and
inherited, and shared mappings.

A page of a shared mapping stays where it is when `vfs_write_ramfile` frees the buffer it was part
of, so where it leads at the time of a store is an input.
-/
import OpenHobbyOS.Kernel.Reads
import OpenHobbyOS.Vfs.Confinement

namespace OpenHobbyOS

open Paging Vfs List Lib Option Function

/-! ## The source -/

/-- A shared mapping of a ramfile's buffer.  The flags of its descriptor are for the statement
only. -/
structure SharedMap where
  ramfile : RamfileId
  writable : Bool
  flags : U32

/-- The files, and the shared mappings of every task. -/
structure ModeState where
  files : FileSystem
  maps : ℕ → List SharedMap

/-- The calls of tasks, and a store through a mapping.  `ok`: `task_mmap` found addresses and
frames; `page`: the byte of a ramfile's buffer the address leads to, or other memory; `other`: what
a socket, a pipe, the network, the keyboard or the console answers. -/
inductive ModeCall where
  | openFile (t : ℕ) (dirfd : ℤ) (path : List U8) (flags : U32) (room : Bool)
  | dup (t : ℕ) (oldfd : ℤ)
  | fork (parent child : ℕ)
  | write (t : ℕ) (fd : ℤ) (buffer : U32) (bytes : List U8) (room : Bool) (other : ℤ)
  | read (t : ℕ) (fd : ℤ) (buffer length : U32) (g : Gauges) (other : ℤ)
  | mmap (t : ℕ) (fd : ℤ) (prot flags pageOffset size : U32) (ok : Bool)
  | store (t i : ℕ) (byte : U8) (page : Option (RamfileId × ℕ))

/-- `task_write_fd` on a descriptor that is not open on a file. -/
def writeOther (f : TaskFd) (length : ℕ) (other : ℤ) : ℤ :=
  match f.kind with
  | .console | .null => length
  | .socket | .pipeWrite | .net => other
  | _ => errAcces

/-- `task_read_fd` on a descriptor that is not open on a file. -/
def readOther (f : TaskFd) (other : ℤ) : ℤ :=
  match f.kind with
  | .console => if hasFlag f.flags oWronly then errBadf else other
  | .null => 0
  | .dir => errIsdir
  | .socket | .pipeRead | .net | .keyboard => other
  | _ => errBadf

namespace ModeState

variable (s : ModeState)

/-- The number and the entry of a descriptor that is open. -/
def entry (t : ℕ) (fd : ℤ) : Option (FdId × TaskFd) :=
  (Kernel.fdSlot fd).bind fun m =>
    if ((s.files.task t).fds m).used then some (m, (s.files.task t).fds m) else none

/-- The ramfile that a descriptor is open on. -/
def ramfileOf (f : TaskFd) : Option RamfileId :=
  if f.kind = .file then f.node.bind fun n => (s.files.vfs.node n).ramfile else none

/-- `sys_dup`. -/
def sysDup (t : ℕ) (oldfd : ℤ) : ModeState × ℤ :=
  match Kernel.fdSlot oldfd with
  | none => (s, errBadf)
  | some n =>
    if !((s.files.task t).fds n).used then (s, errBadf)
    else
      match Kernel.allocFd (s.files.task t).fds with
      | none => (s, errMfile)
      | some m => ({ s with files := s.files.setFd t m ((s.files.task t).fds n) }, m.val)

/-- `task_fork_from_user`: the child has a copy of the table and of the mappings. -/
def taskFork (parent child : ℕ) : ModeState × ℤ :=
  ({ files := { s.files with task := update s.files.task child (s.files.task parent) }
     maps := update s.maps child (s.maps parent) }, child)

/-- `sys_write`. -/
def sysWrite (t : ℕ) (fd : ℤ) (buffer : U32) (bytes : List U8) (room : Bool) (other : ℤ) :
    Option (ModeState × ℤ) :=
  let answer := (s.entry t fd).elim errBadf fun e => writeOther e.2 bytes.length other
  (s.files.sysWrite t fd buffer bytes room answer).map fun r => ({ s with files := r.1 }, r.2)

/-- `sys_read`; what is stored in the caller's buffer is left out. -/
def sysRead (t : ℕ) (fd : ℤ) (buffer length : U32) (g : Gauges) (other : ℤ) :
    Option (ModeState × ℤ) :=
  if length = 0 then some (s, 0)
  else if !taskValidateUserRange buffer length then some (s, errFault)
  else
    match s.entry t fd with
    | none => some (s, errBadf)
    | some (m, f) =>
      if f.kind ≠ .file then some (s, readOther f other)
      else
        match f.node with
        | none => some (s, errBadf)
        | some n =>
          (s.files.vfs.read g n f.offset.toNat length.toNat).map fun r =>
            let f' := if 0 < r.1 then { f with offset := f.offset + BitVec.ofInt 32 r.1 } else f
            ({ s with files := s.files.setFd t m f' }, r.1)

/-- `task_mmap` with `MAP_SHARED` on a ramfile, without the address it returns. -/
def taskMmap (t : ℕ) (fd : ℤ) (prot flags pageOffset size : U32) (ok : Bool) : ModeState × ℤ :=
  match s.entry t fd with
  | none => (s, errBadf)
  | some (_, f) =>
    match s.ramfileOf f with
    | none => (s, 0)
    | some r =>
      let fileOffset := pageOffset * 4096
      if !hasFlag flags mapShared then (s, 0)
      else if (s.files.vfs.ramfile r).capacity < (fileOffset + size).toNat then (s, errInval)
      else if !ok then (s, errNomem)
      else
        let map := ⟨r, hasFlag prot protWrite, f.flags⟩
        ({ s with maps := update s.maps t (s.maps t ++ [map]) }, 0)

/-- A store of user code, which faults on a page that is not writable. -/
def userStore (t i : ℕ) (byte : U8) (page : Option (RamfileId × ℕ)) : ModeState × ℤ :=
  match (s.maps t)[i]? with
  | none => (s, errFault)
  | some m =>
    if !m.writable then (s, errFault)
    else
      match page with
      | none => (s, 0)
      | some (r, p) =>
        ({ s with files := { s.files with vfs := s.files.vfs.updRamfile r fun f =>
            { f with data := f.data.set p byte } } }, 0)

/-- The state after a call, and what it returns; `none` is a panic. -/
def call : ModeCall → Option (ModeState × ℤ)
  | .openFile t dirfd path flags room =>
    (s.files.taskOpenRelative t dirfd path flags room).map fun r => ({ s with files := r.1 }, r.2)
  | .dup t oldfd => some (s.sysDup t oldfd)
  | .fork parent child => some (s.taskFork parent child)
  | .write t fd buffer bytes room other => s.sysWrite t fd buffer bytes room other
  | .read t fd buffer length g other => s.sysRead t fd buffer length g other
  | .mmap t fd prot flags pageOffset size ok => some (s.taskMmap t fd prot flags pageOffset size ok)
  | .store t i byte page => some (s.userStore t i byte page)

/-- The state after a call. -/
def step (c : ModeCall) : Option ModeState := (s.call c).map Prod.fst

/-! ## What the modes promise -/

/-- `O_WRONLY` or `O_RDWR`. -/
def writeAccess (flags : U32) : Bool := hasFlag flags oWronly || hasFlag flags oRdwr

/-- `O_WRONLY` alone. -/
def writeOnly (flags : U32) : Bool := hasFlag flags oWronly && !hasFlag flags oRdwr

/-- The call may change the content of ramfile `r`. -/
def Permits (r : RamfileId) : ModeCall → Prop
  | .write t fd _ _ _ _ => ∃ e ∈ s.entry t fd, s.ramfileOf e.2 = some r ∧
    writeAccess e.2.flags = true
  | .store t i _ _ => ∃ m ∈ (s.maps t)[i]?, m.ramfile = r ∧ writeAccess m.flags = true
  | _ => False

/-- Contents change where the flags permit it, a write through a descriptor opened without write
access fails and changes nothing, and a read through one opened write-only fails. -/
def Right (c : ModeCall) (s' : ModeState) (value : ℤ) : Prop :=
  (∀ r < s.files.vfs.ramfiles,
    (s'.files.vfs.ramfile r).data ≠ (s.files.vfs.ramfile r).data → s.Permits r c) ∧
  match c with
  | .write t fd _ _ _ _ => ∀ e ∈ s.entry t fd, e.2.kind.isNode = true →
    writeAccess e.2.flags = false → value < 0 ∧ s' = s
  | .read t fd _ _ _ _ => ∀ e ∈ s.entry t fd, e.2.kind.isNode = true →
    writeOnly e.2.flags = true → value < 0
  | _ => True

variable {s} {s' : ModeState} {v : ℤ}

/-- The files at boot, with no mapping. -/
def atBoot : ModeState := ⟨FileSystem.atBoot, fun _ => []⟩

/-- A new file is opened with the given access. -/
def create (access : U32) : ModeCall :=
  .openFile 0 atFdcwd (text "/tmp/a") (oCreat ||| access) true

end ModeState

end OpenHobbyOS
