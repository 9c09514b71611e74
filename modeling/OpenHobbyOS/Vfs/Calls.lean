/-
# File calls of tasks

The calls of `src/task.c` and `src/syscall.c` that reach the file tree, on the tree with the
descriptor table and the working directory of every task.  Paths are those
`task_copy_string_from_user` has copied.  What a write to a socket, a pipe, the console or the
network returns, and whether a socket is bound to a path to unlink, are inputs.
-/
import OpenHobbyOS.Kernel.Tasks
import OpenHobbyOS.Vfs.Tree

namespace OpenHobbyOS

open Lib Paging

/-- `LINUX_O_RDWR`. -/
def oRdwr : U32 := 0x2
/-- `LINUX_O_CREAT`. -/
def oCreat : U32 := 0x40
/-- `LINUX_O_EXCL`. -/
def oExcl : U32 := 0x80
/-- `LINUX_O_DIRECTORY`. -/
def oDirectory : U32 := 0x10000
/-- `LINUX_AT_FDCWD`. -/
def atFdcwd : ℤ := -100
/-- `LERR_PERM`. -/
def errPerm : ℤ := -1
/-- `LERR_EXIST`. -/
def errExist : ℤ := -17
/-- `LERR_NOTDIR`. -/
def errNotdir : ℤ := -20
/-- `LERR_ROFS`. -/
def errRofs : ℤ := -30

/-- What a task has of the file tree. -/
structure FileTask where
  fds : FdId → TaskFd
  cwd : Option NodeId

/-- The tree, and the tasks' tables. -/
structure FileSystem where
  vfs : Vfs
  task : ℕ → FileTask

/-- `path_is_in_tmp`. -/
def pathIsInTmp (path : List U8) : Bool :=
  (text "/tmp/").isPrefixOf path || path == text "/tmp"

namespace FileSystem

variable (s : FileSystem)

/-- An entry of a task's table is set. -/
def setFd (t : ℕ) (fd : FdId) (f : TaskFd) : FileSystem :=
  { s with
    task := Function.update s.task t
      { s.task t with fds := Function.update (s.task t).fds fd f } }

/-- `task_resolve_dirfd`. -/
def taskResolveDirfd (t : ℕ) (dirfd : ℤ) : Option NodeId :=
  if dirfd = atFdcwd then some ((s.task t).cwd.getD rootNode)
  else
    (Kernel.fdSlot dirfd).bind fun fd =>
      if ((s.task t).fds fd).used ∧ ((s.task t).fds fd).kind = .dir then ((s.task t).fds fd).node
      else none

/-- `task_install_fd`. -/
def taskInstallFd (t : ℕ) (kind : FdKind) (node : NodeId) (flags : U32) : FileSystem × ℤ :=
  match Kernel.allocFd (s.task t).fds with
  | none => (s, errMfile)
  | some fd =>
    (s.setFd t fd { (s.task t).fds fd with
      used := true, kind := kind, flags := flags, offset := 0, node := some node }, fd.val)

/-- The kinds `task_open_relative` tells from the node's path. -/
def deviceKind (path : List U8) : Option FdKind :=
  if path = text "/dev/tty" then some .console
  else if path = text "/dev/null" then some .null
  else if path = text "/dev/fb0" then some .fb0
  else if path = text "/dev/net" then some .net
  else if path = text "/dev/keyboard" then some .keyboard
  else none

/-- The end of `task_open_relative`, with the node found or created. -/
def openNode (t : ℕ) (n : NodeId) (flags : U32) : FileSystem × ℤ :=
  let nodePath := (s.vfs.path n).2
  let s := { s with vfs := (s.vfs.path n).1 }
  match deviceKind nodePath with
  | some kind => s.taskInstallFd t kind n flags
  | none =>
    if (hasFlag flags oWronly || hasFlag flags oRdwr) ∧ (s.vfs.node n).ramfile = none then
      (s, errAcces)
    else if hasFlag flags oDirectory ∧ !(s.vfs.node n).isDir then (s, errNotdir)
    else if (s.vfs.node n).isDir then s.taskInstallFd t .dir n flags
    else s.taskInstallFd t .file n flags

/-- `task_open_relative`. -/
def taskOpenRelative (t : ℕ) (dirfd : ℤ) (path : List U8) (flags : U32) (room : Bool) :
    Option (FileSystem × ℤ) :=
  if path = [] then some (s, errInval)
  else
    match s.taskResolveDirfd t dirfd with
    | none => some (s, errBadf)
    | some base =>
      (s.vfs.resolve (some base) path).bind fun
        | some n =>
          if hasFlag flags oCreat ∧ hasFlag flags oExcl then some (s, errExist)
          else some (s.openNode t n flags)
        | none =>
          if hasFlag flags oCreat ∧ pathIsInTmp path then
            (s.vfs.createRamfile path room).map fun
              | (vfs, none) => ({ s with vfs := vfs }, errNoent)
              | (vfs, some n) => { s with vfs := vfs }.openNode t n flags
          else some (s, errNoent)

/-- The write to a ramfile in `task_write_fd`, at the descriptor's offset. -/
def writeFile (t : ℕ) (fd : FdId) (n : NodeId) (bytes : List U8) (room : Bool) :
    Option (FileSystem × ℤ) :=
  let f := (s.task t).fds fd
  (s.vfs.writeRamfile n f.offset.toNat bytes room).map fun (vfs, written) =>
    let s := { s with vfs := vfs }
    if 0 < written then
      (s.setFd t fd { f with offset := f.offset + BitVec.ofInt 32 written }, written)
    else (s, written)

/-- `sys_write` of the bytes at a user address. -/
def sysWrite (t : ℕ) (fd : ℤ) (buffer : U32) (bytes : List U8) (room : Bool) (other : ℤ) :
    Option (FileSystem × ℤ) :=
  if 2 ^ 32 ≤ bytes.length ∨ !taskValidateUserRange buffer (BitVec.ofNat 32 bytes.length) then
    some (s, errFault)
  else
    match Kernel.fdSlot fd with
    | none => some (s, errBadf)
    | some fd =>
      let f := (s.task t).fds fd
      if !f.used then some (s, errBadf)
      else if f.kind = .file then
        match f.node with
        | none => some (s, errAcces)
        | some n =>
          if (s.vfs.node n).ramfile = none then some (s, errAcces)
          else s.writeFile t fd n bytes room
      else some (s, other)

/-- `sys_link`. -/
def sysLink (oldpath newpath : List U8) : Option (FileSystem × ℤ) :=
  if !pathIsInTmp oldpath ∨ !pathIsInTmp newpath then some (s, errRofs)
  else
    (s.vfs.resolveRamfile oldpath).bind fun
      | none => some (s, errNoent)
      | some _ =>
        (s.vfs.resolve none newpath).bind fun
          | some _ => some (s, errExist)
          | none =>
            (s.vfs.linkRamfile oldpath newpath).map fun (vfs, result) =>
              ({ s with vfs := vfs }, if result ≠ 0 then errIo else 0)

/-- `sys_rename`. -/
def sysRename (oldpath newpath : List U8) : Option (FileSystem × ℤ) :=
  if !pathIsInTmp oldpath ∨ !pathIsInTmp newpath then some (s, errRofs)
  else
    (s.vfs.renameRamfile oldpath newpath).map fun (vfs, result) =>
      ({ s with vfs := vfs }, if result = 0 then 0 else errNoent)

/-- `sys_oh_unlink`; `bound` says whether a socket is bound to the path. -/
def sysOhUnlink (path : List U8) (bound : Bool) : Option (FileSystem × ℤ) :=
  if pathIsInTmp path then
    (s.vfs.unlinkRamfile path).map fun (vfs, result) =>
      ({ s with vfs := vfs }, if result = 0 then 0 else errNoent)
  else some (s, if bound then 0 else errPerm)

/-- `sys_oh_mkdir`. -/
def sysOhMkdir (path : List U8) : Option (FileSystem × ℤ) :=
  (s.vfs.mkdir path).map fun (vfs, result) => ({ s with vfs := vfs }, result)

/-- A file call of a task. -/
inductive FileCall where
  | open (t : ℕ) (dirfd : ℤ) (path : List U8) (flags : U32) (room : Bool)
  | write (t : ℕ) (fd : ℤ) (buffer : U32) (bytes : List U8) (room : Bool) (other : ℤ)
  | link (oldpath newpath : List U8)
  | rename (oldpath newpath : List U8)
  | unlink (path : List U8) (bound : Bool)
  | mkdir (path : List U8)
  deriving DecidableEq

/-- The call is `mkdir`. -/
def FileCall.isMkdir : FileCall → Bool
  | .mkdir _ => true
  | _ => false

/-- The state after a file call, with what it returns. -/
def fileCall : FileCall → Option (FileSystem × ℤ)
  | .open t dirfd path flags room => s.taskOpenRelative t dirfd path flags room
  | .write t fd buffer bytes room other => s.sysWrite t fd buffer bytes room other
  | .link oldpath newpath => s.sysLink oldpath newpath
  | .rename oldpath newpath => s.sysRename oldpath newpath
  | .unlink path bound => s.sysOhUnlink path bound
  | .mkdir path => s.sysOhMkdir path

/-- The state after a call. -/
def step (c : FileCall) : Option FileSystem := (s.fileCall c).map Prod.fst

end FileSystem

end OpenHobbyOS
