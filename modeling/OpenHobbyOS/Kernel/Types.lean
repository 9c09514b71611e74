/-
# The kernel's tables

The records of `include/task.h`, `include/socket.h` and `include/pipe.h` with the static tables, as
one state.  A pointer into a table is the index of the object, `none` for `NULL`.  Process
identifiers and exit codes are 32-bit words, so the casts between `int` and `u32` change nothing.

Left out are the fields no function of the model reads: working directories, priorities, signals,
object identifiers, segment registers and the slot's canary.
-/
import OpenHobbyOS.Lib.Ring
import OpenHobbyOS.Paging.Fault

namespace OpenHobbyOS

open Paging Lib Function

/-! ## Constants -/

/-- `TASK_MAX_FDS`. -/
def taskMaxFds : ℕ := 32
/-- `TASK_MAX_MMAPS`. -/
def taskMaxMmaps : ℕ := 16
/-- `TASK_MAX_SLOTS`. -/
def taskMaxSlots : ℕ := 8
/-- `SOCKET_MAX_OBJECTS`. -/
def socketMaxObjects : ℕ := 64
/-- `SOCKET_BACKLOG`. -/
def socketBacklog : ℕ := 8
/-- `SOCKET_BUFFER_SIZE`. -/
def socketBufferSize : ℕ := 65536
/-- `SOCKET_CONTROL_MAX`. -/
def socketControlMax : ℕ := 64
/-- `PIPE_MAX_OBJECTS`. -/
def pipeMaxObjects : ℕ := 64
/-- `PIPE_BUFFER_SIZE`. -/
def pipeBufferSize : ℕ := 65536
/-- `VFS_PATH_MAX`. -/
def vfsPathMax : ℕ := 256

/-- `USER_STACK_TOP`. -/
def userStackTop : U32 := 0x04FFF000
/-- `USER_TLS_ADDR`. -/
def userTlsAddr : U32 := 0x04FFF000
/-- `USER_MMAP_BASE`. -/
def userMmapBase : U32 := 0x03C00000
/-- `USER_MMAP_TOP`. -/
def userMmapTop : U32 := 0x04EF0000

/-- `TASK_SLEEP_FOREVER`. -/
def taskSleepForever : U32 := 0xFFFFFFFF
/-- The ticks of a second. -/
def pitFrequency : U32 := 100

/-- `LINUX_O_WRONLY`. -/
def oWronly : U32 := 0x1
/-- `LINUX_O_ACCMODE`. -/
def oAccmode : U32 := 0x3
/-- `LINUX_O_APPEND`. -/
def oAppend : U32 := 0x400
/-- `LINUX_O_NONBLOCK`. -/
def oNonblock : U32 := 0x800
/-- `LINUX_O_CLOEXEC`. -/
def oCloexec : U32 := 0x80000
/-- `LINUX_FD_CLOEXEC`. -/
def fdCloexec : U32 := 1
/-- `LINUX_MSG_PEEK`. -/
def msgPeek : U32 := 0x2
/-- `LINUX_MSG_DONTWAIT`. -/
def msgDontwait : U32 := 0x40
/-- `SHUT_WR`. -/
def shutWr : ℤ := 1
/-- `SHUT_RDWR`. -/
def shutRdwr : ℤ := 2
/-- `AF_UNIX`. -/
def afUnix : ℤ := 1
/-- `SOCK_STREAM`. -/
def sockStream : ℤ := 1
/-- `LINUX_MAP_SHARED`. -/
def mapShared : U32 := 0x1
/-- `LINUX_MAP_PRIVATE`. -/
def mapPrivate : U32 := 0x2
/-- `LINUX_MAP_FIXED`. -/
def mapFixed : U32 := 0x10
/-- `LINUX_MAP_ANONYMOUS`. -/
def mapAnonymous : U32 := 0x20
/-- `LINUX_PROT_WRITE`. -/
def protWrite : U32 := 0x2
/-- `LINUX_POLLIN`. -/
def pollIn : U32 := 0x1
/-- `LINUX_POLLPRI`. -/
def pollPri : U32 := 0x2
/-- `LINUX_POLLOUT`. -/
def pollOut : U32 := 0x4
/-- `LINUX_POLLNVAL`. -/
def pollNval : U32 := 0x20

/-! The values the calls return on errors, `LERR_*` and `-E*` in the source. -/

/-- `LERR_NOENT`. -/
def errNoent : ℤ := -2
/-- `LERR_IO`. -/
def errIo : ℤ := -5
/-- `LERR_BADF`. -/
def errBadf : ℤ := -9
/-- `LERR_CHILD`. -/
def errChild : ℤ := -10
/-- `LERR_AGAIN`. -/
def errAgain : ℤ := -11
/-- `LERR_NOMEM`. -/
def errNomem : ℤ := -12
/-- `LERR_ACCES`. -/
def errAcces : ℤ := -13
/-- `LERR_FAULT`. -/
def errFault : ℤ := -14
/-- `LERR_ISDIR`. -/
def errIsdir : ℤ := -21
/-- `LERR_INVAL`. -/
def errInval : ℤ := -22
/-- `LERR_NFILE`. -/
def errNfile : ℤ := -23
/-- `LERR_MFILE`. -/
def errMfile : ℤ := -24
/-- `LERR_PIPE`. -/
def errPipe : ℤ := -32
/-- `-ENAMETOOLONG`. -/
def errNametoolong : ℤ := -36
/-- `-EAFNOSUPPORT`. -/
def errAfnosupport : ℤ := -97
/-- `-EADDRINUSE`. -/
def errAddrinuse : ℤ := -98
/-- `-ENOTCONN`. -/
def errNotconn : ℤ := -107
/-- `-ECONNREFUSED`. -/
def errConnrefused : ℤ := -111

/-! ## Descriptors -/

/-- An index of `task_slots`. -/
abbrev SlotId := Fin taskMaxSlots
/-- An index of `fds`. -/
abbrev FdId := Fin taskMaxFds
/-- An index of the sockets. -/
abbrev SocketId := Fin socketMaxObjects
/-- An index of the pipes. -/
abbrev PipeId := Fin pipeMaxObjects

lemma socketBacklog_pos : 0 < socketBacklog := by decide

instance : NeZero taskMaxSlots := ⟨by decide⟩
instance : NeZero socketMaxObjects := ⟨by decide⟩

/-- `task_fd_kind_t`. -/
inductive FdKind where
  | free | console | null | file | dir | socket | pipeRead | pipeWrite | fb0 | net | keyboard
  deriving DecidableEq

/-- The kinds `task_open_relative` installs. -/
def FdKind.isNode : FdKind → Bool
  | .console | .null | .file | .dir | .fb0 | .net | .keyboard => true
  | .free | .socket | .pipeRead | .pipeWrite => false

/-- `task_fd_t`. -/
structure TaskFd where
  used : Bool
  kind : FdKind
  flags : U32
  offset : U32
  node : Option ℕ
  socket : Option SocketId
  pipe : Option PipeId
  deriving DecidableEq

/-- The entry after `memset(slot, 0, sizeof(*slot))`. -/
def TaskFd.zero : TaskFd := ⟨false, .free, 0, 0, none, none, none⟩

namespace TaskFd

/-- The endpoint an entry refers to, by the test the source makes. -/
def socketRef (f : TaskFd) : Option SocketId :=
  if f.used ∧ f.kind = .socket then f.socket else none

/-- The pipe an entry refers to, for either end. -/
def pipeRef (f : TaskFd) : Option PipeId :=
  if f.used ∧ (f.kind = .pipeRead ∨ f.kind = .pipeWrite) then f.pipe else none

end TaskFd

/-- `task_mapping_t`. -/
structure TaskMapping where
  used : Bool
  base : U32
  length : U32
  deriving DecidableEq

/-- An unused entry. -/
def TaskMapping.zero : TaskMapping := ⟨false, 0, 0⟩

/-! ## Tasks -/

/-- The register file as `fxsave` stores it. -/
structure FpuState where
  x87 : BitVec 1280
  sse : BitVec 1056
  deriving DecidableEq

/-- The zeroed save area. -/
def FpuState.zero : FpuState := ⟨0, 0⟩

/-- `task_state_t`. -/
structure TaskState where
  name : List U8
  path : List U8
  pid : U32
  active : Bool
  entry : U32
  brkBase : U32
  brk : U32
  brkLimit : U32
  fds : FdId → TaskFd
  mappings : Fin taskMaxMmaps → TaskMapping
  fpuState : FpuState
  fpuUsed : Bool

/-- A cleared state. -/
def TaskState.zero : TaskState :=
  ⟨[], [], 0, false, 0, 0, 0, 0, fun _ => .zero, fun _ => .zero, .zero, false⟩

/-- `task_slot_status_t`. -/
inductive SlotStatus where
  | free | runnable | sleeping | waiting | zombie
  deriving DecidableEq

/-- `registers_t`: the registers of a user frame and where it returns to. -/
structure Registers where
  edi : U32
  esi : U32
  ebp : U32
  ebx : U32
  edx : U32
  ecx : U32
  eax : U32
  eip : U32
  eflags : U32
  useresp : U32
  deriving DecidableEq

/-- A cleared frame. -/
def Registers.zero : Registers := ⟨0, 0, 0, 0, 0, 0, 0, 0, 0, 0⟩

/-- `task_slot_t`. -/
structure TaskSlot where
  used : Bool
  seeded : Bool
  status : SlotStatus
  parentPid : U32
  exitCode : U32
  waitPid : U32
  waitStatusPtr : U32
  wakeTick : U32
  state : TaskState
  regs : Registers
  pageDirectory : U32
  pageDirectoryPhys : U32
  tlsVaddr : U32

/-- A free slot. -/
def TaskSlot.zero : TaskSlot :=
  ⟨false, false, .free, 0, 0, 0, 0, 0, .zero, .zero, 0, 0, 0⟩

/-! ## Sockets and pipes -/

/-- `socket_endpoint_t`.  A waiter is the index of a task slot, `none` for `-1`. -/
structure SocketEndpoint where
  used : Bool
  refcount : ℤ
  domain : ℤ
  type : ℤ
  bound : Bool
  listening : Bool
  abstract : Bool
  path : List U8
  backlog : ℕ
  pending : Fin socketBacklog → SocketId
  pendingHead : Fin socketBacklog
  pendingTail : Fin socketBacklog
  acceptWaiter : Option SlotId
  acceptAddr : U32
  acceptAddrlen : U32
  readWaiter : Option SlotId
  readBuffer : U32
  readLength : U32
  peerClosed : Bool
  peer : Option SocketId
  ring : RingBuffer U8
  /-- The nodes passed with messages: `control_nodes` with its two positions.  The source
  also clears an entry it has read; no one reads it again before it is written. -/
  control : RingBuffer ℕ
  waitingForRead : Bool

/-- The zeroed endpoint; its waiter fields hold the index 0. -/
def SocketEndpoint.zero : SocketEndpoint where
  used := false
  refcount := 0
  domain := 0
  type := 0
  bound := false
  listening := false
  abstract := false
  path := []
  backlog := 0
  pending := fun _ => ⟨0, by decide⟩
  pendingHead := ⟨0, socketBacklog_pos⟩
  pendingTail := ⟨0, socketBacklog_pos⟩
  acceptWaiter := some ⟨0, by decide⟩
  acceptAddr := 0
  acceptAddrlen := 0
  readWaiter := some ⟨0, by decide⟩
  readBuffer := 0
  readLength := 0
  peerClosed := false
  peer := none
  ring := ⟨fun _ => 0, 0, 0⟩
  control := ⟨fun _ => 0, 0, 0⟩
  waitingForRead := false

/-- `refcount++`. -/
def SocketEndpoint.retain (s : SocketEndpoint) : SocketEndpoint :=
  { s with refcount := s.refcount + 1 }

/-- `pipe_endpoint_t`. -/
structure PipeEndpoint where
  used : Bool
  refcount : ℤ
  readOpen : Bool
  writeOpen : Bool
  peerClosed : Bool
  readWaiter : Option SlotId
  waitingForRead : Bool
  ring : RingBuffer U8

/-- An unused pipe. -/
def PipeEndpoint.zero : PipeEndpoint :=
  ⟨false, 0, false, false, false, some ⟨0, by decide⟩, false, ⟨fun _ => 0, 0, 0⟩⟩

/-- `refcount++`. -/
def PipeEndpoint.retain (p : PipeEndpoint) : PipeEndpoint := { p with refcount := p.refcount + 1 }

/-! ## The kernel -/

/-- The floating-point unit: its registers, the trap flag `CR0.TS`, and
`fpu_owner_slot`. -/
structure Fpu where
  regs : FpuState
  ts : Bool
  owner : Option SlotId

/-- The kernel's state. -/
structure Kernel where
  paging : PagingState
  /-- `task_slots`. -/
  slots : SlotId → TaskSlot
  /-- `current_task`. -/
  current : TaskState
  /-- `active_task_slot`. -/
  active : Option SlotId
  /-- `scheduler_rr_cursor`. -/
  rrCursor : Option SlotId
  nextPid : U32
  /-- `pit_ticks()`. -/
  ticks : U32
  /-- `socket_endpoints`. -/
  sockets : SocketId → SocketEndpoint
  /-- `pipe_endpoints`. -/
  pipes : PipeId → PipeEndpoint
  /-- The process `task_run_until_pid_exits` waits for, `none` outside it. -/
  target : Option U32
  /-- The register frame user code was last resumed with. -/
  frame : Registers
  fpu : Fpu

namespace Kernel

variable (k : Kernel)

/-- A slot is changed. -/
def updSlot (i : SlotId) (f : TaskSlot → TaskSlot) : Kernel :=
  { k with slots := update k.slots i (f (k.slots i)) }

/-- An endpoint is changed. -/
def updSocket (e : SocketId) (f : SocketEndpoint → SocketEndpoint) : Kernel :=
  { k with sockets := update k.sockets e (f (k.sockets e)) }

/-- A pipe is changed. -/
def updPipe (p : PipeId) (f : PipeEndpoint → PipeEndpoint) : Kernel :=
  { k with pipes := update k.pipes p (f (k.pipes p)) }

/-- `current_task.fds[fd] = f`. -/
def setFd (fd : FdId) (f : TaskFd) : Kernel :=
  { k with current := { k.current with fds := update k.current.fds fd f } }

/-! ### Reading after an update -/

section Updates

variable (i j : SlotId) (e e' : SocketId) (p q : PipeId) (n m : FdId)
  (f : TaskSlot → TaskSlot) (g : SocketEndpoint → SocketEndpoint) (h : PipeEndpoint → PipeEndpoint)
  (x : TaskFd)

lemma sockets_updSocket :
    (k.updSocket e g).sockets e' = if e' = e then g (k.sockets e) else k.sockets e' :=
  update_apply _ _ _ _

lemma pipes_updPipe : (k.updPipe p h).pipes q = if q = p then h (k.pipes p) else k.pipes q :=
  update_apply _ _ _ _

@[simp] lemma updSlot_slots_self : (k.updSlot i f).slots i = f (k.slots i) :=
  update_self _ _ _

@[simp] lemma updSocket_sockets_self : (k.updSocket e g).sockets e = g (k.sockets e) :=
  update_self _ _ _

@[simp] lemma updSlot_paging : (k.updSlot i f).paging = k.paging := rfl
@[simp] lemma updSlot_nextPid : (k.updSlot i f).nextPid = k.nextPid := rfl
@[simp] lemma updSocket_paging : (k.updSocket e g).paging = k.paging := rfl
@[simp] lemma updSocket_slots : (k.updSocket e g).slots = k.slots := rfl
@[simp] lemma updSocket_current : (k.updSocket e g).current = k.current := rfl
@[simp] lemma updSocket_active : (k.updSocket e g).active = k.active := rfl
@[simp] lemma updSocket_pipes : (k.updSocket e g).pipes = k.pipes := rfl
@[simp] lemma updPipe_paging : (k.updPipe p h).paging = k.paging := rfl
@[simp] lemma updPipe_slots : (k.updPipe p h).slots = k.slots := rfl
@[simp] lemma updPipe_current : (k.updPipe p h).current = k.current := rfl
@[simp] lemma updPipe_active : (k.updPipe p h).active = k.active := rfl
@[simp] lemma updPipe_sockets : (k.updPipe p h).sockets = k.sockets := rfl
end Updates

end Kernel

end OpenHobbyOS
