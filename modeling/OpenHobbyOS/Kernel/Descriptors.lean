/-
# Descriptors

The descriptor functions of `src/task.c`, the pipe functions of `src/pipe.c` that wake a task, and
the system calls on descriptors.  A call that puts the caller to sleep leaves no task active; its
value is the one the caller will find unless a waker replaces it.

What a call reads from user memory, and what the console, a file or the network card answers, is an
argument.
-/
import OpenHobbyOS.Kernel.Pipe
import OpenHobbyOS.Kernel.Socket

namespace OpenHobbyOS

open Paging Lib

/-- The answer of a device or a file: the value, and the bytes of a read. -/
structure External where
  value : ℤ
  bytes : List U8

/-- `struct linux_pollfd` as the caller filled it in. -/
structure PollFd where
  fd : ℤ
  events : U32
  revents : BitVec 16

/-- Its bytes, with other `revents`. -/
def PollFd.bytes (q : PollFd) (revents : U32) : List U8 :=
  wordBytes (.ofInt 32 q.fd) ++ wordBytes ((q.events &&& 0xFFFF) ||| (revents <<< 16))

/-- The commands of `fcntl`. -/
inductive FcntlCmd where
  | getFd
  | setFd (arg : U32)
  | getFl
  | setFl (arg : U32)
  | dupFd (arg : ℤ)
  | dupFdCloexec (arg : ℤ)

namespace Kernel

variable (k : Kernel)

/-! ## Pipes -/

/-- `pipe_create`. -/
def pipeCreate : Option (Kernel × PipeId) :=
  ((List.finRange pipeMaxObjects).find? fun p => !(k.pipes p).used).map fun p =>
    (k.updPipe p fun _ => .fresh, p)

/-- A registered reader is woken. -/
def pipeWakeReader (p : PipeId) : Kernel :=
  match (k.pipes p).readWaiter with
  | some i =>
    if (k.pipes p).waitingForRead then
      (k.taskWakeSlot i 0).updPipe p fun s => { s with readWaiter := none, waitingForRead := false }
    else k
  | none => k

/-- `pipe_close_read`. -/
def pipeCloseRead (p : PipeId) : Kernel :=
  if !(k.pipes p).used || !(k.pipes p).readOpen then k
  else (k.updPipe p fun s => { s with readOpen := false }).pipeWakeReader p

/-- `pipe_close_write`. -/
def pipeCloseWrite (p : PipeId) : Kernel :=
  if !(k.pipes p).used || !(k.pipes p).writeOpen then k
  else (k.updPipe p fun s => { s with writeOpen := false, peerClosed := true }).pipeWakeReader p

/-! ## Closing -/

/-- The socket reference of an entry is given up. -/
def dropSocket (f : TaskFd) : Kernel :=
  match f.socketRef with
  | some e => k.socketRelease e
  | none => k

/-- An end of a pipe is closed and the reference given up. -/
def dropPipe (f : TaskFd) : Kernel :=
  match f.pipeRef with
  | some p =>
    (if f.kind = .pipeRead then k.pipeCloseRead p else k.pipeCloseWrite p).updPipe p
      PipeEndpoint.release
  | none => k

/-- What `task_close` and the loop of `task_free_slot` do for an entry in use. -/
def dropEntry (f : TaskFd) : Kernel := (k.dropSocket f).dropPipe f

/-- `task_close`. -/
def taskClose (fd : ℤ) : Kernel × ℤ :=
  match fdSlot fd with
  | none => (k, errBadf)
  | some n =>
    let f := k.current.fds n
    if !f.used then (k, errBadf)
    else if n.val < 3 ∧ f.kind = .console then (k, 0)
    else ((k.dropEntry f).setFd n .zero, 0)

/-- Everything a table of descriptors refers to is given up. -/
def dropEntries (fds : FdId → TaskFd) : Kernel :=
  (List.finRange taskMaxFds).foldl (fun k fd => k.dropEntry (fds fd)) k

/-- The kernel's directory goes to `cr3` if `pd` is there. -/
def leaveDirectory (pd : U32) : Kernel :=
  if pd ≠ 0 ∧ pageDirectoryGetCurrent k.paging = pd then
    { k with paging := pageDirectorySwitchToKernel k.paging }
  else k

/-- `task_free_slot`. -/
def taskFreeSlot (i : SlotId) : Kernel :=
  let t := k.slots i
  let k := k.leaveDirectory t.pageDirectory
  let k := if t.seeded then k.dropEntries t.state.fds else k
  let k := { k with paging := pageDirectoryDestroy k.paging t.pageDirectory }
  k.updSlot i fun _ => .zero

/-! ## Sleeping -/

/-- `task_active_slot`. -/
def activeSlot : Option SlotId :=
  match k.active with
  | some i => if (k.slots i).used then some i else none
  | none => none

/-- `task_sleep_current`. -/
def taskSleepCurrent (regs : Registers) (wakeTick : U32) (returnValue : ℤ) : Kernel :=
  match k.activeSlot with
  | none => k
  | some i =>
    let k := (k.slotSaveState i regs).updSlot i fun t =>
      { t with
        regs := { t.regs with eax := .ofInt 32 returnValue }
        status := .sleeping
        wakeTick := wakeTick }
    { k with active := none }

/-- `task_yield_current`. -/
def taskYieldCurrent (regs : Registers) (returnValue : ℤ) : Kernel :=
  match k.activeSlot with
  | none => k
  | some i =>
    let k := (k.slotSaveState i regs).updSlot i fun t =>
      { t with
        regs := { t.regs with eax := .ofInt 32 returnValue }
        status := .runnable }
    { k with active := none }

/-! ## Descriptors of the running task -/

/-- `task_install_fd`. -/
def taskInstallFd (kind : FdKind) (node : Option ℕ) (flags : U32) : Kernel × ℤ :=
  match allocFd k.current.fds with
  | none => (k, errMfile)
  | some n =>
    (k.setFd n { k.current.fds n with
      used := true, kind := kind, flags := flags, offset := 0, node := node }, n.val)

/-- `task_socket_fd`. -/
def taskSocketFd (e : SocketId) : Kernel × ℤ :=
  match allocFd k.current.fds with
  | none => (k, -1)
  | some n =>
    (k.setFd n { k.current.fds n with used := true, kind := .socket, flags := 0, socket := some e },
      n.val)

/-- `task_get_socket`. -/
def taskGetSocket (fd : ℤ) : Option SocketId :=
  (fdSlot fd).bind fun n => (k.current.fds n).socketRef

/-- The flags of a descriptor of the running task. -/
def fdFlags (fd : ℤ) : U32 :=
  match fdSlot fd with
  | none => 0
  | some n => (k.current.fds n).flags

/-- `task_dup` with a target the caller has checked. -/
def taskDup (oldfd : ℤ) (newfd : FdId) : Kernel × ℤ :=
  match fdSlot oldfd with
  | none => (k, errBadf)
  | some n =>
    let f := k.current.fds n
    if !f.used then (k, errBadf)
    else
      let k := k.setFd newfd f
      (k.retainPipe f, newfd.val)

/-! ## Sockets -/

/-- `sys_socket`. -/
def sysSocket (domain type : ℤ) : Kernel × ℤ :=
  match k.socketCreate domain type with
  | none => (k, errInval)
  | some (k, e) => k.taskSocketFd e

/-- `sys_bind`. -/
def sysBind (fd : ℤ) (ptr : U32) (addr : SockAddr) (addrlen : U32) : Kernel × ℤ :=
  match k.taskGetSocket fd with
  | none => (k, errBadf)
  | some e =>
    if !taskValidateUserRange ptr addrlen then (k, errFault) else k.socketBind e addr addrlen

/-- `sys_listen`. -/
def sysListen (fd backlog : ℤ) : Kernel × ℤ :=
  match k.taskGetSocket fd with
  | none => (k, errBadf)
  | some e =>
    let r := (k.sockets e).listen backlog
    (k.updSocket e fun _ => r.1, r.2)

/-- `accept` without a connection: the caller registers as the accept waiter and sleeps. -/
def acceptBlock (l : SocketId) (addr addrlen : U32) (regs : Registers) : Kernel × ℤ :=
  match k.active with
  | none => (k, errAgain)
  | some i =>
    let k := k.updSocket l fun s =>
      { s with acceptWaiter := some i, acceptAddr := addr, acceptAddrlen := addrlen }
    (k.taskSleepCurrent regs taskSleepForever 0, 0)

/-- The peer's address is stored for the caller; the pointer to it is not checked. -/
def acceptName (accepted : SocketId) (newFd : ℤ) (addr addrlen len : U32) : Option (Kernel × ℤ) :=
  let s := k.sockets accepted
  let fail (v : ℤ) : Option (Kernel × ℤ) := some ((k.taskClose newFd).1, v)
  if !taskValidateUserRange addrlen 4 then fail errFault
  else
    match s.peer with
    | none => fail errNotconn
    | some p =>
      let name := (k.sockets p).nameBytes
      if s.domain ≠ afUnix then fail errAfnosupport
      else if len.toNat < name.length then fail errInval
      else
        match storeUser k.paging addr name with
        | none => none
        | some paging =>
          match ({ k with paging := paging } : Kernel).copyToUser addrlen
              (wordBytes (.ofNat 32 name.length)) with
          | none => none
          | some (k, false) => some ((k.taskClose newFd).1, errFault)
          | some (k, true) => some (k, newFd)

/-- `sys_accept`. -/
def sysAccept (fd : ℤ) (addr addrlen len : U32) (regs : Registers) : Option (Kernel × ℤ) :=
  match k.taskGetSocket fd with
  | none => some (k, errBadf)
  | some l =>
    if !(k.sockets l).listening then some (k, errInval)
    else
      match k.socketAcceptPending l with
      | none =>
        if hasFlag (k.fdFlags fd) oNonblock then some (k, errAgain)
        else some (k.acceptBlock l addr addrlen regs)
      | some (k, accepted) =>
        let r := k.taskSocketFd accepted
        if r.2 < 0 then some (r.1.socketRelease accepted, errBadf)
        else if addr ≠ 0 ∧ addrlen ≠ 0 then r.1.acceptName accepted r.2 addr addrlen len
        else some r

/-- `sys_connect`. -/
def sysConnect (fd : ℤ) (ptr : U32) (addr : SockAddr) (addrlen : U32) : Option (Kernel × ℤ) :=
  match k.taskGetSocket fd with
  | none => some (k, errBadf)
  | some e =>
    if !taskValidateUserRange ptr addrlen then some (k, errFault)
    else k.socketConnect e addr addrlen

/-- `recv` finds nothing: the caller registers as the reader and sleeps. -/
def recvBlock (e : SocketId) (buffer length : U32) (regs : Registers) : Kernel × ℤ :=
  match k.active with
  | none => (k, errAgain)
  | some i =>
    let k := k.updSocket e fun s =>
      { s with
        readWaiter := some i
        readBuffer := buffer
        readLength := length
        waitingForRead := true }
    (k.taskSleepCurrent regs taskSleepForever 0, 0)

/-- `socket_recv` into a user buffer. -/
def socketRecv (e : SocketId) (buffer : U32) (length : ℕ) (flags : U32) : Option (Kernel × ℤ) :=
  let r := (k.sockets e).recv length flags
  (storeUser k.paging buffer r.2.2).map fun p =>
    ({ k.updSocket e fun _ => r.1 with paging := p }, r.2.1)

/-- `sys_recv`. -/
def sysRecv (fd : ℤ) (buffer length flags : U32) (regs : Registers) : Option (Kernel × ℤ) :=
  match k.taskGetSocket fd with
  | none => some (k, errBadf)
  | some e =>
    if !taskValidateUserRange buffer length then some (k, errFault)
    else
      match k.socketRecv e buffer length.toNat flags with
      | none => none
      | some (k, v) =>
        if v = errAgain ∧ !hasFlag (k.fdFlags fd) oNonblock ∧ !hasFlag flags msgDontwait then
          some (k.recvBlock e buffer length regs)
        else some (k, v)

/-- `send` of the bytes the buffer holds. -/
def sysSend (fd : ℤ) (buffer : U32) (src : List U8) (tmp : Bool) : Option (Kernel × ℤ) :=
  match k.taskGetSocket fd with
  | none => some (k, errBadf)
  | some e =>
    if !taskValidateUserRange buffer (.ofNat 32 src.length) then some (k, errFault)
    else k.socketSend e src tmp

/-- `sys_shutdown`. -/
def sysShutdown (fd how : ℤ) : Kernel × ℤ :=
  match k.taskGetSocket fd with
  | none => (k, errBadf)
  | some e => k.socketShutdown e how

/-! ## Reading and writing -/

/-- `pipe_read` into a user buffer. -/
def pipeReadUser (p : PipeId) (buffer : U32) (length : ℕ) : Option (Kernel × ℤ) :=
  let r := (k.pipes p).pipeRead buffer length
  (storeUser k.paging buffer r.2.2).map fun q =>
    ({ k.updPipe p fun _ => r.1 with paging := q }, r.2.1)

/-- A read of a device or a file, whose position moves. -/
def externalRead (n : FdId) (buffer : U32) (x : External) : Option (Kernel × ℤ) :=
  let f := k.current.fds n
  let k :=
    if f.kind = .file ∧ 0 < x.value then
      k.setFd n { f with offset := f.offset + .ofInt 32 x.value }
    else k
  (storeUser k.paging buffer x.bytes).map fun q => ({ k with paging := q }, x.value)

/-- `task_read_fd`. -/
def taskReadFd (fd : ℤ) (buffer : U32) (length : ℕ) (x : External) : Option (Kernel × ℤ) :=
  match fdSlot fd with
  | none => some (k, errBadf)
  | some n =>
    let f := k.current.fds n
    if !f.used then some (k, errBadf)
    else
      match f.kind, f.socket, f.pipe with
      | .console, _, _ =>
        if hasFlag f.flags oWronly then some (k, errBadf) else k.externalRead n buffer x
      | .null, _, _ => some (k, 0)
      | .dir, _, _ => some (k, errIsdir)
      | .file, _, _ => if f.node.isSome then k.externalRead n buffer x else some (k, errBadf)
      | .socket, some e, _ => k.socketRecv e buffer length 0
      | .pipeRead, _, some p => k.pipeReadUser p buffer length
      | .net, _, _ => k.externalRead n buffer x
      | .keyboard, _, _ => k.externalRead n buffer x
      | _, _, _ => some (k, errBadf)

/-- The codes `task_write_fd` reports for a pipe. -/
def pipeWriteCode (v : ℤ) : ℤ :=
  if v < 0 then (if v = errPipe then errPipe else errBadf) else v

/-- `pipe_write` from a user buffer. -/
def pipeWriteUser (p : PipeId) (buffer : U32) (src : List U8) : Kernel × ℤ :=
  let r := (k.pipes p).pipeWrite buffer src
  (k.updPipe p fun _ => r.1, pipeWriteCode r.2)

/-- `task_write_fd`. -/
def taskWriteFd (fd : ℤ) (buffer : U32) (src : List U8) (tmp : Bool) (x : External) :
    Option (Kernel × ℤ) :=
  match fdSlot fd with
  | none => some (k, errBadf)
  | some n =>
    let f := k.current.fds n
    if !f.used then some (k, errBadf)
    else
      match f.kind, f.socket, f.pipe with
      -- `LINUX_O_RDONLY` is 0, so the test against it never fails
      | .console, _, _ => some (k, src.length)
      | .null, _, _ => some (k, src.length)
      | .socket, some e, _ => k.socketSend e src tmp
      | .file, _, _ =>
        if 0 < x.value then
          some (k.setFd n { f with offset := f.offset + .ofInt 32 x.value }, x.value)
        else some (k, x.value)
      | .pipeWrite, _, some p => some (k.pipeWriteUser p buffer src)
      | .net, _, _ => some (k, x.value)
      | _, _, _ => some (k, errAcces)

/-- `sys_read`. -/
def sysRead (fd : ℤ) (buffer length : U32) (x : External) : Option (Kernel × ℤ) :=
  if length = 0 then some (k, 0)
  else if !taskValidateUserRange buffer length then some (k, errFault)
  else k.taskReadFd fd buffer length.toNat x

/-- `sys_write`. -/
def sysWrite (fd : ℤ) (buffer : U32) (src : List U8) (tmp : Bool) (x : External) :
    Option (Kernel × ℤ) :=
  if !taskValidateUserRange buffer (.ofNat 32 src.length) then some (k, errFault)
  else k.taskWriteFd fd buffer src tmp x

/-! ## Duplicating -/

/-- `sys_dup`. -/
def sysDup (oldfd : ℤ) : Kernel × ℤ :=
  match fdSlot oldfd with
  | none => (k, errBadf)
  | some n =>
    if !(k.current.fds n).used then (k, errBadf)
    else
      match allocFd k.current.fds with
      | none => (k, errMfile)
      | some m => (k.setFd m (k.current.fds n), m.val)

/-- `sys_dup2`, which does not reject a target outside the table. -/
def sysDup2 (oldfd newfd : ℤ) : Option (Kernel × ℤ) :=
  if oldfd = newfd then some (k, oldfd)
  else
    match fdSlot oldfd with
    | none => some (k, errBadf)
    | some n =>
      if !(k.current.fds n).used then some (k, errBadf)
      else
        match fdSlot newfd with
        | none => none
        | some m =>
          let k := if (k.current.fds m).used then (k.taskClose newfd).1 else k
          some (k.setFd m (k.current.fds n), newfd)

/-- `sys_fcntl`. -/
def sysFcntl (fd : ℤ) (cmd : FcntlCmd) : Kernel × ℤ :=
  match fdSlot fd with
  | none => (k, errBadf)
  | some n =>
    let f := k.current.fds n
    if !f.used then (k, errBadf)
    else
      match cmd with
      | .getFd => (k, if hasFlag f.flags oCloexec then 1 else 0)
      | .setFd arg =>
        (k.setFd n { f with
          flags := if hasFlag arg fdCloexec then f.flags ||| oCloexec
            else f.flags &&& ~~~oCloexec }, 0)
      | .getFl => (k, f.flags.toInt)
      | .setFl arg =>
        (k.setFd n { f with
          flags := (f.flags &&& (oAccmode ||| oCloexec)) ||| (arg &&& (oAppend ||| oNonblock)) }, 0)
      | .dupFd arg =>
        match fdSlot arg with
        | none => (k, errBadf)
        | some m => k.taskDup fd m
      | .dupFdCloexec arg =>
        match fdSlot arg with
        | none => (k, errBadf)
        | some m =>
          let r := k.taskDup fd m
          let g := r.1.current.fds m
          if 0 ≤ r.2 then (r.1.setFd m { g with flags := g.flags ||| oCloexec }, r.2) else r

/-! ## `pipe` -/

/-- The entry `sys_pipe` writes for one end. -/
def pipeEntry (f : TaskFd) (kind : FdKind) (flags : U32) (p : PipeId) : TaskFd :=
  { f with used := true, kind := kind, flags := flags, offset := 0, node := none, pipe := some p }

/-- The two descriptors are chosen before either entry is written. -/
def sysPipe (pipefd : U32) : Option (Kernel × ℤ) :=
  if pipefd = 0 then some (k, errFault)
  else
    match k.pipeCreate with
    | none => some (k, errNfile)
    | some (k, p) =>
      match allocFd k.current.fds with
      | none => some (k.updPipe p PipeEndpoint.release, errNfile)
      | some readfd =>
        match allocFd k.current.fds with
        | none => some ((k.setFd readfd { k.current.fds readfd with used := false }).updPipe p
            PipeEndpoint.release, errNfile)
        | some writefd =>
          let k := k.updPipe p fun s => { s with refcount := s.refcount + 1 }
          let k := k.setFd readfd (pipeEntry (k.current.fds readfd) .pipeRead 0 p)
          let k := k.setFd writefd (pipeEntry (k.current.fds writefd) .pipeWrite oWronly p)
          let undo (k : Kernel) : Kernel × ℤ :=
            let k := k.setFd readfd { k.current.fds readfd with used := false }
            let k := k.setFd writefd { k.current.fds writefd with used := false }
            ((k.updPipe p PipeEndpoint.release).updPipe p PipeEndpoint.release, errFault)
          match k.copyToUser pipefd (wordBytes (.ofNat 32 readfd.val)) with
          | none => none
          | some (k, false) => some (undo k)
          | some (k, true) =>
            match k.copyToUser (pipefd + 4) (wordBytes (.ofNat 32 writefd.val)) with
            | none => none
            | some (k, false) => some (undo k)
            | some (k, true) => some (k, 0)

/-! ## Waiting for time and events -/

/-- The `revents` of one entry; `input` says whether the console has input. -/
def pollRevents (input : Bool) (q : PollFd) : U32 :=
  match fdSlot q.fd with
  | none => pollNval
  | some n =>
    let f := k.current.fds n
    if !f.used then pollNval
    else
      let canRead : Bool :=
        match f.kind, f.socket, f.pipe with
        | .console, _, _ => input
        | .pipeRead, _, some p => 0 < (k.pipes p).pendingReadable
        | .socket, some e, _ => 0 < (k.sockets e).pendingReadable
        | .file, _, _ => true
        | .null, _, _ => true
        | .fb0, _, _ => true
        | _, _, _ => false
      let canWrite : Bool :=
        match f.kind, f.pipe with
        | .pipeWrite, some p => (k.pipes p).writeOpen && !(k.pipes p).peerClosed
        | _, _ => true
      (if hasFlag q.events (pollIn ||| pollPri) && canRead then pollIn else 0) |||
        (if hasFlag q.events pollOut && canWrite then pollOut else 0)

/-- A poll set as it is stored back. -/
def pollBytes (input : Bool) (fds : List PollFd) : List U8 :=
  fds.flatMap fun q => q.bytes (k.pollRevents input q)

/-- What `sys_poll` adds to `ready`: one for each event. -/
def pollReady (input : Bool) (q : PollFd) : ℕ :=
  let r := k.pollRevents input q
  if r = pollNval then 1
  else (if hasFlag r pollIn then 1 else 0) + (if hasFlag r pollOut then 1 else 0)

/-- The tick a poll with a timeout sleeps until. -/
def pollTick (timeout : ℤ) : U32 :=
  if 0 < timeout then
    let sleepTicks := .ofInt 32 timeout * pitFrequency / 1000
    k.ticks + (if sleepTicks = 0 then 1 else sleepTicks)
  else taskSleepForever

/-- `sys_poll`. -/
def sysPoll (ptr : U32) (fds : List PollFd) (timeout : ℤ) (input : Bool) (regs : Registers) :
    Option (Kernel × ℤ) :=
  let fds := fds.take taskMaxFds
  if !taskValidateUserRange ptr (.ofNat 32 (fds.length * 8)) then some (k, errFault)
  else
    let ready := (fds.map (k.pollReady input)).sum
    match k.copyToUser ptr (k.pollBytes input fds) with
    | none => none
    | some (k, false) => some (k, errFault)
    | some (k, true) =>
      if ready = 0 ∧ timeout ≠ 0 then
        some (k.taskSleepCurrent regs (k.pollTick timeout) 0, 0)
      else some (k, ready)

/-- The tick `nanosleep` sleeps until. -/
def nanosleepTick (sec nsec : ℤ) : U32 :=
  let sleepTicks := sec.toNat * pitFrequency.toNat + nsec.toNat * pitFrequency.toNat / 1000000000
  let sleepTicks := if sleepTicks = 0 ∧ (sec ≠ 0 ∨ nsec ≠ 0) then 1 else sleepTicks
  k.ticks + .ofNat 32 sleepTicks

/-- `sys_nanosleep`. -/
def sysNanosleep (ptr : U32) (sec nsec : ℤ) (rem : U32) (regs : Registers) :
    Option (Kernel × ℤ) :=
  if !taskValidateUserRange ptr 8 then some (k, errFault)
  else if sec < 0 ∨ nsec < 0 ∨ 1000000000 ≤ nsec then some (k, errInval)
  else
    let wake := k.nanosleepTick sec nsec
    if rem ≠ 0 then
      match k.copyToUser rem (wordBytes 0 ++ wordBytes 0) with
      | none => none
      | some (k, false) => some (k, errFault)
      | some (k, true) => some (k.taskSleepCurrent regs wake 0, 0)
    else some (k.taskSleepCurrent regs wake 0, 0)

end Kernel

end OpenHobbyOS
