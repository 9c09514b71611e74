/-
# Sockets

`src/socket.c`.  What reads or changes one endpoint is a function on `SocketEndpoint`; what follows
a pointer, wakes a task or stores into its memory is a function on the kernel.
-/
import OpenHobbyOS.Kernel.Tasks

namespace OpenHobbyOS

open Paging Lib

/-- What is read of a `struct sockaddr_un`: the family and the path, empty for an abstract name. -/
structure SockAddr where
  family : ℤ
  path : List U8

namespace SocketEndpoint

variable (s : SocketEndpoint)

/-- The endpoint `socket_alloc` sets up. -/
def fresh : SocketEndpoint :=
  { SocketEndpoint.zero with used := true, refcount := 1, acceptWaiter := none, readWaiter := none }

/-- `socket_buffer_used`. -/
def bufferUsed : ℕ := RingBuffer.used socketBufferSize s.ring

/-- The bytes received and not yet read, oldest first. -/
def contents : List U8 := RingBuffer.contents socketBufferSize s.ring

/-- `socket_pending_count`. -/
def pendingCount : ℕ :=
  if s.pendingHead ≤ s.pendingTail then s.pendingTail.val - s.pendingHead.val
  else socketBacklog - s.pendingHead.val + s.pendingTail.val

/-- `socket_pending_full`. -/
def pendingFull : Bool := decide (s.backlog ≤ s.pendingCount)

/-- `(i + 1) % SOCKET_BACKLOG`. -/
def pendingNext (i : Fin socketBacklog) : Fin socketBacklog :=
  ⟨(i.val + 1) % socketBacklog, Nat.mod_lt _ (by decide)⟩

/-- `socket_enqueue_pending`. -/
def enqueuePending (server : SocketId) : Option SocketEndpoint :=
  if s.pendingFull then none
  else
    some { s with
      pending := Function.update s.pending s.pendingTail server
      pendingTail := pendingNext s.pendingTail }

/-- `socket_dequeue_pending`. -/
def dequeuePending : Option (SocketEndpoint × SocketId) :=
  if s.pendingCount = 0 then none
  else some ({ s with pendingHead := pendingNext s.pendingHead }, s.pending s.pendingHead)

/-- `socket_pending_readable`. -/
def pendingReadable : ℕ := if s.listening then s.pendingCount else s.bufferUsed

/-- `socket_listen`. -/
def listen (backlog : ℤ) : SocketEndpoint × ℤ :=
  if !s.bound ∨ s.type ≠ sockStream then (s, errInval)
  else
    let backlog : ℤ := if backlog < 1 then 1 else backlog
    let backlog : ℤ := if (socketBacklog : ℤ) < backlog then socketBacklog else backlog
    ({ s with
        backlog := backlog.toNat
        listening := true
        acceptWaiter := none
        pendingHead := ⟨0, socketBacklog_pos⟩
        pendingTail := ⟨0, socketBacklog_pos⟩ }, 0)

/-- `socket_recv`: the returned value and the bytes stored in the buffer. -/
def recv (length : ℕ) (flags : U32) : SocketEndpoint × ℤ × List U8 :=
  if s.type ≠ sockStream then (s, errNotconn, [])
  else if length = 0 then (s, 0, [])
  else
    let (ring, bytes) := RingBuffer.read socketBufferSize s.ring length
    -- with `MSG_PEEK` the same copy loop runs on a local read position
    let s := if hasFlag flags msgPeek then s else { s with ring := ring }
    if 0 < bytes.length then (s, bytes.length, bytes)
    else if s.peer = none then (s, 0, [])
    else if s.peerClosed then (s, 0, [])
    else (s, errAgain, [])

/-- `refcount--`. -/
def drop : SocketEndpoint := { s with refcount := s.refcount - 1 }

/-- The endpoint when its last reference is gone. -/
def closed : SocketEndpoint := { s with bound := false, path := [], used := false }

/-- The endpoint with another peer. -/
def withPeer (peer : Option SocketId) : SocketEndpoint := { s with peer := peer }

/-- The endpoint with a name. -/
def named (path : List U8) : SocketEndpoint :=
  { s with bound := true, abstract := path = [], path := path }

/-- The server side of a new connection from `client`. -/
def serverOf (client : SocketId) (domain type : ℤ) : SocketEndpoint :=
  { s with domain := domain, type := type, peer := some client }

/-- The client side of a new connection to `server`. -/
def clientOf (server : SocketId) : SocketEndpoint :=
  { s with peer := some server, peerClosed := false }

/-- The accept waiter's registration is taken back. -/
def clearAcceptor : SocketEndpoint :=
  { s with acceptWaiter := none, acceptAddr := 0, acceptAddrlen := 0 }

/-- The reader's registration is taken back. -/
def clearReader : SocketEndpoint :=
  { s with readWaiter := none, waitingForRead := false, readBuffer := 0, readLength := 0 }

/-- A task sleeps in `recv` on this endpoint. -/
def reader : Option SlotId := if s.waitingForRead then s.readWaiter else none

/-- The `sockaddr_un` that `socket_getpeername` reports, up to the end of the path. -/
def nameBytes : List U8 :=
  [1#8, 0#8] ++ (if s.bound ∧ !s.abstract then s.path else []) ++ [0#8]

end SocketEndpoint

namespace Kernel

variable (k : Kernel)

/-! ## Endpoints -/

/-- `socket_alloc`. -/
def socketAlloc : Option (Kernel × SocketId) :=
  ((List.finRange socketMaxObjects).find? fun e => !(k.sockets e).used).map fun e =>
    (k.updSocket e fun _ => .fresh, e)

/-- `socket_create`. -/
def socketCreate (domain type : ℤ) : Option (Kernel × SocketId) :=
  if domain ≠ afUnix ∨ type ≠ sockStream then none
  else k.socketAlloc.map fun r =>
    (r.1.updSocket r.2 fun s => { s with domain := domain, type := type }, r.2)

/-- `socket_find_listener_by_path`. -/
def socketFindListenerByPath (path : List U8) : Option SocketId :=
  (List.finRange socketMaxObjects).find? fun e =>
    (k.sockets e).used && (k.sockets e).listening && (k.sockets e).bound &&
      (k.sockets e).path = path

/-- `socket_bind`. -/
def socketBind (e : SocketId) (addr : SockAddr) (addrlen : U32) : Kernel × ℤ :=
  let s := k.sockets e
  if s.bound ∨ addrlen < 2 then (k, errInval)
  else if s.domain ≠ afUnix ∨ s.type ≠ sockStream then (k, errAfnosupport)
  else if addr.family ≠ afUnix then (k, errAfnosupport)
  else if vfsPathMax ≤ addr.path.length then (k, errNametoolong)
  else if addr.path ≠ [] ∧ (k.socketFindListenerByPath addr.path).isSome then (k, errAddrinuse)
  else (k.updSocket e (·.named addr.path), 0)

/-- The peer of a released endpoint loses its pointer back. -/
def socketUnlinkPeer (e : SocketId) : Kernel :=
  match (k.sockets e).peer with
  | some p => if (k.sockets p).peer = some e then k.updSocket p (·.withPeer none) else k
  | none => k

/-- `socket_release`. -/
def socketRelease (e : SocketId) : Kernel :=
  if !(k.sockets e).used then k
  else
    let k := k.updSocket e SocketEndpoint.drop
    if 0 < (k.sockets e).refcount then k
    else (k.socketUnlinkPeer e).updSocket e SocketEndpoint.closed

/-- `socket_unlink_path`: the first endpoint with the name loses it. -/
def socketUnlinkPath (path : List U8) : Kernel × Bool :=
  match (List.finRange socketMaxObjects).find? fun e =>
      (k.sockets e).used && (k.sockets e).bound && (k.sockets e).path = path with
  | none => (k, false)
  | some e => (k.updSocket e fun s => { s with bound := false, path := [] }, true)

/-! ## Connections -/

/-- `socket_accept_pending`; `none` is `-EAGAIN`. -/
def socketAcceptPending (l : SocketId) : Option (Kernel × SocketId) :=
  (k.sockets l).dequeuePending.map fun r => (k.updSocket l fun _ => r.1, r.2)

/-- The entry for a socket that `task_slot_install_socket` writes. -/
def socketEntry (f : TaskFd) (e : SocketId) : TaskFd :=
  { f with used := true, kind := .socket, flags := 0, offset := 0, node := none, socket := some e }

/-- `task_slot_install_socket`. -/
def slotInstallSocket (i : SlotId) (e : SocketId) : Kernel × ℤ :=
  if !(k.slots i).used then (k, errBadf)
  else
    match allocFd (k.slots i).state.fds with
    | none => (k, errMfile)
    | some fd =>
      (k.updSlot i fun t =>
        { t with
          state := { t.state with
            fds := Function.update t.state.fds fd (socketEntry (t.state.fds fd) e) } }, fd.val)

/-- The address the waiter of `accept` asked for. -/
def reportPeer (i : SlotId) (addr addrlen : U32) : Option Kernel :=
  if addr ≠ 0 ∧ addrlen ≠ 0 then
    match k.writeSlotUser i addr [1#8, 0#8] with
    | none => none
    | some r => (r.1.writeSlotUser i addrlen (wordBytes 2)).map Prod.fst
  else some k

/-- The sleeping task `i` is woken with the new descriptor or an error. -/
def completeAccept (l : SocketId) (i : SlotId) (accepted : SocketId) : Option Kernel :=
  let r := k.slotInstallSocket i accepted
  if r.2 < 0 then
    some (((r.1.socketRelease accepted).updSocket l SocketEndpoint.clearAcceptor).taskWakeSlot i r.2)
  else
    (r.1.reportPeer i (k.sockets l).acceptAddr (k.sockets l).acceptAddrlen).map fun k =>
      (k.updSocket l SocketEndpoint.clearAcceptor).taskWakeSlot i r.2

/-- `socket_try_complete_accept`. -/
def socketTryCompleteAccept (l : SocketId) : Option Kernel :=
  match (k.sockets l).acceptWaiter with
  | none => some k
  | some i =>
    if !(k.sockets l).listening then some k
    else
      match k.socketAcceptPending l with
      | none => some k
      | some r => r.1.completeAccept l i r.2

/-- The tests of `socket_connect`; the listener if they pass. -/
def connectTarget (e : SocketId) (addr : SockAddr) (addrlen : U32) : Except ℤ SocketId :=
  let s := k.sockets e
  if s.peer.isSome then .error errInval
  else if s.domain ≠ afUnix ∨ s.type ≠ sockStream then .error errAfnosupport
  else if addrlen < 2 then .error errInval
  else if addr.family ≠ afUnix then .error errAfnosupport
  else if addr.path = [] then .error errAfnosupport
  else
    match k.socketFindListenerByPath addr.path with
    | none => .error errConnrefused
    | some l => if (k.sockets l).pendingFull then .error errAgain else .ok l

/-- The two ends of a new connection from `e`. -/
def socketPair (e : SocketId) : Option (Kernel × SocketId) :=
  k.socketAlloc.map fun r =>
    ((r.1.updSocket r.2 (·.serverOf e (k.sockets e).domain (k.sockets e).type)).updSocket e
      (·.clientOf r.2), r.2)

/-- `socket_connect`. -/
def socketConnect (e : SocketId) (addr : SockAddr) (addrlen : U32) : Option (Kernel × ℤ) :=
  match k.connectTarget e addr addrlen with
  | .error v => some (k, v)
  | .ok l =>
    match k.socketPair e with
    | none => some (k, errNomem)
    | some (k, server) =>
      match (k.sockets l).enqueuePending server with
      | none =>
        some ((k.updSocket server fun t => { t with used := false }).updSocket e (·.withPeer none),
          errAgain)
      | some t => ((k.updSocket l fun _ => t).socketTryCompleteAccept l).map fun k => (k, 0)

/-! ## Data -/

/-- The copy of `socket_send` into the buffer of a task asleep in `recv`, and how much it was; `tmp`
is memory for the intermediate copy. -/
def socketDeliver (p : SocketId) (src : List U8) (tmp : Bool) : Option (Kernel × ℕ) :=
  match (k.sockets p).reader with
  | none => some (k, 0)
  | some i =>
    let toCopy := min src.length (k.sockets p).readLength.toNat
    if 0 < toCopy ∧ tmp then
      match k.writeSlotUser i (k.sockets p).readBuffer (src.take toCopy) with
      | none => none
      | some (k, false) => some (k, 0)
      | some (k, true) =>
        some ((k.updSocket p SocketEndpoint.clearReader).taskWakeSlot i toCopy, toCopy)
    else some (k, 0)

/-- The ring part of `socket_send`, which wakes a reader that is still registered. -/
def socketStore (p : SocketId) (src : List U8) : Kernel × ℤ :=
  let w := RingBuffer.write socketBufferSize (k.sockets p).ring src
  let k' := k.updSocket p fun s => { s with ring := w.1 }
  if w.2 = 0 then (k', errAgain)
  else
    match (k.sockets p).reader with
    | none => (k', w.2)
    | some i => ((k'.taskWakeSlot i w.2).updSocket p SocketEndpoint.clearReader, w.2)

/-- `socket_send`. -/
def socketSend (e : SocketId) (src : List U8) (tmp : Bool) : Option (Kernel × ℤ) :=
  if (k.sockets e).type ≠ sockStream then some (k, errNotconn)
  else
    match (k.sockets e).peer with
    | none => some (k, errNotconn)
    | some p =>
      if (k.sockets p).peerClosed then some (k, errPipe)
      else
        match k.socketDeliver p src tmp with
        | none => none
        | some r =>
          if 0 < r.2 ∧ r.2 = src.length then some (r.1, r.2)
          else some (r.1.socketStore p (src.drop r.2))

/-- `socket_shutdown`. -/
def socketShutdown (e : SocketId) (how : ℤ) : Kernel × ℤ :=
  if how = shutWr ∨ how = shutRdwr then
    match (k.sockets e).peer with
    | none => (k, 0)
    | some p =>
      let k' := k.updSocket p fun s => { s with peerClosed := true }
      match (k.sockets p).readWaiter with
      | none => (k', 0)
      | some i => ((k'.taskWakeSlot i 0).updSocket p fun s => { s with readWaiter := none }, 0)
  else (k, 0)

end Kernel

end OpenHobbyOS
