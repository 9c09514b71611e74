/-
# How much a read stores

`task_read_fd` of `src/task.c` with what is behind the descriptor.  `netdev_rx_pop` of
`src/netdev.c` copies a whole packet: the length that was asked for is not passed on to it.
-/
import OpenHobbyOS.Kernel.Machine
import OpenHobbyOS.Ext2.Files
import OpenHobbyOS.Vfs.Read

namespace OpenHobbyOS

open Paging Lib Option List Nat Function

/-! ## The devices -/

/-- `NETDEV_RX_QUEUE_SIZE`. -/
def netdevRxQueueSize : ℕ := 32
/-- `NETDEV_RX_BUF_SIZE`. -/
def netdevRxBufSize : ℕ := 1536

/-- The receive queue of `netdev_t`. -/
structure NetDev where
  rxData : Fin netdevRxQueueSize → ℕ → U8
  rxLen : Fin netdevRxQueueSize → BitVec 16
  rxHead : Fin netdevRxQueueSize
  rxTail : Fin netdevRxQueueSize

namespace NetDev

/-- The slot behind a slot of the queue. -/
def next (i : Fin netdevRxQueueSize) : Fin netdevRxQueueSize :=
  ⟨(i + 1) % netdevRxQueueSize, mod_lt _ (zero_lt_succ 31)⟩

/-- `netdev_rx_push`; no result stands for -1. -/
def rxPush (d : NetDev) (data : List U8) : Option NetDev :=
  let data := data.take netdevRxBufSize
  if next d.rxHead = d.rxTail then none
  else some
    { d with
      rxData := update d.rxData d.rxHead fun i => data.getD i (d.rxData d.rxHead i)
      rxLen := update d.rxLen d.rxHead (BitVec.ofNat 16 data.length)
      rxHead := next d.rxHead }

/-- `netdev_rx_pop`: the bytes copied and the queue afterwards. -/
def rxPop (d : NetDev) : Option (List U8 × NetDev) :=
  if d.rxTail = d.rxHead then none
  else
    some ((List.range (d.rxLen d.rxTail).toNat).map (d.rxData d.rxTail),
      { d with rxTail := next d.rxTail })

end NetDev

/-- What `vfs_read` reads: a node in memory, with the `stack` behind the text of a virtual file, or
an inode of the disk, with the outcomes of the allocations. -/
inductive FileSource where
  | node (v : Vfs) (g : Vfs.Gauges) (n : NodeId) (stack : ℕ → U8)
  | inode (d : Ext2.Disk) (fs : Ext2.Fs) (isDir : Bool) (num : ℕ) (room room' : Bool)
    (buffer : List U8) (alloc : ℕ → Bool)

/-- The state of what is behind the descriptors that are not sockets and pipes. -/
structure Devices where
  /-- The terminal's responses that have not been read. -/
  termResp : List U8
  /-- What `keyboard_getchar` returns while `keyboard_has_input`. -/
  keys : List U8
  scancodes : List U8
  /-- `netdev_first()`. -/
  net : Option NetDev
  file : ℕ → FileSource

/-- The loop of `task_console_read`. -/
def consoleLoop : List U8 → ℕ → List U8
  | _, 0 => []
  | [], _ => []
  | ch :: keys, room + 1 =>
    let ch := if ch = 0x0D then 0x0A else ch
    ch :: if ch = 0x0A then [] else consoleLoop keys room

/-- Bytes stored from the start of the buffer on, and their number. -/
def stored (bytes : List U8) : External := ⟨Vfs.ssize bytes.length, bytes⟩

namespace Devices

variable (dev : Devices)

/-- `task_console_read`. -/
def taskConsoleRead (length : ℕ) : External :=
  if length = 0 then ⟨0, []⟩
  else if dev.termResp ≠ [] then stored (dev.termResp.take length)
  else stored (consoleLoop dev.keys length)

/-- A read of the network. -/
def netRead : External :=
  match dev.net with
  | none => ⟨errIo, []⟩
  | some d =>
    match d.rxPop with
    | none => ⟨errAgain, []⟩
    | some (packet, _) => ⟨packet.length, packet⟩

/-- A read of the keyboard. -/
def keyboardRead (length : ℕ) : External :=
  if length < 1 then ⟨0, []⟩
  else
    match dev.scancodes with
    | [] => ⟨errAgain, []⟩
    | sc :: _ => ⟨1, [sc]⟩

end Devices

/-- `vfs_read`. -/
def FileSource.read (offset : ℕ) (buffer : U32) (length : ℕ) : FileSource → External
  | .node v g n stack =>
    if buffer = 0 then ⟨-1, []⟩
    else
      match v.read g n offset length with
      | some r => ⟨r.1, r.2⟩
      | none => stored ((List.range length).map stack)
  | .inode d fs isDir num room room' buf alloc =>
    if isDir ∨ buffer = 0 ∨ length = 0 then ⟨-1, []⟩
    else
      match Ext2.openFile d fs num room room' buf with
      | none => ⟨-1, []⟩
      | some f =>
        match Ext2.readFile d fs alloc { f with offset := offset, currentBlock := Ext2.noBlock }
          length with
        | none => ⟨-1, []⟩
        | some r => stored r.1

namespace Kernel

variable (k : Kernel) (dev : Devices)

/-- The open descriptor of a number. -/
def openEntry (fd : ℤ) : Option TaskFd :=
  (fdSlot fd).bind fun n => if (k.current.fds n).used then some (k.current.fds n) else none

/-- What `task_read_fd` returns and stores for an open descriptor. -/
def readEntry (f : TaskFd) (buffer length : U32) : External :=
  match f.kind, f.node, f.socket, f.pipe with
  | .console, _, _, _ =>
    if hasFlag f.flags oWronly then ⟨errBadf, []⟩ else dev.taskConsoleRead length.toNat
  | .null, _, _, _ => ⟨0, []⟩
  | .dir, _, _, _ => ⟨errIsdir, []⟩
  | .file, some n, _, _ => (dev.file n).read f.offset.toNat buffer length.toNat
  | .socket, _, some e, _ =>
    let r := (k.sockets e).recv length.toNat 0
    ⟨r.2.1, r.2.2⟩
  | .pipeRead, _, _, some p =>
    let r := (k.pipes p).pipeRead buffer length.toNat
    ⟨r.2.1, r.2.2⟩
  | .net, _, _, _ => dev.netRead
  | .keyboard, _, _, _ => dev.keyboardRead length.toNat
  | _, _, _, _ => ⟨errBadf, []⟩

/-- What a read returns and stores. -/
def readAnswer (fd : ℤ) (buffer length : U32) : External :=
  match k.openEntry fd with
  | none => ⟨errBadf, []⟩
  | some f => k.readEntry dev f buffer length

end Kernel

/-! ## Each source keeps to the length -/

/-- At most `length` bytes are stored, and the value is an error or their number. -/
def External.Within (x : External) (length : ℕ) : Prop :=
  x.bytes.length ≤ length ∧ (x.value < 0 ∨ x.value = x.bytes.length)

lemma within_nil {v : ℤ} (h : v ≤ 0) (length : ℕ) : External.Within ⟨v, []⟩ length := by
  refine ⟨zero_le _, ?_⟩
  change v < 0 ∨ v = ((0 : ℕ) : ℤ)
  omega

lemma ssize_neg {n : ℕ} (h : 2 ^ 31 ≤ n) (hn : n < 2 ^ 32) : Vfs.ssize n < 0 := by
  unfold Vfs.ssize
  rw [Int.bmod_def]
  push_cast
  split_ifs <;> omega

lemma within_stored {bytes : List U8} {length : ℕ} (h : bytes.length ≤ length)
    (hlen : length < 2 ^ 32) : (stored bytes).Within length := by
  refine ⟨h, ?_⟩
  simp only [stored]
  by_cases hbig : bytes.length < 2 ^ 31
  · exact .inr ((Vfs.ssize_eq_iff _).mpr hbig)
  · exact .inl (ssize_neg (not_lt.mp hbig) (h.trans_lt hlen))

lemma within_of_eq {r : ℤ × List U8} {bytes : List U8} {m length : ℕ}
    (hr : (Vfs.ssize m, bytes) = r) (hm : m = bytes.length) (h : m ≤ length)
    (hlen : length < 2 ^ 32) : External.Within ⟨r.1, r.2⟩ length := by
  subst hr hm
  dsimp only
  exact within_stored h hlen

lemma length_consoleLoop (keys : List U8) (room : ℕ) : (consoleLoop keys room).length ≤ room := by
  induction keys generalizing room with
  | nil => cases room <;> exact zero_le _
  | cons ch keys ih =>
    cases room with
    | zero => exact le_refl 0
    | succ room =>
      rw [consoleLoop, length_cons]
      generalize (if ch = 0x0D then (0x0A : U8) else ch) = c
      split_ifs
      · exact succ_le_succ (zero_le room)
      · exact succ_le_succ (ih room)

lemma within_taskConsoleRead (dev : Devices) {length : ℕ} (hlen : length < 2 ^ 32) :
    (dev.taskConsoleRead length).Within length := by
  rw [Devices.taskConsoleRead]
  split_ifs
  · exact within_nil le_rfl _
  · exact within_stored (length_take_le _ _) hlen
  · exact within_stored (length_consoleLoop _ _) hlen

lemma within_readText {buf : List U8} {offset length : ℕ} (hlen : length < 2 ^ 32)
    {r : ℤ × List U8} (h : Vfs.readText buf offset length = some r) :
    External.Within ⟨r.1, r.2⟩ length := by
  rw [Vfs.readText] at h
  split_ifs at h with hend hlong hbeyond
  · cases h
    exact within_nil le_rfl _
  · have hmod := mod_le (offset + length) (2 ^ 32)
    exact within_of_eq (Option.some.inj h) length_drop.symm (by omega) hlen
  · refine within_of_eq (Option.some.inj h) ?_ le_rfl hlen
    rw [length_take, length_drop]
    omega

lemma within_vfsRead {v : Vfs} {g : Vfs.Gauges} {n : NodeId} {offset length : ℕ}
    (hlen : length < 2 ^ 32) {r : ℤ × List U8} (h : v.read g n offset length = some r) :
    External.Within ⟨r.1, r.2⟩ length := by
  have hdata (data : List U8) : External.Within ⟨(Vfs.readData data offset length).1,
      (Vfs.readData data offset length).2⟩ length := by
    exact within_of_eq (Vfs.readData_eq _ _ _).symm rfl
      (by rw [Vfs.length_slice]; exact min_le_left _ _) hlen
  rw [Vfs.read] at h
  split_ifs at h
  · cases h
    exact within_nil (by decide) _
  generalize (v.node n).virtualId = virtualId, (v.node n).ramfile = ramfile,
    (v.node n).file = file at h
  cases virtualId with
  | some id =>
    dsimp only at h
    generalize Vfs.virtualText g id = t at h
    cases t with
    | some buf => exact within_readText hlen h
    | none =>
      cases h
      exact within_nil le_rfl _
  | none =>
    cases ramfile with
    | some id =>
      cases h
      exact hdata _
    | none =>
      cases file with
      | some file =>
        cases h
        exact hdata _
      | none =>
        cases h
        exact within_nil (by decide) _

lemma length_ext2_readLoop (d : Ext2.Disk) (fs : Ext2.Fs) (alloc : ℕ → Bool) (rounds : ℕ)
    (f : Ext2.File) (size : ℕ) : (Ext2.readLoop d fs alloc rounds f size).1.length ≤ size := by
  induction rounds generalizing f size with
  | zero => exact zero_le _
  | succ rounds ih =>
    rw [Ext2.readLoop]
    split_ifs with hdone
    · exact zero_le _
    dsimp only
    generalize htoRead : (if f.inode.iSize < Ext2.wrap32 (f.offset +
        min (fs.blockSize - f.offset % fs.blockSize) size) then f.inode.iSize - f.offset
      else min (fs.blockSize - f.offset % fs.blockSize) size) = toRead
    have hle : toRead ≤ size := by
      have hwrap := mod_le (f.offset + min (fs.blockSize - f.offset % fs.blockSize) size)
        (2 ^ 32)
      rw [← htoRead]
      unfold Ext2.wrap32
      split_ifs <;> omega
    cases f.load d fs (f.offset / fs.blockSize) (alloc (f.offset / fs.blockSize)) with
    | none => exact zero_le _
    | some g =>
      have hrest := ih { g with offset := Ext2.wrap32 (g.offset + toRead) } (size - toRead)
      dsimp only
      rw [length_append, length_take]
      omega

lemma length_ext2_readFile {d : Ext2.Disk} {fs : Ext2.Fs} {alloc : ℕ → Bool} {f : Ext2.File}
    {size : ℕ} {r : List U8 × Ext2.File} (h : Ext2.readFile d fs alloc f size = some r) :
    r.1.length ≤ size := by
  rw [Ext2.readFile] at h
  by_cases hmounted : (!fs.mounted) = true
  · rw [if_pos hmounted] at h
    cases h
  rw [if_neg hmounted] at h
  split_ifs at h with hend hlong
  · cases h
    exact zero_le _
  · cases h
    have hwrap : Ext2.wrap32 (f.offset + size) ≤ f.offset + size := mod_le _ _
    exact (length_ext2_readLoop _ _ _ _ _ _).trans (by omega)
  · cases h
    exact length_ext2_readLoop _ _ _ _ _ _

lemma within_fileRead (source : FileSource) (offset : ℕ) (buffer : U32) {length : ℕ}
    (hlen : length < 2 ^ 32) : (source.read offset buffer length).Within length := by
  have herr : External.Within ⟨-1, []⟩ length := within_nil (by decide) _
  cases source with
  | node v g n stack =>
    rw [FileSource.read]
    split_ifs
    · exact herr
    cases h : v.read g n offset length with
    | some r => exact within_vfsRead hlen h
    | none => exact within_stored (by rw [length_map, length_range]) hlen
  | inode d fs isDir num room room' buf alloc =>
    rw [FileSource.read]
    split_ifs
    · exact herr
    cases Ext2.openFile d fs num room room' buf with
    | none => exact herr
    | some f =>
      dsimp only
      generalize ({ f with offset := offset, currentBlock := Ext2.noBlock } : Ext2.File) = g
      cases h : Ext2.readFile d fs alloc g length with
      | none => exact herr
      | some r => exact within_stored (length_ext2_readFile h) hlen

lemma within_keyboardRead (dev : Devices) (length : ℕ) :
    (dev.keyboardRead length).Within length := by
  rw [Devices.keyboardRead]
  split_ifs with hlen
  · exact within_nil le_rfl _
  cases dev.scancodes with
  | nil => exact within_nil (by decide) _
  | cons sc rest => exact ⟨not_lt.mp hlen, .inr rfl⟩

lemma within_recv (s : SocketEndpoint) (length : ℕ) :
    External.Within ⟨(s.recv length 0).2.1, (s.recv length 0).2.2⟩ length := by
  have hread := RingBuffer.length_read_le socketBufferSize s.ring length
  rw [SocketEndpoint.recv]
  generalize RingBuffer.read socketBufferSize s.ring length = c at hread
  obtain ⟨ring, bytes⟩ := c
  have hneg : errNotconn ≤ 0 ∧ errAgain ≤ 0 := by decide
  dsimp only at hread ⊢
  generalize (if hasFlag 0 msgPeek then s else { s with ring := ring }) = s'
  split_ifs
  · exact within_nil hneg.1 _
  · exact within_nil le_rfl _
  · exact ⟨hread, .inr rfl⟩
  · exact within_nil le_rfl _
  · exact within_nil le_rfl _
  · exact within_nil hneg.2 _

lemma within_pipeRead (p : PipeEndpoint) (buffer : U32) (length : ℕ) :
    External.Within ⟨(p.pipeRead buffer length).2.1, (p.pipeRead buffer length).2.2⟩ length := by
  have hread : (p.bufferRead length).2.length ≤ length :=
    RingBuffer.length_read_le pipeBufferSize p.ring length
  rw [PipeEndpoint.pipeRead]
  generalize p.bufferRead length = c at hread
  obtain ⟨p', bytes⟩ := c
  have hneg : errBadf ≤ 0 ∧ errFault ≤ 0 := by decide
  dsimp only at hread ⊢
  split_ifs
  · exact within_nil hneg.1 _
  · exact within_nil hneg.1 _
  · exact within_nil hneg.2 _
  · exact ⟨hread, .inr rfl⟩
  · exact within_nil le_rfl _
  · exact within_nil le_rfl _

/-! ## The packet -/

/-- The packet a read of the network gets. -/
def Devices.nextPacket (dev : Devices) : Option (List U8) :=
  dev.net.bind fun d => d.rxPop.map Prod.fst

lemma within_netRead_iff (dev : Devices) (length : ℕ) :
    dev.netRead.Within length ↔ ∀ p ∈ dev.nextPacket, p.length ≤ length := by
  rw [Devices.netRead, Devices.nextPacket]
  cases dev.net with
  | none => exact iff_of_true (within_nil (by decide) _) (by simp)
  | some d =>
    dsimp only [bind_some]
    cases d.rxPop with
    | none => exact iff_of_true (within_nil (by decide) _) (by simp)
    | some r => simp [External.Within]

namespace Kernel

variable (k : Kernel) (dev : Devices) (fd : ℤ) (buffer length : U32)

/-- **A read keeps to its length** exactly if it is not of a packet that is longer. -/
theorem read_within_iff :
    (k.readAnswer dev fd buffer length).Within length.toNat ↔
      ∀ f ∈ k.openEntry fd, f.kind = .net → ∀ p ∈ dev.nextPacket, p.length ≤ length.toNat := by
  have herr (v : ℤ) (h : v ≤ 0) : External.Within ⟨v, []⟩ length.toNat := within_nil h _
  rw [readAnswer]
  cases k.openEntry fd with
  | none => exact iff_of_true (herr _ (by decide)) (by simp)
  | some f =>
    obtain ⟨used, kind, flags, offset, node, socket, pipe⟩ := f
    simp only [mem_some_iff, forall_eq']
    rw [readEntry]
    cases kind with
    | net =>
      simp only [true_implies]
      exact within_netRead_iff dev _
    | console =>
      refine iff_of_true ?_ (by simp)
      dsimp only
      split_ifs
      · exact herr _ (by decide)
      · exact within_taskConsoleRead dev length.isLt
    | file =>
      refine iff_of_true ?_ (by simp)
      cases node with
      | none => exact herr _ (by decide)
      | some n => exact within_fileRead _ _ _ length.isLt
    | socket =>
      refine iff_of_true ?_ (by simp)
      cases socket with
      | none => exact herr _ (by decide)
      | some e => exact within_recv _ _
    | pipeRead =>
      refine iff_of_true ?_ (by simp)
      cases pipe with
      | none => exact herr _ (by decide)
      | some p => exact within_pipeRead _ _ _
    | keyboard => exact iff_of_true (within_keyboardRead dev _) (by simp)
    | free | null | dir | fb0 | pipeWrite => exact iff_of_true (herr _ (by decide)) (by simp)

/-- **`task_read_fd`** returns and stores the answer. -/
lemma taskReadFd_stores {k' : Kernel} {v : ℤ} (h : k.taskReadFd fd buffer length.toNat
      (k.readAnswer dev fd buffer length) = some (k', v)) :
    v = (k.readAnswer dev fd buffer length).value ∧
      storeUser k.paging buffer (k.readAnswer dev fd buffer length).bytes = some k'.paging := by
  have hexternal {n : FdId} {x : External} (h : k.externalRead n buffer x = some (k', v)) :
      v = x.value ∧ storeUser k.paging buffer x.bytes = some k'.paging := by
    obtain ⟨q, hq, heq⟩ := map_eq_some_iff.mp h
    obtain ⟨rfl, rfl⟩ := Prod.mk.inj heq
    refine ⟨rfl, ?_⟩
    split_ifs at hq <;> exact hq
  have hplain {e : ℤ} (h : some (k, e) = some (k', v)) :
      v = e ∧ storeUser k.paging buffer [] = some k'.paging := by
    cases h
    exact ⟨rfl, rfl⟩
  rw [taskReadFd] at h
  rw [readAnswer, openEntry] at h ⊢
  cases hslot : fdSlot fd with
  | none =>
    rw [hslot] at h
    exact hplain h
  | some n =>
    rw [hslot] at h
    simp only [bind_some] at h ⊢
    cases hused : (k.current.fds n).used with
    | false =>
      rw [hused] at h
      exact hplain h
    | true =>
      rw [hused] at h
      simp only [Bool.not_true, Bool.false_eq_true, if_false, if_true] at h ⊢
      rw [readEntry] at h ⊢
      generalize k.current.fds n = f at h ⊢
      obtain ⟨used, kind, flags, offset, node, socket, pipe⟩ := f
      cases kind with
      | console =>
        dsimp only at h ⊢
        split_ifs at h ⊢
        · exact hplain h
        · exact hexternal h
      | file =>
        cases node with
        | none => exact hplain h
        | some n => exact hexternal h
      | socket =>
        cases socket with
        | none => exact hplain h
        | some e =>
          obtain ⟨q, hq, heq⟩ := map_eq_some_iff.mp h
          obtain ⟨rfl, rfl⟩ := Prod.mk.inj heq
          exact ⟨rfl, hq⟩
      | pipeRead =>
        cases pipe with
        | none => exact hplain h
        | some p =>
          obtain ⟨q, hq, heq⟩ := map_eq_some_iff.mp h
          obtain ⟨rfl, rfl⟩ := Prod.mk.inj heq
          exact ⟨rfl, hq⟩
      | net | keyboard => exact hexternal h
      | free | null | dir | fb0 | pipeWrite => exact hplain h

/-- The descriptor of `/dev/net`. -/
def netEntry : TaskFd := ⟨true, .net, 0, 0, none, none, none⟩

/-- A queue without packets. -/
def emptyQueue : NetDev :=
  ⟨fun _ _ => 0, fun _ => 0, ⟨0, zero_lt_succ 31⟩, ⟨0, zero_lt_succ 31⟩⟩

/-- Devices of which only the network has something. -/
def networkOnly (d : NetDev) : Devices :=
  ⟨[], [], [], some d, fun n => .node Vfs.bare ⟨0, 0, 0⟩ n fun _ => 0⟩

/-- A packet of two bytes is stored by a read of one byte. -/
theorem read_stores_packet :
    ∃ d, emptyQueue.rxPush [1, 2] = some d ∧
      ¬ (((boot MapSystem.smallBoot MapSystem.blank).setFd ⟨3, by decide⟩ netEntry).readAnswer
        (networkOnly d) 3 userBase 1).Within 1 := by
  refine ⟨_, rfl, fun h => ?_⟩
  have hlen : ¬ 2 ≤ 1 := by decide
  exact hlen h.1

end Kernel

/-! ## The queue of packets -/

/-- A call on the queue. -/
inductive NetCall where
  | rxPush (data : List U8)
  | rxPop

/-- A queue of at most 31 packets, which are cut to 1536 bytes. -/
def queueCall (q : List (List U8)) : NetCall → List (List U8) × Option (List U8)
  | .rxPush data =>
    if q.length < netdevRxQueueSize - 1 then (q ++ [data.take netdevRxBufSize], some [])
    else (q, none)
  | .rxPop => (q.tail, q.head?)

namespace NetDev

open RingBuffer

/-- What a call does. -/
def call (d : NetDev) : NetCall → NetDev × Option (List U8)
  | .rxPush data => ((d.rxPush data).getD d, (d.rxPush data).map fun _ => [])
  | .rxPop => ((d.rxPop.map Prod.snd).getD d, d.rxPop.map Prod.fst)

/-- The packet in a slot. -/
def packet (d : NetDev) (i : Fin netdevRxQueueSize) : List U8 :=
  (List.range (d.rxLen i).toNat).map (d.rxData i)

/-- The ring is read at `rx_tail` and written at `rx_head`. -/
def ring (d : NetDev) : RingBuffer (List U8) where
  buf i := if h : i < netdevRxQueueSize then d.packet ⟨i, h⟩ else []
  head := d.rxTail
  tail := d.rxHead

/-- The packets in the queue. -/
def packets (d : NetDev) : List (List U8) := contents netdevRxQueueSize d.ring

variable {d d' : NetDev}

lemma ring_inBounds : InBounds netdevRxQueueSize d.ring := ⟨d.rxTail.isLt, d.rxHead.isLt⟩

lemma packets_rxPush {data : List U8} (h : d.rxPush data = some d') :
    d'.packets = d.packets ++ [data.take netdevRxBufSize] := by
  rw [rxPush] at h
  generalize hx : data.take netdevRxBufSize = x at h ⊢
  have hlen : x.length < 2 ^ 16 := hx ▸ (length_take_le ..).trans_lt (by decide)
  split_ifs at h with hfull
  cases h
  have hroom := mt (succ_tail_eq_head_iff ring_inBounds).mpr (Fin.val_ne_of_ne hfull)
  rw [packets, packets,
    ← @contents_push _ _ _ ring_inBounds [x] d.rxHead.isLt (pos_of_ne_zero hroom)]
  -- the slot written is the only one that changes
  refine contents_congr ring_inBounds rfl rfl fun i hi => ?_
  simp only [ring, push, blit, hi, dif_pos, packet, update_apply]
  by_cases heq : (⟨i, hi⟩ : Fin _) = d.rxHead
  · have hval : (d.rxHead : ℕ) = i := congrArg Fin.val heq.symm
    rw [if_pos heq, if_pos heq, if_pos hval.le, hval, Nat.sub_self, BitVec.toNat_ofNat,
      mod_eq_of_lt hlen]
    refine ext_getElem (by simp) fun j _ hj => ?_
    have hj : j < x.length := hj
    simp [hj]
  · have hval : (d.rxHead : ℕ) ≠ i := fun h => heq (Fin.ext h.symm)
    rw [if_neg heq, if_neg heq]
    split_ifs with hle
    · rw [getElem?_eq_none (by simp; omega), getD_none]
    · rfl

lemma packets_rxPop {p : List U8} (h : d.rxPop = some (p, d')) : d.packets = p :: d'.packets := by
  rw [rxPop] at h
  split_ifs at h with hne
  cases h
  have hpos := mt (head_eq_tail_iff ring_inBounds).mpr (Fin.val_ne_of_ne hne)
  rw [packets, contents_pop ring_inBounds d.rxTail.isLt (pos_of_ne_zero hpos)]
  exact congrArg (· :: _) (dif_pos d.rxTail.isLt)

lemma queueCall_packets (d : NetDev) (c : NetCall) :
    queueCall d.packets c = ((d.call c).1.packets, (d.call c).2) := by
  have hlen : d.packets.length = used _ d.ring := length_contents ..
  cases c with
  | rxPush data =>
    have hsum := used_add_available (r := d.ring) ring_inBounds
    have hfull := succ_tail_eq_head_iff (r := d.ring) ring_inBounds
    by_cases h : next d.rxHead = d.rxTail
    · have hnone : d.rxPush data = none := if_pos h
      have := hfull.mp (congrArg Fin.val h)
      rw [queueCall, if_neg (by omega), call, hnone]
      rfl
    · have hsome : d.rxPush data = some _ := if_neg h
      have := mt hfull.mpr (Fin.val_ne_of_ne h)
      rw [queueCall, if_pos (by omega), call, hsome, ← packets_rxPush hsome]
      rfl
  | rxPop =>
    by_cases h : d.rxTail = d.rxHead
    · have hnone : d.rxPop = none := if_pos h
      rw [(head_eq_tail_iff ring_inBounds).mp (congrArg Fin.val h)] at hlen
      have hnil : d.packets = [] := eq_nil_of_length_eq_zero hlen
      rw [queueCall, call, hnone, hnil]
      exact Prod.ext hnil.symm rfl
    · have hsome : d.rxPop = some _ := if_neg h
      rw [queueCall, call, hsome, packets_rxPop hsome]
      rfl

/-- **The receive queue.**  After any calls, the next one answers as that of the list does. -/
theorem netdev_queue (d : NetDev) (calls : List NetCall) (c : NetCall) :
    let d' := calls.foldl (fun d c => (d.call c).1) d
    queueCall (calls.foldl (fun q c => (queueCall q c).1) d.packets) c =
      ((d'.call c).1.packets, (d'.call c).2) := by
  rw [foldl_hom packets fun d c => congrArg Prod.fst (queueCall_packets d c)]
  exact queueCall_packets _ c

end NetDev

end OpenHobbyOS
