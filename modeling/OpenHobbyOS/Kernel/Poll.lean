/-
# What `poll` reports

`sys_poll` of `src/syscall.c` beside the read paths of the descriptors.  It counts events, not
entries, looks at `TASK_MAX_FDS` entries at most, reports a negative descriptor as invalid, and
decides on input by what is in the buffers.
-/
import OpenHobbyOS.Kernel.CrossWrites
import OpenHobbyOS.Kernel.Reads

namespace OpenHobbyOS

open Paging Lib BitVec Option List

/-- `console_term_resp_available() || keyboard_has_input()`. -/
def Devices.console (dev : Devices) : Bool := !dev.termResp.isEmpty || !dev.keys.isEmpty

namespace Kernel

variable (k : Kernel) (dev : Devices)

/-- A read of one byte, or an `accept`, would wait.  The console and a pipe answer 0 then. -/
def wouldBlock (f : TaskFd) : Bool :=
  let v := (k.readEntry dev f userBase 1).value
  match f.kind, f.socket, f.pipe with
  | .console, _, _ => v = 0
  | .pipeRead, _, some p => v = 0 && (k.pipes p).writeOpen && !(k.pipes p).peerClosed
  | .socket, some e, _ =>
    if (k.sockets e).listening then (k.sockets e).pendingCount = 0 else v = errAgain
  | .net, _, _ | .keyboard, _, _ => v = errAgain
  | _, _, _ => false

/-- The entry asks for input. -/
def asksInput (q : PollFd) : Bool := hasFlag q.events (pollIn ||| pollPri)

/-- The array behind a call: what it stores for the first `TASK_MAX_FDS` entries, and the others. -/
def pollArray (fds : List PollFd) : List U8 :=
  k.pollBytes dev.console (fds.take taskMaxFds) ++
    (fds.drop taskMaxFds).flatMap fun q => q.bytes (q.revents.setWidth 32)

/-- The upper half of every second word of an array. -/
def reventsOf : List U8 → List U32
  | _ :: _ :: _ :: _ :: _ :: _ :: low :: high :: rest => (high ++ low).setWidth 32 :: reventsOf rest
  | _ => []

/-- The entries with their `revents` behind the call. -/
def reported (fds : List PollFd) : List (PollFd × U32) := fds.zip (reventsOf (k.pollArray dev fds))

/-- The number is that of the entries with an event, negative descriptors have none, and an entry
has input exactly if a read would not block. -/
structure PollRight (fds : List PollFd) (r : ℤ) : Prop where
  count : r = (k.reported dev fds).countP fun x => x.2 ≠ 0
  negative : ∀ x ∈ k.reported dev fds, x.1.fd < 0 → x.2 = 0
  input : ∀ x ∈ k.reported dev fds, ∀ f ∈ k.openEntry x.1.fd, asksInput x.1 = true →
    (hasFlag x.2 pollIn = true ↔ k.wouldBlock dev f = false)

/-! ## The condition -/

/-- There is something to read, as `poll` sees it. -/
def hasInput (f : TaskFd) : Bool :=
  match f.kind, f.socket, f.pipe with
  | .console, _, _ => dev.console
  | .pipeRead, _, some p => 0 < (k.pipes p).pendingReadable
  | .socket, some e, _ => 0 < (k.sockets e).pendingReadable
  | .file, _, _ | .null, _, _ | .fb0, _, _ => true
  | _, _, _ => false

/-- The descriptor can be written to. -/
def hasOutput (f : TaskFd) : Bool :=
  match f.kind, f.pipe with
  | .pipeWrite, some p => (k.pipes p).writeOpen && !(k.pipes p).peerClosed
  | _, _ => true

/-- A pipe or socket not at the end of its stream, an unknown device that has nothing, and a
descriptor that can be read. -/
def InputKnown (f : TaskFd) : Prop :=
  match f.kind, f.socket, f.pipe with
  | .console, _, _ => dev.console = true ∨ hasFlag f.flags oWronly = false
  | .file, _, _ | .null, _, _ | .fb0, _, _ => True
  | .pipeRead, _, some p => 0 < (k.pipes p).pendingReadable ∨ (k.pipes p).used = true ∧
      (k.pipes p).readOpen = true ∧ (k.pipes p).writeOpen = true ∧ (k.pipes p).peerClosed = false
  | .socket, some e, _ => (k.sockets e).listening = true ∨ 0 < (k.sockets e).bufferUsed ∨
      (k.sockets e).type = sockStream ∧ (k.sockets e).peer ≠ none ∧ (k.sockets e).peerClosed = false
  | .net, _, _ => ∃ d ∈ dev.net, d.rxTail = d.rxHead
  | .keyboard, _, _ => dev.scancodes = []
  | _, _, _ => False

/-- The entry has input and output and asks for both. -/
def countsTwice (q : PollFd) : Bool :=
  (k.openEntry q.fd).any fun f => (asksInput q && k.hasInput dev f) &&
    (hasFlag q.events pollOut && k.hasOutput f)

/-- The arrays of which `poll` says the right thing.  An entry beyond the first `TASK_MAX_FDS` is
right if the caller left the right thing there; it is not counted, one with two events is counted
twice, so there are as many of the one kind as of the other. -/
structure PollPlain (fds : List PollFd) : Prop where
  count : (fds.take taskMaxFds).countP (k.countsTwice dev) =
    (fds.drop taskMaxFds).countP fun q => q.revents ≠ 0
  polled : ∀ q ∈ fds.take taskMaxFds,
    0 ≤ q.fd ∧ ∀ f ∈ k.openEntry q.fd, asksInput q = true → k.InputKnown dev f
  left : ∀ q ∈ fds.drop taskMaxFds, (q.fd < 0 → q.revents = 0) ∧
    ∀ f ∈ k.openEntry q.fd, asksInput q = true →
      (hasFlag (q.revents.setWidth 32) pollIn = true ↔ k.wouldBlock dev f = false)

variable {k dev} {q : PollFd}

lemma pollRevents_none (h : k.openEntry q.fd = none) : k.pollRevents dev.console q = pollNval := by
  rw [openEntry] at h
  rw [pollRevents]
  cases hs : fdSlot q.fd with
  | none => rfl
  | some n => simp_all

lemma pollRevents_some {f : TaskFd} (h : k.openEntry q.fd = some f) :
    k.pollRevents dev.console q =
      (if asksInput q && k.hasInput dev f then pollIn else 0) |||
        (if hasFlag q.events pollOut && k.hasOutput f then pollOut else 0) := by
  rw [openEntry, bind_eq_some_iff] at h
  obtain ⟨n, hn, hf⟩ := h
  split_ifs at hf with hu
  cases hf
  simp only [pollRevents, hn, hu, Bool.not_true, Bool.false_eq_true, if_false]
  rfl

lemma pollReady_eq : k.pollReady dev.console q =
    (if k.pollRevents dev.console q ≠ 0 then 1 else 0) + if k.countsTwice dev q then 1 else 0 := by
  cases h : k.openEntry q.fd with
  | none =>
    rw [pollReady, pollRevents_none h, countsTwice, h]
    simp [pollNval]
  | some f =>
    rw [pollReady, pollRevents_some h, countsTwice, h, any_some]
    generalize (asksInput q && k.hasInput dev f) = a
    generalize (hasFlag q.events pollOut && k.hasOutput f) = b
    revert a b
    decide

lemma hasFlag_pollRevents {f : TaskFd} (h : k.openEntry q.fd = some f) (hask : asksInput q = true) :
    hasFlag (k.pollRevents dev.console q) pollIn = k.hasInput dev f := by
  rw [pollRevents_some h, hask, Bool.true_and]
  generalize k.hasInput dev f = a
  generalize (hasFlag q.events pollOut && k.hasOutput f) = b
  revert a b
  decide

lemma pollRevents_negative (h : q.fd < 0) : k.pollRevents dev.console q ≠ 0 := by
  have hslot : k.openEntry q.fd = none := by
    rw [openEntry, fdSlot, dif_neg fun hfd => absurd hfd.1 (not_le.mpr h)]
    rfl
  rw [pollRevents_none hslot]
  decide

lemma sum_pollReady (fds : List PollFd) : (fds.map (k.pollReady dev.console)).sum =
    fds.countP (fun q => k.pollRevents dev.console q ≠ 0) + fds.countP (k.countsTwice dev) := by
  induction fds with
  | nil => rfl
  | cons q fds ih =>
    rw [map_cons, sum_cons, ih, pollReady_eq, countP_cons, countP_cons]
    simp only [decide_eq_true_eq]
    omega

lemma setWidth_pollRevents :
    ((k.pollRevents dev.console q).setWidth 16).setWidth 32 = k.pollRevents dev.console q := by
  cases h : k.openEntry q.fd with
  | none =>
    rw [pollRevents_none h]
    decide
  | some f =>
    rw [pollRevents_some h]
    generalize (asksInput q && k.hasInput dev f) = a
    generalize (hasFlag q.events pollOut && k.hasOutput f) = b
    revert a b
    decide

lemma upper_half (e : U32) (x : BitVec 16) :
    ((e &&& 0xFFFF) ||| (x.setWidth 32 <<< 16)).extractLsb' 16 16 = x := by
  ext i hi
  have hlt : 16 + i < 32 := by omega
  have hmask : (65535#32).getLsbD (16 + i) = false := by
    rw [BitVec.getLsbD]
    exact Nat.testBit_lt_two_pow ((show 65535 < 2 ^ 16 by decide).trans_le
      (Nat.pow_le_pow_right (by decide) (Nat.le_add_right 16 i)))
  rw [getLsbD_eq_getElem hlt] at hmask
  simp [hlt, hmask, getLsbD_eq_getElem hi]

lemma reventsOf_bytes (q : PollFd) (x : BitVec 16) (rest : List U8) :
    reventsOf (q.bytes (x.setWidth 32) ++ rest) = x.setWidth 32 :: reventsOf rest := by
  simp only [PollFd.bytes, wordBytes, List.cons_append, List.nil_append, reventsOf]
  rw [extractLsb'_append_extractLsb'_eq_extractLsb' (show 24 = 16 + 8 from rfl), upper_half]

lemma reventsOf_flatMap (fds : List PollFd) (g : PollFd → U32)
    (hg : ∀ q, ((g q).setWidth 16).setWidth 32 = g q) (rest : List U8) :
    reventsOf ((fds.flatMap fun q => q.bytes (g q)) ++ rest) = fds.map g ++ reventsOf rest := by
  induction fds with
  | nil => rfl
  | cons q fds ih =>
    rw [List.flatMap_cons, List.append_assoc, ← hg q, reventsOf_bytes, ih, hg, List.map_cons,
      List.cons_append]

lemma reported_eq (fds : List PollFd) : k.reported dev fds =
    (fds.take taskMaxFds).map (fun q => (q, k.pollRevents dev.console q)) ++
      (fds.drop taskMaxFds).map fun q => (q, q.revents.setWidth 32) := by
  have hnil : reventsOf [] = [] := rfl
  have hlast := reventsOf_flatMap (fds.drop taskMaxFds) (fun q => q.revents.setWidth 32)
    (fun q => by simp) []
  rw [append_nil, hnil, append_nil] at hlast
  rw [reported, pollArray, pollBytes, reventsOf_flatMap _ _ fun q => setWidth_pollRevents, hlast]
  nth_rewrite 1 [← take_append_drop taskMaxFds fds]
  rw [zip_append (by simp), map_prod_left_eq_zip, map_prod_left_eq_zip]

/-! ## Input and the read paths -/

lemma recv_again_iff {s : SocketEndpoint} (h : RingBuffer.InBounds socketBufferSize s.ring) :
    (s.recv 1 0).2.1 = errAgain ↔ s.type = sockStream ∧ s.bufferUsed = 0 ∧ s.peer ≠ none ∧
      s.peerClosed = false := by
  have hread := (RingBuffer.read_spec h 1).2.1
  have hlen : (RingBuffer.read socketBufferSize s.ring 1).2.length = min 1 s.bufferUsed := by
    rw [hread, length_take, RingBuffer.length_contents]
    rfl
  have hpeek : hasFlag 0 msgPeek = false := by decide
  have hvalues : errNotconn ≠ errAgain ∧ (0 : ℤ) ≠ errAgain ∧ ∀ n : ℕ, (n : ℤ) ≠ errAgain := by
    refine ⟨by decide, by decide, fun n => ?_⟩
    have : errAgain < 0 := by decide
    omega
  rw [SocketEndpoint.recv]
  simp only [hpeek, Bool.false_eq_true, if_false, one_ne_zero, hlen]
  split_ifs with htype hpos hpeer hclosed
  · exact iff_of_false hvalues.1 fun h => htype h.1
  · exact iff_of_false (hvalues.2.2 _) fun h => by omega
  · exact iff_of_false hvalues.2.1 fun h => h.2.2.1 hpeer
  · exact iff_of_false hvalues.2.1 fun h => by simp [hclosed] at h
  · exact iff_of_true rfl ⟨not_not.mp htype, by omega, hpeer, by simpa using hclosed⟩

lemma pipeRead_zero_iff {p : PipeEndpoint} (h : RingBuffer.InBounds pipeBufferSize p.ring) :
    (p.pipeRead userBase 1).2.1 = 0 ↔ p.used = true ∧ p.readOpen = true ∧ p.bufferUsed = 0 := by
  have hlen : (p.bufferRead 1).2.length = min 1 p.bufferUsed := by
    rw [PipeEndpoint.bufferRead, (RingBuffer.read_spec h 1).2.1, length_take,
      RingBuffer.length_contents]
    rfl
  have hbad : errBadf ≠ 0 := by decide
  have hbase : ¬ userBase = 0 := by decide
  rw [PipeEndpoint.pipeRead]
  generalize p.bufferRead 1 = c at hlen
  obtain ⟨p', bytes⟩ := c
  change bytes.length = _ at hlen
  simp only [hbase, if_false]
  split_ifs with hused hopen hpos hgone
  · exact iff_of_false hbad fun h => by simp [h.1] at hused
  · exact iff_of_false hbad fun h => by simp [h.2.1] at hopen
  · refine iff_of_false ?_ fun h => by omega
    dsimp only
    omega
  -- an empty ring answers 0 whether or not the write end is still there
  all_goals exact iff_of_true rfl ⟨by simpa using hused, by simpa using hopen, by omega⟩

lemma consoleRead_zero_iff (dev : Devices) :
    (dev.taskConsoleRead 1).value = 0 ↔ dev.console = false := by
  have hone (b : U8) : ¬ (stored [b]).value = 0 := by
    have hvalue : Vfs.ssize [b].length = 1 := (Vfs.ssize_eq_iff 1).mpr (by decide)
    rw [stored, hvalue]
    exact one_ne_zero
  rw [Devices.taskConsoleRead, if_neg one_ne_zero, Devices.console]
  cases dev.termResp with
  | cons b rest => exact iff_of_false (hone b) (by simp)
  | nil =>
    rw [if_neg (not_not.mpr rfl)]
    cases dev.keys with
    | nil => exact iff_of_true rfl rfl
    | cons ch keys =>
      refine iff_of_false ?_ (by simp)
      rw [consoleLoop, consoleLoop, ite_self]
      exact hone _

lemma netRead_again_iff (dev : Devices) :
    dev.netRead.value = errAgain ↔ ∃ d ∈ dev.net, d.rxTail = d.rxHead := by
  have herr : errIo ≠ errAgain ∧ errAgain < 0 := by decide
  rw [Devices.netRead]
  cases dev.net with
  | none => exact iff_of_false herr.1 (by simp)
  | some d =>
    simp only [mem_some_iff, exists_eq_left', NetDev.rxPop]
    split_ifs with h
    · exact iff_of_true rfl h
    · refine iff_of_false ?_ h
      dsimp only
      omega

lemma keyboardRead_again_iff (dev : Devices) :
    (dev.keyboardRead 1).value = errAgain ↔ dev.scancodes = [] := by
  have herr : (1 : ℤ) ≠ errAgain := by decide
  rw [Devices.keyboardRead, if_neg (lt_irrefl 1)]
  cases dev.scancodes with
  | nil => exact iff_of_true rfl rfl
  | cons sc rest => exact iff_of_false herr (cons_ne_nil sc rest)

/-- The rings of the sockets and the pipes have their positions in range. -/
def RingsInBounds (k : Kernel) : Prop :=
  (∀ e, RingBuffer.InBounds socketBufferSize (k.sockets e).ring) ∧
    ∀ p, RingBuffer.InBounds pipeBufferSize (k.pipes p).ring

lemma hasInput_iff (h : k.RingsInBounds) (f : TaskFd) :
    (k.hasInput dev f = true ↔ k.wouldBlock dev f = false) ↔ k.InputKnown dev f := by
  have hone : (1 : U32).toNat = 1 := rfl
  obtain ⟨used, kind, flags, offset, node, socket, pipe⟩ := f
  cases kind with
  | console =>
    have hbad : errBadf ≠ 0 := by decide
    cases hw : hasFlag flags oWronly <;>
      simp [hasInput, wouldBlock, InputKnown, readEntry, consoleRead_zero_iff, hw, hbad]
  | net => simp [hasInput, wouldBlock, InputKnown, readEntry, netRead_again_iff]
  | keyboard => simp [hasInput, wouldBlock, InputKnown, readEntry, keyboardRead_again_iff]
  | file | null | fb0 | free | dir | pipeWrite => simp [hasInput, wouldBlock, InputKnown]
  | pipeRead =>
    cases pipe with
    | none => simp [hasInput, wouldBlock, InputKnown]
    | some p =>
      simp only [hasInput, wouldBlock, InputKnown, readEntry, hone, Bool.and_eq_false_iff,
        decide_eq_false_iff_not, pipeRead_zero_iff (h.2 p), PipeEndpoint.pendingReadable]
      grind
  | socket =>
    cases socket with
    | none => simp [hasInput, wouldBlock, InputKnown]
    | some e =>
      simp only [hasInput, wouldBlock, InputKnown, readEntry, hone, SocketEndpoint.pendingReadable,
        recv_again_iff (h.1 e)]
      grind

lemma sysPoll_spec {k' : Kernel} {ptr : U32} {fds : List PollFd} {timeout r : ℤ} {input : Bool}
    {regs : Registers} (hcall : k.sysPoll ptr fds timeout input regs = some (k', r)) (hr : 0 ≤ r)
    (hawake : timeout = 0 ∨ r ≠ 0) :
    storeUser k.paging ptr (k.pollBytes input (fds.take taskMaxFds)) = some k'.paging ∧
      r = ((fds.take taskMaxFds).map (k.pollReady input)).sum := by
  have hfault : errFault < 0 := by decide
  rw [sysPoll] at hcall
  dsimp only at hcall
  by_cases hvalid :
      (!taskValidateUserRange ptr (BitVec.ofNat 32 ((fds.take taskMaxFds).length * 8))) = true
  · rw [if_pos hvalid] at hcall
    cases hcall
    omega
  rw [if_neg hvalid] at hcall
  rcases hcopy : k.copyToUser ptr (k.pollBytes input (fds.take taskMaxFds)) with _ | ⟨k₁, _ | _⟩
  · rw [hcopy] at hcall
    cases hcall
  · rw [hcopy] at hcall
    cases hcall
    omega
  · rw [hcopy] at hcall
    rw [copyToUser] at hcopy
    split_ifs at hcopy
    · cases hcopy
    obtain ⟨s, hs, heq⟩ := map_eq_some_iff.mp hcopy
    cases heq
    dsimp only at hcall
    split_ifs at hcall with hsleep
    · cases hcall
      exact absurd rfl (hawake.resolve_left hsleep.2)
    · cases hcall
      exact ⟨hs, rfl⟩

/-- A key has been pressed. -/
def typed : Devices := { networkOnly emptyQueue with keys := [0x61] }

lemma started_poll {s : PagingState} {d : U32} (M : StartedMemory s d) (q : PollFd) (input : Bool)
    (regs : Registers) : ∃ s', (started s d).sysPoll userTlsAddr [q] 0 input regs =
      some (started s' d, (↑((started s d).pollReady input q) : ℤ)) := by
  obtain ⟨role, h⟩ := M.spaces
  have hlen : ((started s d).pollBytes input [q]).length = 8 := rfl
  have htls : userTlsAddr.toNat = 0x04FFF000 := rfl
  obtain ⟨s', hstore⟩ := storeUser_ok h.tables (Set.mem_singleton d) M.cr3
    ((started s d).pollBytes input [q]) userTlsAddr (by decide) (by rw [hlen]; decide)
    fun v hv hv' => M.tls_present (by omega) (by omega)
  have hcopy : (started s d).copyToUser userTlsAddr ((started s d).pollBytes input [q]) =
      some (started s' d, true) := by
    rw [copyToUser, hlen, if_neg (by decide)]
    exact congrArg (Option.map fun p => ({ started s d with paging := p }, true)) hstore
  refine ⟨s', ?_⟩
  have htake : [q].take taskMaxFds = [q] := rfl
  have hvalid : (!taskValidateUserRange userTlsAddr (BitVec.ofNat 32 8)) = false := by decide
  rw [sysPoll, htake]
  dsimp only
  rw [length_singleton, hvalid, if_neg Bool.false_ne_true, hcopy]
  dsimp only
  rw [if_neg fun h => h.2 rfl, map_singleton, sum_singleton]

lemma started_pollReady (s : PagingState) (d events : U32) :
    (started s d).pollReady typed.console ⟨0, events, 0⟩ =
      (hasFlag events (pollIn ||| pollPri)).toNat + (hasFlag events pollOut).toNat := by
  have hin : (started s d).hasInput typed ((idleState 2).fds ⟨0, by decide⟩) =
    true := rfl
  have hout : (started s d).hasOutput ((idleState 2).fds ⟨0, by decide⟩) = true := rfl
  rw [pollReady, @pollRevents_some _ typed _ ((idleState 2).fds ⟨0, by decide⟩) rfl,
    hin, hout, Bool.and_true, Bool.and_true, asksInput]
  generalize hasFlag events (pollIn ||| pollPri) = a
  generalize hasFlag events pollOut = b
  revert a b
  decide

/-- **What `poll` reports** in the array it leaves behind is right exactly if the array is
plain. -/
theorem poll_right_iff {k' : Kernel} {ptr : U32} {fds : List PollFd} {timeout r : ℤ}
    {regs : Registers} (hrings : k.RingsInBounds)
    (hcall : k.sysPoll ptr fds timeout dev.console regs = some (k', r)) (hr : 0 ≤ r)
    (hawake : timeout = 0 ∨ r ≠ 0) :
    storeUser k.paging ptr (k.pollBytes dev.console (fds.take taskMaxFds)) = some k'.paging ∧
      (k.PollRight dev fds r ↔ k.PollPlain dev fds) := by
  obtain ⟨hstored, hsum⟩ := sysPoll_spec hcall hr hawake
  refine ⟨hstored, ?_⟩
  have hzero (x : BitVec 16) : x.setWidth 32 = (0 : U32) ↔ x = 0 := by
    rw [← toNat_inj, ← toNat_inj, toNat_setWidth_of_le (by decide)]
    rfl
  have hcount : r = ((k.reported dev fds).countP fun x => x.2 ≠ 0) ↔
      (fds.take taskMaxFds).countP (k.countsTwice dev) =
        (fds.drop taskMaxFds).countP fun q => q.revents ≠ 0 := by
    rw [hsum, Nat.cast_inj, sum_pollReady, reported_eq, countP_append, countP_map,
      countP_map]
    simp only [Function.comp_def, ne_eq, hzero]
    omega
  have hinput (q : PollFd) (f : TaskFd) (hf : f ∈ k.openEntry q.fd) (hask : asksInput q = true) :
      (hasFlag (k.pollRevents dev.console q) pollIn = true ↔ k.wouldBlock dev f = false) ↔
        k.InputKnown dev f := by
    rw [hasFlag_pollRevents hf hask, hasInput_iff hrings]
  have hnegative (q : PollFd) : (q.fd < 0 → k.pollRevents dev.console q = 0) ↔ 0 ≤ q.fd := by
    refine ⟨fun h => ?_, fun h hfd => absurd h (not_le.mpr hfd)⟩
    by_contra hfd
    exact pollRevents_negative (not_le.mp hfd) (h (not_le.mp hfd))
  constructor
  · rintro ⟨hc, hneg, hin⟩
    rw [reported_eq] at hneg hin
    simp only [List.forall_mem_append, List.forall_mem_map, hzero] at hneg hin
    exact ⟨hcount.mp hc, fun q hq => ⟨(hnegative q).mp (hneg.1 q hq), fun f hf hask =>
      (hinput q f hf hask).mp (hin.1 q hq f hf hask)⟩, fun q hq => ⟨hneg.2 q hq, hin.2 q hq⟩⟩
  · rintro ⟨hc, hpolled, hleft⟩
    refine ⟨hcount.mpr hc, ?_, ?_⟩ <;> rw [reported_eq] <;>
      simp only [List.forall_mem_append, List.forall_mem_map, hzero]
    · exact ⟨fun q hq => (hnegative q).mpr (hpolled q hq).1, fun q hq => (hleft q hq).1⟩
    · exact ⟨fun q hq f hf hask => (hinput q f hf hask).mpr ((hpolled q hq).2 f hf hask),
        fun q hq => (hleft q hq).2⟩

/-- Console input, asked for alone. -/
theorem poll_right_console :
    ∃ s s' d, run step (boot MapSystem.smallBoot MapSystem.blank) [.run idle, .schedule] =
        some (started s d) ∧
      (started s d).sysPoll userTlsAddr [⟨0, pollIn, 0⟩] 0 typed.console .zero =
        some (started s' d, 1) ∧
      (started s d).PollRight typed [⟨0, pollIn, 0⟩] 1 := by
  obtain ⟨s, d, hrun, M⟩ := exists_started
  obtain ⟨s', hcall⟩ := started_poll M ⟨0, pollIn, 0⟩ typed.console .zero
  have hrings : (started s d).RingsInBounds := by
    have hsocket : 0 < socketBufferSize := by decide
    have hpipe : 0 < pipeBufferSize := by decide
    exact ⟨fun _ => ⟨hsocket, hsocket⟩, fun _ => ⟨hpipe, hpipe⟩⟩
  rw [started_pollReady] at hcall
  refine ⟨s, s', d, hrun, hcall, ?_⟩
  refine (@poll_right_iff _ typed _ _ _ _ _ _ hrings hcall (by decide) (.inl rfl)).2.mpr ?_
  refine ⟨rfl, fun q hq => ?_, nofun⟩
  cases mem_singleton.mp hq
  refine ⟨le_rfl, ?_⟩
  rintro f hf -
  cases hf
  exact .inl rfl

/-- Input and output of one descriptor count as two. -/
theorem poll_counts_twice :
    ∃ s s' d, run step (boot MapSystem.smallBoot MapSystem.blank) [.run idle, .schedule] =
        some (started s d) ∧
      (started s d).sysPoll userTlsAddr [⟨0, pollIn ||| pollOut, 0⟩] 0 typed.console .zero =
        some (started s' d, 2) ∧
      ¬ (started s d).PollRight typed [⟨0, pollIn ||| pollOut, 0⟩] 2 := by
  obtain ⟨s, d, hrun, M⟩ := exists_started
  obtain ⟨s', hcall⟩ := started_poll M ⟨0, pollIn ||| pollOut, 0⟩ typed.console .zero
  rw [started_pollReady] at hcall
  refine ⟨s, s', d, hrun, hcall, fun h => ?_⟩
  have hcount := h.count
  have hle : ((started s d).reported typed [⟨0, pollIn ||| pollOut, 0⟩]).length ≤ 1 := by
    rw [reported_eq]
    exact le_rfl
  have hone := (countP_le_length (p := fun x => decide (x.2 ≠ 0))).trans hle
  omega

end Kernel

end OpenHobbyOS
