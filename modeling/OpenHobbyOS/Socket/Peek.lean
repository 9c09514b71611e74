/-
# Looking at a socket's data

`socket_recv` of `src/socket.c` with both of its copy loops, which are written apart from each other
in the source: `MSG_PEEK` copies with a local read position, a plain receive moves the position of
the ring.
-/
import OpenHobbyOS.Kernel.Socket

namespace OpenHobbyOS

open Lib List Paging

/-- The copy loop of the `MSG_PEEK` branch. -/
def peekLoop (N : ℕ) (buf : ℕ → U8) (toRead : ℕ) : ℕ → ℕ → List U8 → List U8
  | 0, _, dest => dest
  | fuel + 1, head, dest =>
    if dest.length < toRead then
      let chunk := min (N - head) (toRead - dest.length)
      peekLoop N buf toRead fuel ((head + chunk) % N) (dest ++ RingBuffer.slice buf head chunk)
    else dest

namespace SocketEndpoint

variable (s : SocketEndpoint)

/-- What `socket_recv` returns when it has copied nothing. -/
def emptyResult : ℤ :=
  if s.peer = none then 0 else if s.peerClosed then 0 else errAgain

/-- `socket_recv` with its two branches. -/
def recvBranches (length : ℕ) (flags : U32) : SocketEndpoint × ℤ × List U8 :=
  if s.type ≠ sockStream then (s, errNotconn, [])
  else if length = 0 then (s, 0, [])
  else if hasFlag flags msgPeek then
    let toRead := min length s.bufferUsed
    if 0 < toRead then
      (s, toRead, peekLoop socketBufferSize s.ring.buf toRead toRead s.ring.head [])
    else (s, s.emptyResult, [])
  else
    let (ring, bytes) := RingBuffer.read socketBufferSize s.ring length
    let s := { s with ring := ring }
    if 0 < bytes.length then (s, bytes.length, bytes) else (s, s.emptyResult, [])

/-- A look with `flags` and what follows it. -/
structure PeekAgrees (length : ℕ) (flags flags' : U32) : Prop where
  /-- Ring, peer and control data are as they were. -/
  unchanged : (s.recvBranches length flags).1 = s
  /-- Count and bytes are those of the receive that follows. -/
  same : ((s.recvBranches length flags).1.recvBranches length flags').2 =
    (s.recvBranches length flags).2
  /-- Looking again shows the same. -/
  again : (s.recvBranches length flags).1.recvBranches length flags = s.recvBranches length flags
  /-- The bytes are the oldest ones, as many as were asked for or are there. -/
  bytes : s.type = sockStream → (s.recvBranches length flags).2.2 = s.contents.take length

variable {s : SocketEndpoint} {length : ℕ}

lemma peekLoop_eq_readLoop (N toRead fuel : ℕ) (r : RingBuffer U8) (dest : List U8) :
    peekLoop N r.buf toRead fuel r.head dest = (RingBuffer.readLoop N toRead fuel r dest).2 := by
  induction fuel generalizing r dest with
  | zero => rfl
  | succ fuel ih =>
    rw [peekLoop, RingBuffer.readLoop]
    by_cases hmore : dest.length < toRead
    · rw [if_pos hmore, if_pos hmore]
      exact ih ⟨r.buf, (r.head + min (N - r.head) (toRead - dest.length)) % N, r.tail⟩
        (dest ++ RingBuffer.slice r.buf r.head (min (N - r.head) (toRead - dest.length)))
    · rw [if_neg hmore, if_neg hmore]

lemma length_contents (s : SocketEndpoint) : s.contents.length = s.bufferUsed :=
  RingBuffer.length_contents _ _

lemma peekLoop_eq_take (h : RingBuffer.InBounds socketBufferSize s.ring)
    (hpos : 0 < min length s.bufferUsed) :
    peekLoop socketBufferSize s.ring.buf (min length s.bufferUsed) (min length s.bufferUsed)
      s.ring.head [] = s.contents.take length := by
  have hused : RingBuffer.used socketBufferSize s.ring ≠ 0 := by
    intro h0
    rw [bufferUsed, h0] at hpos
    omega
  have hread := (RingBuffer.read_spec h length).2.1
  rw [RingBuffer.read, if_neg hused] at hread
  rw [peekLoop_eq_readLoop]
  exact hread

/-- The endpoint after a receive: only a look leaves the ring as it is. -/
def afterRecv (s : SocketEndpoint) (length : ℕ) (flags : U32) : SocketEndpoint :=
  if hasFlag flags msgPeek then s
  else { s with ring := (RingBuffer.read socketBufferSize s.ring length).1 }

/-- The result with `n` bytes copied. -/
def resultOf (s : SocketEndpoint) (n : ℕ) : ℤ := if 0 < n then (n : ℤ) else s.emptyResult

lemma recvBranches_of_stream (h : RingBuffer.InBounds socketBufferSize s.ring)
    (htype : s.type = sockStream) (hlen : length ≠ 0) (flags : U32) :
    s.recvBranches length flags = (s.afterRecv length flags,
      s.resultOf (s.contents.take length).length, s.contents.take length) := by
  have htake : (s.contents.take length).length = min length s.bufferUsed := by
    rw [length_take, length_contents]
  rw [recvBranches, if_neg (not_not.mpr htype), if_neg hlen, afterRecv, resultOf]
  by_cases hpeek : hasFlag flags msgPeek
  · rw [if_pos hpeek, if_pos hpeek, htake]
    dsimp only
    by_cases hpos : 0 < min length s.bufferUsed
    · rw [if_pos hpos, if_pos hpos, peekLoop_eq_take h hpos]
    · rw [if_neg hpos, if_neg hpos,
        eq_nil_of_length_eq_zero (by omega : (s.contents.take length).length = 0)]
  · have hread : (RingBuffer.read socketBufferSize s.ring length).2 = s.contents.take length :=
      (RingBuffer.read_spec h length).2.1
    rw [if_neg hpeek, if_neg hpeek]
    dsimp only
    rw [hread]
    by_cases hpos : 0 < (s.contents.take length).length
    · rw [if_pos hpos, if_pos hpos]
    · rw [if_neg hpos, if_neg hpos, eq_nil_of_length_eq_zero (Nat.eq_zero_of_not_pos hpos)]
      rfl

/-- `recv`, which the other modules use, is the same function. -/
lemma recvBranches_eq (h : RingBuffer.InBounds socketBufferSize s.ring) (length : ℕ) (flags : U32) :
    s.recvBranches length flags = s.recv length flags := by
  by_cases hrecv : s.type = sockStream ∧ length ≠ 0
  · rw [recvBranches_of_stream h hrecv.1 hrecv.2, recv, if_neg (not_not.mpr hrecv.1),
      if_neg hrecv.2, afterRecv, resultOf, emptyResult]
    have hread : (RingBuffer.read socketBufferSize s.ring length).2 = s.contents.take length :=
      (RingBuffer.read_spec h length).2.1
    dsimp only
    rw [hread]
    generalize s.contents.take length = bytes
    cases bytes with
    | nil =>
      simp only [length_nil, Nat.lt_irrefl, if_false]
      split_ifs <;> rfl
    | cons b bytes => simp only [length_cons, Nat.zero_lt_succ, if_true]
  · by_cases htype : s.type = sockStream
    · simp_all [recvBranches, recv]
    · simp [recvBranches, recv, htype]

/-- **A look at the data of a socket** leaves the endpoint as it is and returns what the next
receive of the same length returns. -/
theorem peek_agrees (s : SocketEndpoint) (length : ℕ) (flags flags' : U32)
    (h : RingBuffer.InBounds socketBufferSize s.ring) (hpeek : hasFlag flags msgPeek = true) :
    s.PeekAgrees length flags flags' := by
  by_cases htype : s.type = sockStream
  · by_cases hlen : length = 0
    · refine ⟨?_, ?_, ?_, fun _ => ?_⟩ <;> simp [recvBranches, htype, hlen]
    · have hlook : s.recvBranches length flags =
          (s, s.resultOf (s.contents.take length).length, s.contents.take length) := by
        rw [recvBranches_of_stream h htype hlen, afterRecv, if_pos hpeek]
      refine ⟨?_, ?_, ?_, fun _ => ?_⟩ <;> rw [hlook]
      · rw [recvBranches_of_stream h htype hlen]
      · exact hlook
  · refine ⟨?_, ?_, ?_, fun hs => absurd hs htype⟩ <;> simp [recvBranches, htype]

/-- Six bytes in a ring, the last two of them at its start. -/
def wrapped : SocketEndpoint :=
  { SocketEndpoint.zero with
    used := true, type := sockStream, peer := some 1,
    ring := ⟨fun i => BitVec.ofNat 8 i, socketBufferSize - 4, 2⟩ }

theorem peek_agrees_wrapped : wrapped.PeekAgrees 5 msgPeek 0 ∧
    (wrapped.recvBranches 5 msgPeek).2 = (5, [252, 253, 254, 255, 0]) := by
  refine ⟨peek_agrees wrapped 5 msgPeek 0 ⟨by decide, by decide⟩ (by decide), by decide⟩

end SocketEndpoint

end OpenHobbyOS
