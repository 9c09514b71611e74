/-
# Pipes

The endpoint functions of `src/pipe.c` that touch nothing but the pipe, and an open pipe as a queue
of bytes.
-/
import OpenHobbyOS.Kernel.Types

namespace OpenHobbyOS

open Paging Lib List

namespace PipeEndpoint

variable (p : PipeEndpoint)

/-- The endpoint `pipe_alloc` sets up. -/
def fresh : PipeEndpoint :=
  { PipeEndpoint.zero with
    used := true
    refcount := 1
    readOpen := true
    writeOpen := true
    readWaiter := none }

/-- `pipe_buffer_used`. -/
def bufferUsed : ℕ := RingBuffer.used pipeBufferSize p.ring

/-- `pipe_buffer_available`. -/
def bufferAvailable : ℕ := RingBuffer.available pipeBufferSize p.ring

/-- `pipe_buffer_write`. -/
def bufferWrite (src : List U8) : PipeEndpoint × ℤ :=
  let (ring, written) := RingBuffer.write pipeBufferSize p.ring src
  ({ p with ring := ring }, written)

/-- `pipe_buffer_read`. -/
def bufferRead (length : ℕ) : PipeEndpoint × List U8 :=
  let (ring, bytes) := RingBuffer.read pipeBufferSize p.ring length
  ({ p with ring := ring }, bytes)

/-- `pipe_release`. -/
def release : PipeEndpoint :=
  if !p.used then p
  else if 0 < p.refcount - 1 then { p with refcount := p.refcount - 1 }
  else
    { p with
      refcount := p.refcount - 1
      used := false
      readOpen := false
      writeOpen := false
      peerClosed := true }

/-- `pipe_read`: the value and the bytes.  An empty pipe gives 0, whether or not the write end is
open. -/
def pipeRead (buffer : U32) (length : ℕ) : PipeEndpoint × ℤ × List U8 :=
  if !p.used then (p, errBadf, [])
  else if !p.readOpen then (p, errBadf, [])
  else if buffer = 0 then (p, errFault, [])
  else
    let (p', bytes) := p.bufferRead length
    if 0 < bytes.length then (p', bytes.length, bytes)
    else if !p'.writeOpen || p'.peerClosed then (p', 0, [])
    else (p', 0, [])

/-- `pipe_write` of the bytes found at an address. -/
def pipeWrite (buffer : U32) (src : List U8) : PipeEndpoint × ℤ :=
  if !p.used then (p, errBadf)
  else if !p.writeOpen then (p, errBadf)
  else if buffer = 0 then (p, errFault)
  else if !p.readOpen then (p, errPipe)
  else p.bufferWrite src

/-- `pipe_pending_readable`. -/
def pendingReadable : ℕ := if !p.readOpen then 0 else p.bufferUsed

/-- Both ends are open. -/
structure Open (p : PipeEndpoint) : Prop where
  used : p.used = true
  readOpen : p.readOpen = true
  writeOpen : p.writeOpen = true
  inBounds : RingBuffer.InBounds pipeBufferSize p.ring

/-- The bytes in the pipe, oldest first. -/
def contents : List U8 := RingBuffer.contents pipeBufferSize p.ring

/-! ## One call -/

section Calls

variable {p}

lemma fresh_open : fresh.Open :=
  ⟨rfl, rfl, rfl, by decide, by decide⟩

/-- A write on an open pipe appends the longest prefix that fits and says how long it
is. -/
lemma Open.pipeWrite_spec (h : p.Open) {buffer : U32} (hb : buffer ≠ 0) (src : List U8) :
    (p.pipeWrite buffer src).1.Open ∧
      (p.pipeWrite buffer src).2 = min src.length p.bufferAvailable ∧
      (p.pipeWrite buffer src).1.contents =
        p.contents ++ src.take (min src.length p.bufferAvailable) := by
  obtain ⟨hin, hcount, hcont⟩ := RingBuffer.write_spec h.inBounds src
  have heq : p.pipeWrite buffer src = p.bufferWrite src := by
    simp only [pipeWrite, h.used, h.readOpen, h.writeOpen, Bool.not_true, Bool.false_eq_true,
      if_false, hb]
  rw [hcount] at hcont
  rw [heq]
  exact ⟨⟨h.used, h.readOpen, h.writeOpen, hin⟩, congrArg Int.ofNat hcount, hcont⟩

lemma Open.pipeRead_spec (h : p.Open) {buffer : U32} (hb : buffer ≠ 0) (length : ℕ) :
    (p.pipeRead buffer length).1.Open ∧
      (p.pipeRead buffer length).2.1 = (p.pipeRead buffer length).2.2.length ∧
      (p.pipeRead buffer length).2.2 ++ (p.pipeRead buffer length).1.contents = p.contents := by
  obtain ⟨hin, hbytes, hcont⟩ := RingBuffer.read_spec h.inBounds length
  have hopen : (p.bufferRead length).1.Open := ⟨h.used, h.readOpen, h.writeOpen, hin⟩
  have hsplit : (p.bufferRead length).2 ++ (p.bufferRead length).1.contents = p.contents := by
    rw [contents, bufferRead, hcont, hbytes]
    exact take_append_drop length _
  simp only [pipeRead, h.used, h.readOpen, Bool.not_true, Bool.false_eq_true, if_false, hb]
  split_ifs with hlen
  · exact ⟨hopen, rfl, hsplit⟩
  all_goals
    have hnil : (p.bufferRead length).2 = [] := eq_nil_of_length_eq_zero (by omega)
    rw [hnil] at hsplit
    exact ⟨hopen, rfl, hsplit⟩

end Calls

end PipeEndpoint

/-! ## Sequences of calls -/

/-- A call on a pipe, with a buffer that is not `NULL`. -/
inductive PipeCall where
  | write (buffer : { b : U32 // b ≠ 0 }) (src : List U8)
  | read (buffer : { b : U32 // b ≠ 0 }) (length : ℕ)

/-- A pipe with the bytes its writes accepted and the bytes its reads returned. -/
structure PipeHistory where
  pipe : PipeEndpoint
  accepted : List U8
  returned : List U8

namespace PipeHistory

/-- A new pipe. -/
def start : PipeHistory := ⟨.fresh, [], []⟩

/-- A call. -/
def step (h : PipeHistory) : PipeCall → PipeHistory
  | .write buffer src =>
    let (p, written) := h.pipe.pipeWrite buffer src
    { h with pipe := p, accepted := h.accepted ++ src.take written.toNat }
  | .read buffer length =>
    let (p, _, bytes) := h.pipe.pipeRead buffer length
    { h with pipe := p, returned := h.returned ++ bytes }

/-- What the calls keep: the pipe is open and holds what was accepted and not yet
returned. -/
structure Fifo (h : PipeHistory) : Prop where
  isOpen : h.pipe.Open
  queue : h.returned ++ h.pipe.contents = h.accepted

lemma fifo_start : start.Fifo := ⟨PipeEndpoint.fresh_open, rfl⟩

lemma Fifo.step {h : PipeHistory} (H : h.Fifo) (c : PipeCall) : (h.step c).Fifo := by
  cases c with
  | write buffer src =>
    obtain ⟨hopen, hcount, hcont⟩ := H.isOpen.pipeWrite_spec buffer.2 src
    refine ⟨hopen, ?_⟩
    change h.returned ++ (h.pipe.pipeWrite buffer src).1.contents =
      h.accepted ++ src.take (h.pipe.pipeWrite buffer src).2.toNat
    rw [hcont, hcount, ← append_assoc, H.queue]
    rfl
  | read buffer length =>
    obtain ⟨hopen, -, hcont⟩ := H.isOpen.pipeRead_spec buffer.2 length
    refine ⟨hopen, ?_⟩
    change (h.returned ++ (h.pipe.pipeRead buffer length).2.2) ++
      (h.pipe.pipeRead buffer length).1.contents = h.accepted
    rw [append_assoc, hcont, H.queue]

lemma fifo_run (calls : List PipeCall) : (calls.foldl step start).Fifo := by
  induction calls using List.reverseRecOn with
  | nil => exact fifo_start
  | append_singleton calls c ih =>
    rw [foldl_append]
    exact ih.step c

/-- **A pipe is a queue.**  After any calls one byte of the ring stays free, what was returned
followed by what is stored is what was accepted, the next write accepts as many bytes as fit, and
the next read returns the number of bytes that it stores. -/
theorem pipe_fifo (calls : List PipeCall) :
    let h := calls.foldl step start
    h.pipe.ring.head < pipeBufferSize ∧ h.pipe.ring.tail < pipeBufferSize ∧
      h.pipe.bufferUsed + h.pipe.bufferAvailable = pipeBufferSize - 1 ∧
      h.returned ++ h.pipe.contents = h.accepted ∧
      (∀ (buffer : { b : U32 // b ≠ 0 }) (src : List U8),
        (h.pipe.pipeWrite buffer src).2 = min src.length h.pipe.bufferAvailable) ∧
      ∀ (buffer : { b : U32 // b ≠ 0 }) (length : ℕ),
        (h.pipe.pipeRead buffer length).2.1 = (h.pipe.pipeRead buffer length).2.2.length := by
  intro h
  have H : h.Fifo := fifo_run calls
  obtain ⟨hhead, htail⟩ := H.isOpen.inBounds
  exact ⟨hhead, htail, RingBuffer.used_add_available H.isOpen.inBounds, H.queue,
    fun buffer src => (H.isOpen.pipeWrite_spec buffer.2 src).2.1,
    fun buffer length => (H.isOpen.pipeRead_spec buffer.2 length).2.1⟩

end PipeHistory

end OpenHobbyOS
