/-
# Cutting the stream into messages

`read_client_data` of `user/xnx/compositor.c` asks for the rest of the header or of the payload and
gets any part of it.  The bytes received so far and those still unread are always the encodings of
the messages not yet handled (`Awaits`).
-/
import OpenHobbyOS.Lib.Run
import OpenHobbyOS.Xnx.Protocol

namespace OpenHobbyOS.Xnx

open Lib List

/-! ## The reader -/

/-- `msg_state`: 0 while the header is read, 1 while the payload is. -/
inductive MsgState where
  | header
  | payload
  deriving DecidableEq

/-- The fields of `struct xnx_client` that `read_client_data` uses. -/
structure Reader where
  currentHeader : ℕ → U8
  readBuf : ℕ → U8
  readOffset : ℕ
  msgState : MsgState

/-- `current_header.type`. -/
def Reader.type (r : Reader) : U32 := BitVec.ofNat 32 (le32 r.currentHeader 0)

/-- `current_header.payload_size`. -/
def Reader.payloadSize (r : Reader) : ℕ := le32 r.currentHeader 4

/-- The message that `handle_client_message` sees. -/
def Reader.message (r : Reader) : Message := ⟨r.type, window r.readBuf 0 r.payloadSize⟩

/-- The number of bytes asked for. -/
def Reader.needed (r : Reader) : ℕ :=
  match r.msgState with
  | .header => headerBytes - r.readOffset
  | .payload => r.payloadSize - r.readOffset

/-- What `recv` does. -/
inductive Recv where
  | bytes (data : List U8)
  | closed
  | eintr
  | eagain
  | failed

/-- What `read_client_data` returns: -1, 0, or what `handle_client_message` returns. -/
inductive Answer where
  | error
  | done
  | handle
  deriving DecidableEq

/-- Bytes of the header have been received. -/
def readHeader (r : Reader) (data : List U8) : Reader × Answer :=
  let r := { r with
    currentHeader := splice r.currentHeader r.readOffset data
    readOffset := r.readOffset + data.length }
  if r.readOffset = headerBytes then
    let r := { r with readOffset := 0, msgState := .payload }
    if xnxMaxMessageBytes < r.payloadSize then (r, .error)
    else if r.payloadSize = 0 then ({ r with msgState := .header }, .handle)
    else (r, .done)
  else (r, .done)

/-- Bytes of the payload have been received. -/
def readPayload (r : Reader) (data : List U8) : Reader × Answer :=
  let r := { r with
    readBuf := splice r.readBuf r.readOffset data
    readOffset := r.readOffset + data.length }
  if r.readOffset = r.payloadSize then
    ({ r with readOffset := 0, msgState := .header }, .handle)
  else (r, .done)

/-- `read_client_data`. -/
def readClientData (r : Reader) : Recv → Reader × Answer
  | .bytes data =>
    match r.msgState with
    | .header => readHeader r data
    | .payload => readPayload r data
  | .closed => (r, .error)
  | .eintr => (r, .done)
  | .eagain => (r, .done)
  | .failed => (r, .error)

/-! ## The connection -/

/-- The bytes on their way, the reader, the calls of the handler so far, and whether the client is
still there. -/
structure Connection where
  unread : List U8
  reader : Reader
  calls : List Message
  active : Bool

/-- One call of `read_client_data`: what `recv` returns, and whether the handler returns without an
error. -/
inductive Read where
  | bytes (n : ℕ) (handled : Bool)
  | eintr
  | eagain

/-- The handler of the call, if it is called, returns no error. -/
def Read.Handled : Read → Prop
  | .bytes _ handled => handled = true
  | .eintr => True
  | .eagain => True

/-- The connection after `read_client_data` has returned. -/
def Connection.after (c : Connection) (result : Reader × Answer) (unread : List U8)
    (handled : Bool) : Connection :=
  match result.2 with
  | .error => { c with reader := result.1, unread := unread, active := false }
  | .done => { c with reader := result.1, unread := unread }
  | .handle =>
    { reader := result.1, unread := unread, calls := c.calls ++ [result.1.message]
      active := handled }

/-- A call is possible while the client is there; `recv` returns one byte at least, and no more than
were asked for. -/
def readStep (c : Connection) : Read → Option Connection
  | .bytes n handled =>
    if c.active = true ∧ 0 < n ∧ n ≤ c.reader.needed ∧ n ≤ c.unread.length then
      some (c.after (readClientData c.reader (.bytes (c.unread.take n))) (c.unread.drop n) handled)
    else none
  | .eintr =>
    if c.active = true then
      some (c.after (readClientData c.reader .eintr) c.unread true) else none
  | .eagain =>
    if c.active = true then
      some (c.after (readClientData c.reader .eagain) c.unread true) else none

/-! ## The invariant -/

/-- The bytes `seen` and the unread ones are the encodings of the messages `rest`. -/
def Awaits (r : Reader) (unread : List U8) (rest : List Message) : Prop :=
  ∃ seen : List U8, seen.length = r.readOffset ∧
    match r.msgState with
    | .header => r.readOffset < headerBytes ∧ Holds r.currentHeader 0 seen ∧
        seen ++ unread = encodeAll rest
    | .payload => ∃ m rest', rest = m :: rest' ∧ Holds r.currentHeader 0 (encodeHeader m) ∧
        r.readOffset < m.payload.length ∧ Holds r.readBuf 0 seen ∧
        seen ++ unread = m.payload ++ encodeAll rest'

/-- A message that the sender accepts. -/
def Message.Fits (m : Message) : Prop := m.payload.length ≤ xnxMaxMessageBytes

variable {r : Reader} {unread data : List U8} {m : Message} {rest : List Message}

lemma payloadSize_eq (hm : m.Fits) (h : Holds r.currentHeader 0 (encodeHeader m)) :
    r.payloadSize = m.payload.length := by
  have hm : m.payload.length ≤ 65536 := hm
  rw [encodeHeader, holds_append] at h
  exact le32_of_holds (by omega) h.2

lemma type_eq (h : Holds r.currentHeader 0 (encodeHeader m)) : r.type = m.type := by
  rw [encodeHeader, holds_append] at h
  rw [Reader.type, le32_of_holds m.type.isLt h.1, BitVec.ofNat_toNat, BitVec.setWidth_eq]

lemma message_eq (hm : m.Fits) (hheader : Holds r.currentHeader 0 (encodeHeader m))
    (hbuf : Holds r.readBuf 0 m.payload) : r.message = m := by
  rw [Reader.message, type_eq hheader, payloadSize_eq hm hheader, hbuf]

lemma Awaits.needed_pos (h : Awaits r unread rest) (hfits : ∀ m ∈ rest, m.Fits) : 0 < r.needed := by
  obtain ⟨seen, -, h⟩ := h
  rw [Reader.needed]
  cases hstate : r.msgState with
  | header =>
    rw [hstate] at h
    exact Nat.sub_pos_of_lt h.1
  | payload =>
    rw [hstate] at h
    obtain ⟨m, rest', rfl, hheader, hlt, -⟩ := h
    rw [← payloadSize_eq (hfits m mem_cons_self) hheader] at hlt
    exact Nat.sub_pos_of_lt hlt

lemma Awaits.eq_nil (h : Awaits r [] rest) : rest = [] := by
  obtain ⟨seen, hseen, h⟩ := h
  cases hstate : r.msgState with
  | header =>
    rw [hstate] at h
    obtain ⟨hlt, -, hstream⟩ := h
    cases rest with
    | nil => rfl
    | cons m rest =>
      -- less than a header is left
      have hlen := congrArg List.length hstream
      rw [append_nil, encodeAll_cons, length_append, length_encodeHeader] at hlen
      omega
  | payload =>
    rw [hstate] at h
    obtain ⟨m, rest', rfl, -, hlt, -, hstream⟩ := h
    have hlen := congrArg List.length hstream
    rw [append_nil, length_append] at hlen
    omega

/-- The call returns 0 and the same messages are awaited, or it has handled the first one. -/
def Advances (result : Reader × Answer) (unread : List U8) (rest : List Message) : Prop :=
  result.2 = .done ∧ Awaits result.1 unread rest ∨
    result.2 = .handle ∧ ∃ m rest', rest = m :: rest' ∧ result.1.message = m ∧
      Awaits result.1 unread rest'

lemma awaits_start (hstate : r.msgState = .header) (hoffset : r.readOffset = 0)
    (hunread : unread = encodeAll rest) : Awaits r unread rest := by
  refine ⟨[], hoffset.symm, ?_⟩
  rw [hstate, hoffset]
  exact ⟨by decide, holds_nil _ _, hunread⟩

lemma readHeader_advances (hstate : r.msgState = .header) (h : Awaits r (data ++ unread) rest)
    (hle : data.length ≤ r.needed) (hfits : ∀ m ∈ rest, m.Fits) :
    Advances (readHeader r data) unread rest := by
  obtain ⟨seen, hseen, h⟩ := h
  rw [hstate] at h
  obtain ⟨hlt, hheld, hstream⟩ := h
  have hle : data.length ≤ headerBytes - r.readOffset := by
    rw [Reader.needed, hstate] at hle
    exact hle
  have hheld : Holds (splice r.currentHeader r.readOffset data) 0 (seen ++ data) := by
    rw [← hseen, ← Nat.zero_add seen.length]
    exact holds_splice_append hheld _
  have hlen : (seen ++ data).length = r.readOffset + data.length := by
    rw [length_append, hseen]
  rw [← append_assoc] at hstream
  by_cases hfull : r.readOffset + data.length = headerBytes
  · -- the header is complete, so it is that of the first message
    cases rest with
    | nil =>
      have hnone := congrArg List.length hstream
      rw [length_append, hlen, hfull] at hnone
      exact absurd hnone (by rw [encodeAll, flatMap_nil, headerBytes]; simp)
    | cons m rest' =>
      rw [encodeAll_cons] at hstream
      obtain ⟨heq, hstream⟩ := append_inj hstream (by rw [hlen, hfull, length_encodeHeader])
      rw [heq] at hheld
      have hsize := payloadSize_eq (r := { r with
        currentHeader := splice r.currentHeader r.readOffset data, readOffset := 0
        msgState := .payload }) (hfits m mem_cons_self) hheld
      have hsmall : ¬xnxMaxMessageBytes < m.payload.length :=
        Nat.not_lt.mpr (hfits m mem_cons_self)
      rw [readHeader]
      simp only [hfull, if_true, hsize, if_neg hsmall]
      split_ifs with hzero
      · have hempty : m.payload = [] := length_eq_zero_iff.mp hzero
        refine Or.inr ⟨rfl, m, rest', rfl, ?_, awaits_start rfl rfl ?_⟩
        · exact message_eq (hfits m mem_cons_self) hheld (by rw [hempty]; exact holds_nil _ _)
        · rw [hstream, hempty, nil_append]
      · refine Or.inl ⟨rfl, [], rfl, m, rest', rfl, hheld, Nat.pos_of_ne_zero hzero, holds_nil _ _,
          hstream⟩
  · rw [readHeader]
    simp only [hfull, if_false]
    refine Or.inl ⟨rfl, seen ++ data, hlen, ?_⟩
    simp only [hstate]
    exact ⟨by omega, hheld, hstream⟩

lemma readPayload_advances (hstate : r.msgState = .payload) (h : Awaits r (data ++ unread) rest)
    (hle : data.length ≤ r.needed) (hfits : ∀ m ∈ rest, m.Fits) :
    Advances (readPayload r data) unread rest := by
  obtain ⟨seen, hseen, h⟩ := h
  rw [hstate] at h
  obtain ⟨m, rest', rfl, hheader, hlt, hheld, hstream⟩ := h
  have hm := hfits m mem_cons_self
  have hsize := payloadSize_eq hm hheader
  have hle : data.length ≤ m.payload.length - r.readOffset := by
    rw [Reader.needed, hstate] at hle
    exact hsize ▸ hle
  have hheld : Holds (splice r.readBuf r.readOffset data) 0 (seen ++ data) := by
    rw [← hseen, ← Nat.zero_add seen.length]
    exact holds_splice_append hheld _
  have hlen : (seen ++ data).length = r.readOffset + data.length := by
    rw [length_append, hseen]
  rw [← append_assoc] at hstream
  have hsame : Reader.payloadSize { r with
      readBuf := splice r.readBuf r.readOffset data
      readOffset := r.readOffset + data.length } = m.payload.length := hsize
  rw [readPayload]
  simp only [hsame]
  split_ifs with hfull
  · obtain ⟨heq, hstream⟩ := append_inj hstream (by rw [hlen, hfull])
    rw [heq] at hheld
    exact Or.inr ⟨rfl, m, rest', rfl, message_eq hm hheader hheld, awaits_start rfl rfl hstream⟩
  · refine Or.inl ⟨rfl, seen ++ data, hlen, ?_⟩
    simp only [hstate]
    exact ⟨m, rest', rfl, hheader, by omega, hheld, hstream⟩

lemma readClientData_advances (h : Awaits r (data ++ unread) rest)
    (hle : data.length ≤ r.needed) (hfits : ∀ m ∈ rest, m.Fits) :
    Advances (readClientData r (.bytes data)) unread rest := by
  rw [readClientData]
  cases hstate : r.msgState with
  | header => exact readHeader_advances hstate h hle hfits
  | payload => exact readPayload_advances hstate h hle hfits

/-- A connection on which the messages `msgs` are sent. -/
def Carries (msgs : List Message) (c : Connection) : Prop :=
  c.active = true ∧ ∃ rest, c.calls ++ rest = msgs ∧ Awaits c.reader c.unread rest

lemma Carries.after {msgs : List Message} {c : Connection} {result : Reader × Answer}
    (hactive : c.active = true) (hcalls : c.calls ++ rest = msgs)
    (h : Advances result unread rest) : Carries msgs (c.after result unread true) := by
  rw [Connection.after]
  rcases h with ⟨hdone, hawaits⟩ | ⟨hhandle, m, rest', rfl, hm, hawaits⟩
  · rw [hdone]
    exact ⟨hactive, rest, hcalls, hawaits⟩
  · rw [hhandle, hm]
    refine ⟨rfl, rest', ?_, hawaits⟩
    show (c.calls ++ [m]) ++ rest' = msgs
    rw [append_assoc]
    exact hcalls

lemma Carries.step {msgs : List Message} {c c' : Connection} {read : Read}
    (hfits : ∀ m ∈ msgs, m.Fits) (h : Carries msgs c) (hread : read.Handled)
    (hstep : readStep c read = some c') : Carries msgs c' := by
  obtain ⟨hactive, rest, hcalls, hawaits⟩ := h
  have hrest : ∀ m ∈ rest, m.Fits := fun m hm =>
    hfits m (hcalls ▸ mem_append_right c.calls hm)
  cases read with
  | bytes n handled =>
    obtain rfl : handled = true := hread
    rw [readStep] at hstep
    split_ifs at hstep with hn
    rw [Option.some.injEq] at hstep
    subst hstep
    refine Carries.after hactive hcalls (readClientData_advances ?_ ?_ hrest)
    · rwa [take_append_drop]
    · rw [length_take]
      omega
  | eintr | eagain =>
    rw [readStep, if_pos hactive, Option.some.injEq] at hstep
    subst hstep
    exact Carries.after hactive hcalls (Or.inl ⟨rfl, hawaits⟩)

/-- A client that has just connected, with any contents of its buffers. -/
def connected (wire : List U8) (currentHeader readBuf : ℕ → U8) : Connection :=
  ⟨wire, ⟨currentHeader, readBuf, 0, .header⟩, [], true⟩

/-- **Framing.**  However the bytes of the library's sender arrive, as long as no handler returns an
error the calls of `handle_client_message` are the first of the messages in order, further bytes can
be read while there are any, and in the end every message has been handled once. -/
theorem framing (msgs : List Message) (hfits : ∀ m ∈ msgs, m.Fits) (script : List Send)
    (hsent : (sendMessages msgs script).status = .ok) (currentHeader readBuf : ℕ → U8)
    (reads : List Read) (hhandled : ∀ read ∈ reads, read.Handled) (c : Connection)
    (hrun : run readStep
      (connected (sendMessages msgs script).written currentHeader readBuf) reads = some c) :
    c.active = true ∧ c.calls <+: msgs ∧
      (c.unread ≠ [] → (readStep c (.bytes 1 true)).isSome) ∧
      (c.unread = [] → c.calls = msgs) := by
  rw [sendMessages_written hsent] at hrun
  have hstart : Carries msgs (connected (encodeAll msgs) currentHeader readBuf) :=
    ⟨rfl, msgs, rfl, awaits_start rfl rfl rfl⟩
  obtain ⟨hactive, rest, hcalls, hawaits⟩ := run_invariant_of_meet
    (C := fun _ read => read.Handled) (P := Carries msgs)
    (fun h hread hstep => h.step hfits hread hstep) hstart
    (stepsMeet_of_mem (fun _ => hhandled) _) hrun
  have hrest : ∀ m ∈ rest, m.Fits := fun m hm =>
    hfits m (hcalls ▸ mem_append_right c.calls hm)
  refine ⟨hactive, ⟨rest, hcalls⟩, fun hunread => ?_, fun hunread => ?_⟩
  · have hpos := length_pos_iff.mpr hunread
    have hneeded := hawaits.needed_pos hrest
    rw [readStep, if_pos ⟨hactive, by decide, hneeded, hpos⟩]
    rfl
  · rw [hunread] at hawaits
    rw [hawaits.eq_nil, append_nil] at hcalls
    exact hcalls

/-- A commit of surface 1 and a request for the size of the display. -/
def sampleMessages : List Message := [⟨6, [1, 0, 0, 0]⟩, ⟨7, []⟩]

/-- The sender is interrupted. -/
def sampleScript : List Send := [.sent 8, .eintr, .sent 3, .eagain true, .sent 1, .sent 8]

/-- The bytes arrive in odd pieces. -/
def sampleReads : List Read :=
  [.bytes 3 true, .eagain, .bytes 5 true, .bytes 1 true, .eintr, .bytes 3 true, .bytes 8 true]

theorem framing_two :
    (sendMessages sampleMessages sampleScript).status = .ok ∧
      ∃ c, run readStep (connected (sendMessages sampleMessages sampleScript).written
          (fun _ => 0) (fun _ => 0)) sampleReads = some c ∧
        c.calls = sampleMessages := by
  obtain ⟨c, hrun, hc⟩ := (Option.any_eq_true _ _).mp
    (show Option.any (fun c => c.unread = []) (run readStep (connected
      (sendMessages sampleMessages sampleScript).written (fun _ => 0) (fun _ => 0)) sampleReads) =
        true by decide +kernel)
  refine ⟨by decide, c, hrun, (framing sampleMessages ?_ sampleScript (by decide) _ _ _ ?_ c
    hrun).2.2.2 (of_decide_eq_true hc)⟩
  · unfold Message.Fits
    decide
  · intro read hread
    fin_cases hread <;> trivial

end OpenHobbyOS.Xnx
