/-
# The XNX protocol

The messages of `user/xnx/protocol.h`: a header of two little-endian numbers, the type and the size
of the payload, and the payload.  The sender of `user/lib/xnx/xnx.c` writes header and payload in as
many pieces as the kernel takes.
-/
import OpenHobbyOS.Lib.Bytes
import OpenHobbyOS.Paging.Entry

namespace OpenHobbyOS.Xnx

open Lib List

/-- `XNX_MAX_MESSAGE_BYTES`. -/
def xnxMaxMessageBytes : ℕ := 65536

/-- The size of `struct xnx_header`. -/
def headerBytes : ℕ := 8

/-- A message. -/
structure Message where
  type : U32
  payload : List U8
  deriving DecidableEq

/-- `struct xnx_header` in memory. -/
def encodeHeader (m : Message) : List U8 := le32Bytes m.type.toNat ++ le32Bytes m.payload.length

/-- A message on the wire. -/
def encode (m : Message) : List U8 := encodeHeader m ++ m.payload

/-- Messages on the wire. -/
def encodeAll (msgs : List Message) : List U8 := msgs.flatMap encode

@[simp] lemma length_encodeHeader (m : Message) : (encodeHeader m).length = headerBytes := rfl

lemma encodeAll_cons (m : Message) (msgs : List Message) :
    encodeAll (m :: msgs) = encodeHeader m ++ (m.payload ++ encodeAll msgs) := by
  rw [encodeAll, flatMap_cons, encode, append_assoc, encodeAll]

/-! ## What the compositor sends -/

/-- `XNX_SURFACE_CREATED`. -/
def xnxSurfaceCreated : U32 := 0x8001
/-- `XNX_KEY_EVENT`. -/
def xnxKeyEvent : U32 := 0x8002
/-- `XNX_FRAME_DONE`. -/
def xnxFrameDone : U32 := 0x8005
/-- `XNX_DISPLAY_INFO`. -/
def xnxDisplayInfo : U32 := 0x8006

/-- `struct xnx_display_info`. -/
def displayInfo (width height : U32) : Message :=
  ⟨xnxDisplayInfo, le32Bytes width.toNat ++ le32Bytes height.toNat⟩

/-- `struct xnx_surface_created`. -/
def surfaceCreated (surfaceId : U32) : Message := ⟨xnxSurfaceCreated, le32Bytes surfaceId.toNat⟩

/-- The reply to a commit. -/
def frameDone : Message := ⟨xnxFrameDone, []⟩

/-- A key typed while a surface has the focus. -/
structure KeyEvent where
  surfaceId : U32
  keycode : U32
  deriving DecidableEq

/-- `struct xnx_key_event` with `pressed` set. -/
def keyMessage (key : KeyEvent) : Message :=
  ⟨xnxKeyEvent, le32Bytes key.surfaceId.toNat ++ le32Bytes key.keycode.toNat ++ [1, 0, 0, 0]⟩

/-! ## The sender -/

/-- One call of `send`: it takes some bytes, fails with `EINTR`, with `EAGAIN` (and the pause
succeeds or not), or for good. -/
inductive Send where
  | sent (n : ℕ)
  | eintr
  | eagain (waited : Bool)
  | failed
  deriving DecidableEq

/-- How a function of the sender ends: it returns 0 or -1, or it is still in its loop. -/
inductive Status where
  | ok
  | error
  | pending
  deriving DecidableEq

/-- The bytes written, the outcome, and what the later calls of `send` do. -/
structure Sent where
  written : List U8
  status : Status
  script : List Send

/-- `xnx_send_all`, given what the calls of `send` do. -/
def xnxSendAll (buffer : List U8) : List Send → Sent
  | [] => ⟨[], if buffer = [] then .ok else .pending, []⟩
  | call :: script =>
    if buffer = [] then ⟨[], .ok, call :: script⟩ else
    match call with
    | .sent n =>
      -- nothing taken is `EPIPE`
      if n = 0 then ⟨[], .error, script⟩ else
      let rest := xnxSendAll (buffer.drop n) script
      ⟨buffer.take n ++ rest.written, rest.status, rest.script⟩
    | .eintr => xnxSendAll buffer script
    | .eagain waited => if waited then xnxSendAll buffer script else ⟨[], .error, script⟩
    | .failed => ⟨[], .error, script⟩

/-- `xnx_send_message`. -/
def xnxSendMessage (m : Message) (script : List Send) : Sent :=
  if xnxMaxMessageBytes < m.payload.length then ⟨[], .error, script⟩ else
  let hdr := xnxSendAll (encodeHeader m) script
  if hdr.status ≠ .ok then hdr else
  let body := xnxSendAll m.payload hdr.script
  ⟨hdr.written ++ body.written, body.status, body.script⟩

/-- A client that sends messages one after the other until a call fails. -/
def sendMessages : List Message → List Send → Sent
  | [], script => ⟨[], .ok, script⟩
  | m :: msgs, script =>
    let first := xnxSendMessage m script
    if first.status ≠ .ok then first else
    let rest := sendMessages msgs first.script
    ⟨first.written ++ rest.written, rest.status, rest.script⟩

lemma xnxSendAll_written {buffer : List U8} {script : List Send}
    (h : (xnxSendAll buffer script).status = .ok) :
    (xnxSendAll buffer script).written = buffer := by
  induction script generalizing buffer with
  | nil =>
    rw [xnxSendAll] at h ⊢
    split_ifs at h with hempty
    exact hempty.symm
  | cons call script ih =>
    by_cases hempty : buffer = []
    · rw [hempty]
      cases call <;> rfl
    cases call with
    | sent n =>
      simp only [xnxSendAll, if_neg hempty] at h ⊢
      split_ifs at h ⊢
      rw [ih h, take_append_drop]
    | eintr =>
      simp only [xnxSendAll, if_neg hempty] at h ⊢
      exact ih h
    | eagain waited =>
      simp only [xnxSendAll, if_neg hempty] at h ⊢
      split_ifs at h ⊢
      exact ih h
    | failed =>
      simp only [xnxSendAll, if_neg hempty] at h
      cases h

lemma xnxSendMessage_written {m : Message} {script : List Send}
    (h : (xnxSendMessage m script).status = .ok) :
    (xnxSendMessage m script).written = encode m := by
  rw [xnxSendMessage] at h ⊢
  by_cases hbig : xnxMaxMessageBytes < m.payload.length
  · rw [if_pos hbig] at h
    cases h
  rw [if_neg hbig] at h ⊢
  by_cases hhdr : (xnxSendAll (encodeHeader m) script).status = .ok
  · simp only [hhdr, ne_eq, not_true_eq_false, if_false] at h ⊢
    rw [xnxSendAll_written hhdr, xnxSendAll_written h, encode]
  · simp only [hhdr, ne_eq, not_false_eq_true, if_true] at h

/-- **The sender.**  When all calls report success, the messages have been written. -/
theorem sendMessages_written {msgs : List Message} {script : List Send}
    (h : (sendMessages msgs script).status = .ok) :
    (sendMessages msgs script).written = encodeAll msgs := by
  induction msgs generalizing script with
  | nil => rfl
  | cons m msgs ih =>
    rw [sendMessages] at h ⊢
    by_cases hfirst : (xnxSendMessage m script).status = .ok
    · simp only [hfirst, ne_eq, not_true_eq_false, if_false] at h ⊢
      rw [xnxSendMessage_written hfirst, ih h, encodeAll, encodeAll, flatMap_cons]
    · simp only [hfirst, ne_eq, not_false_eq_true, if_true] at h

end OpenHobbyOS.Xnx
