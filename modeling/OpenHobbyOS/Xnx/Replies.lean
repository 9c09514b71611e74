/-
# Requests and replies

A client of `user/lib/xnx/xnx.c` sends a request and waits for the reply; key events may stand
before it.  `xnx_commit` puts them into a ring of 16 slots, from which `xnx_poll_event` takes them;
the other two calls take the next message for the reply.  A session runs such calls against the
messages of a server; what the compositor sends to a client is such a session (`clients_served`).
-/
import OpenHobbyOS.Lib.Ring
import OpenHobbyOS.Xnx.Dispatch

namespace OpenHobbyOS.Xnx

open Lib Option List Nat

variable {keys ks unread : List KeyEvent} {a : Answered} {s s' : Session}

/-! ## The client -/

/-- `struct xnx_event` of type `XNX_EVENT_KEY`. -/
structure XnxEvent where
  surfaceId : U32
  keycode : U32
  pressed : U8
  deriving DecidableEq

/-- The number of slots of `events`. -/
def eventSlots : ℕ := 16

/-- The bytes that are not read yet, and the ring of events: `event_tail` is its read position. -/
structure Conn where
  wire : List U8
  events : RingBuffer XnxEvent

/-- How a call ends: it returns, it returns -1, or it waits for bytes that have not arrived. -/
inductive Outcome (α : Type) where
  | ok (a : α)
  | error
  | waits

/-- `xnx_recv_message`: the next message, if its payload fits. -/
def xnxRecvMessage (c : Conn) (capacity : ℕ) : Conn × Outcome Message :=
  if c.wire.length < headerBytes then (c, .waits) else
  let type := BitVec.ofNat 32 (le32 (c.wire.getD · 0) 0)
  let size := le32 (c.wire.getD · 0) 4
  let c := { c with wire := c.wire.drop headerBytes }
  if capacity < size then (c, .error) else
  if c.wire.length < size then (c, .waits) else
  ({ c with wire := c.wire.drop size }, .ok ⟨type, c.wire.take size⟩)

/-- `xnx_queue_event`; `none` when the ring is full. -/
def xnxQueueEvent (c : Conn) (event : XnxEvent) : Option Conn :=
  if (c.events.tail + 1) % eventSlots = c.events.head then none
  else some { c with events := RingBuffer.push eventSlots c.events [event] }

/-- `xnx_dequeue_event`. -/
def xnxDequeueEvent (c : Conn) : Conn × Option XnxEvent :=
  if c.events.tail = c.events.head then (c, none)
  else ({ c with events := RingBuffer.pop eventSlots c.events 1 },
    some (c.events.buf c.events.head))

/-- `xnx_handle_async_message`; `none` is -1. -/
def xnxHandleAsyncMessage (c : Conn) (m : Message) : Option Conn :=
  if m.type = xnxKeyEvent then
    if m.payload.length ≠ 12 then none
    else xnxQueueEvent c ⟨BitVec.ofNat 32 (le32 (m.payload.getD · 0) 0),
      BitVec.ofNat 32 (le32 (m.payload.getD · 0) 4), m.payload.getD 8 0⟩
  else if m.type = xnxFrameDone ∧ m.payload.length = 0 then some c
  else none

/-- `xnx_get_display_info` after the request has been sent. -/
def xnxGetDisplayInfo (c : Conn) : Conn × Outcome (U32 × U32) :=
  match xnxRecvMessage c 8 with
  | (c, .ok m) =>
    if m.type ≠ xnxDisplayInfo ∨ m.payload.length ≠ 8 then (c, .error)
    else (c, .ok (BitVec.ofNat 32 (le32 (m.payload.getD · 0) 0),
      BitVec.ofNat 32 (le32 (m.payload.getD · 0) 4)))
  | (c, .error) => (c, .error)
  | (c, .waits) => (c, .waits)

/-- `xnx_create_surface` after the request has been sent. -/
def xnxCreateSurface (c : Conn) : Conn × Outcome U32 :=
  match xnxRecvMessage c 4 with
  | (c, .ok m) =>
    if m.type ≠ xnxSurfaceCreated ∨ m.payload.length ≠ 4 then (c, .error)
    else (c, .ok (BitVec.ofNat 32 (le32 (m.payload.getD · 0) 0)))
  | (c, .error) => (c, .error)
  | (c, .waits) => (c, .waits)

/-- The loop of `xnx_commit` behind the request; there are fewer rounds than bytes on the wire. -/
def commitLoop : ℕ → Conn → Conn × Outcome Unit
  | 0, c => (c, .waits)
  | n + 1, c =>
    match xnxRecvMessage c xnxMaxMessageBytes with
    | (c, .ok m) =>
      if m.type = xnxFrameDone ∧ m.payload.length = 0 then (c, .ok ())
      else match xnxHandleAsyncMessage c m with
        | none => (c, .error)
        | some c => commitLoop n c
    | (c, .error) => (c, .error)
    | (c, .waits) => (c, .waits)

/-- `xnx_commit`. -/
def xnxCommit (c : Conn) : Conn × Outcome Unit := commitLoop (c.wire.length + 1) c

/-- `xnx_poll_event`: an event, or none.  `poll` says whether bytes have arrived. -/
def xnxPollEvent (c : Conn) : Conn × Outcome (Option XnxEvent) :=
  match xnxDequeueEvent c with
  | (c, some event) => (c, .ok (some event))
  | (c, none) =>
    if c.wire = [] then (c, .ok none) else
    match xnxRecvMessage c xnxMaxMessageBytes with
    | (c, .ok m) =>
      match xnxHandleAsyncMessage c m with
      | none => (c, .error)
      | some c => ((xnxDequeueEvent c).1, .ok (xnxDequeueEvent c).2)
    | (c, .error) => (c, .error)
    | (c, .waits) => (c, .waits)

/-! ## Sessions -/

/-- A request that the server answers, with the data of the reply. -/
inductive Answered where
  | displayInfo (width height : U32)
  | createSurface (id : U32)
  | commit
  deriving DecidableEq

/-- The reply to a request. -/
def Answered.reply : Answered → Message
  | .displayInfo width height => Xnx.displayInfo width height
  | .createSurface id => surfaceCreated id
  | .commit => frameDone

/-- A key event of the server; a request, with key events before the reply; a message without a
reply; a call of `xnx_poll_event`. -/
inductive SessionStep where
  | key (k : KeyEvent)
  | call (keys : List KeyEvent) (a : Answered)
  | send
  | poll

/-- The connection, the keys sent, the events given to the client, and whether a call has failed. -/
structure Session where
  conn : Conn
  sent : List KeyEvent
  polled : List XnxEvent
  failed : Bool

/-- The call, and whether it has returned what the reply says. -/
def Answered.run (a : Answered) (c : Conn) : Conn × Bool :=
  match a with
  | .displayInfo width height =>
    match xnxGetDisplayInfo c with
    | (c, .ok info) => (c, info = (width, height))
    | (c, .error) => (c, false)
    | (c, .waits) => (c, false)
  | .createSurface id =>
    match xnxCreateSurface c with
    | (c, .ok created) => (c, created = id)
    | (c, .error) => (c, false)
    | (c, .waits) => (c, false)
  | .commit =>
    match xnxCommit c with
    | (c, .ok ()) => (c, true)
    | (c, .error) => (c, false)
    | (c, .waits) => (c, false)

/-- The bytes of some key events. -/
def keyBytes (keys : List KeyEvent) : List U8 := encodeAll (keys.map keyMessage)

/-- A step of a session. -/
def sessionStep (s : Session) : SessionStep → Option Session
  | .key k =>
    some ⟨⟨s.conn.wire ++ keyBytes [k], s.conn.events⟩, s.sent ++ [k], s.polled, s.failed⟩
  | .call keys a =>
    let result := a.run ⟨s.conn.wire ++ keyBytes keys ++ encode a.reply, s.conn.events⟩
    some ⟨result.1, s.sent ++ keys, s.polled, s.failed || !result.2⟩
  | .send => some s
  | .poll =>
    match xnxPollEvent s.conn with
    | (c, .ok (some event)) => some { s with conn := c, polled := s.polled ++ [event] }
    | (c, .ok none) => some { s with conn := c }
    | (c, .error) => some { s with conn := c, failed := true }
    | (c, .waits) => some { s with conn := c, failed := true }

/-- The event that a key becomes. -/
def KeyEvent.event (k : KeyEvent) : XnxEvent := ⟨k.surfaceId, k.keycode, 1⟩

/-- The events in the ring. -/
def Conn.queued (c : Conn) : List XnxEvent := RingBuffer.contents eventSlots c.events

/-- The next event that `xnx_poll_event` gives. -/
def Conn.next (c : Conn) : Option XnxEvent :=
  match (xnxPollEvent c).2 with
  | .ok event => event
  | .error => none
  | .waits => none

/-- Every call has returned the data of its reply, only key events are unread, the keys sent are
those given to the client, in the ring and unread, in this order, and `xnx_poll_event` gives the
first that is left. -/
def Paired (s : Session) : Prop :=
  s.failed = false ∧ ∃ unread : List KeyEvent, s.conn.wire = keyBytes unread ∧
    s.polled ++ s.conn.queued ++ unread.map KeyEvent.event = s.sent.map KeyEvent.event ∧
    s.conn.next = (s.conn.queued ++ unread.map KeyEvent.event).head?

/-! ## One message -/

variable {c : Conn} {m : Message} {rest : List U8}

lemma header_of_wire (hm : m.Fits) (rest : List U8) :
    BitVec.ofNat 32 (le32 ((encode m ++ rest).getD · 0) 0) = m.type ∧
      le32 ((encode m ++ rest).getD · 0) 4 = m.payload.length := by
  have hm : m.payload.length ≤ 65536 := hm
  have hheld : Holds ((encode m ++ rest).getD · 0) 0 (encodeHeader m) := by
    rw [encode, append_assoc]
    exact holds_getD _ _ _
  rw [encodeHeader, holds_append] at hheld
  refine ⟨?_, le32_of_holds (by omega) hheld.2⟩
  rw [le32_of_holds m.type.isLt hheld.1, BitVec.ofNat_toNat, BitVec.setWidth_eq]

/-- The message at the front of the wire is taken if it fits, and otherwise only its header is. -/
lemma xnxRecvMessage_eq (hm : m.Fits) (hwire : c.wire = encode m ++ rest) (capacity : ℕ) :
    xnxRecvMessage c capacity =
      if capacity < m.payload.length then ({ c with wire := m.payload ++ rest }, .error)
      else ({ c with wire := rest }, .ok m) := by
  obtain ⟨htype, hsize⟩ := header_of_wire hm rest
  have hlong : ¬c.wire.length < headerBytes := by
    rw [hwire, encode, length_append, length_append, length_encodeHeader]
    omega
  have hdrop : c.wire.drop headerBytes = m.payload ++ rest := by
    rw [hwire, encode, append_assoc, ← length_encodeHeader m, drop_left]
  have hbody : ¬(m.payload ++ rest).length < m.payload.length := by
    rw [length_append]
    omega
  rw [xnxRecvMessage, if_neg hlong]
  dsimp only
  rw [hdrop, hwire, htype, hsize, if_neg hbody, drop_left, take_left]

/-! ## The ring of events -/

lemma handleAsync_key (c : Conn) (k : KeyEvent) :
    xnxHandleAsyncMessage c (keyMessage k) = xnxQueueEvent c k.event := by
  have hheld : Holds ((keyMessage k).payload.getD · 0) 0
      (le32Bytes k.surfaceId.toNat ++ le32Bytes k.keycode.toNat) := holds_getD _ _ _
  rw [holds_append] at hheld
  have hid : le32 ((keyMessage k).payload.getD · 0) 0 = k.surfaceId.toNat :=
    le32_of_holds k.surfaceId.isLt hheld.1
  have hcode : le32 ((keyMessage k).payload.getD · 0) 4 = k.keycode.toNat :=
    le32_of_holds k.keycode.isLt hheld.2
  have htype : (keyMessage k).type = xnxKeyEvent := rfl
  have hlen : ¬(keyMessage k).payload.length ≠ 12 := not_not.mpr rfl
  rw [xnxHandleAsyncMessage, if_pos htype, if_neg hlen, hid, hcode]
  simp only [BitVec.ofNat_toNat, BitVec.setWidth_eq]
  rfl

lemma queued_le (hb : c.events.InBounds eventSlots) : c.queued.length ≤ 15 := by
  have hlt := RingBuffer.used_lt hb
  rw [Conn.queued, RingBuffer.length_contents]
  rw [eventSlots] at hlt ⊢
  omega

lemma handle_key (hb : c.events.InBounds eventSlots) (k : KeyEvent) :
    (15 ≤ c.queued.length ∧ xnxHandleAsyncMessage c (keyMessage k) = none) ∨
      ∃ c', xnxHandleAsyncMessage c (keyMessage k) = some c' ∧ c'.wire = c.wire ∧
        c'.events.InBounds eventSlots ∧ c'.queued = c.queued ++ [k.event] := by
  have hsum := RingBuffer.used_add_available hb
  have htail := hb.tail_lt
  rw [handleAsync_key, xnxQueueEvent]
  by_cases hfull : (c.events.tail + 1) % eventSlots = c.events.head
  · refine .inl ⟨?_, if_pos hfull⟩
    rw [RingBuffer.succ_tail_eq_head_iff hb] at hfull
    rw [Conn.queued, RingBuffer.length_contents]
    rw [eventSlots] at hsum hfull
    rw [eventSlots]
    omega
  · rw [if_neg hfull]
    rw [RingBuffer.succ_tail_eq_head_iff hb] at hfull
    exact .inr ⟨_, rfl, rfl, RingBuffer.push_inBounds hb _,
      RingBuffer.contents_push hb htail (pos_of_ne_zero hfull)⟩

lemma dequeue_eq (hb : c.events.InBounds eventSlots) :
    ∃ c', xnxDequeueEvent c = (c', c.queued.head?) ∧ c'.wire = c.wire ∧
      c'.events.InBounds eventSlots ∧ c'.queued = c.queued.tail := by
  rw [xnxDequeueEvent]
  by_cases hempty : c.events.tail = c.events.head
  · have hnil : c.queued = [] := by
      rw [← length_eq_zero_iff, Conn.queued, RingBuffer.length_contents]
      exact (RingBuffer.head_eq_tail_iff hb).mp hempty.symm
    rw [if_pos hempty, hnil]
    exact ⟨c, rfl, rfl, hb, hnil⟩
  · have hused : 1 ≤ RingBuffer.used eventSlots c.events := pos_of_ne_zero fun h =>
      hempty ((RingBuffer.head_eq_tail_iff hb).mpr h).symm
    have hsplit : c.queued = c.events.buf c.events.head ::
        RingBuffer.contents eventSlots (RingBuffer.pop eventSlots c.events 1) :=
      RingBuffer.contents_pop hb hb.head_lt hused
    rw [if_neg hempty, hsplit]
    exact ⟨_, rfl, rfl, RingBuffer.pop_inBounds hb 1, rfl⟩

/-! ## The calls -/

lemma keyBytes_cons (k : KeyEvent) (ks : List KeyEvent) :
    keyBytes (k :: ks) = encode (keyMessage k) ++ keyBytes ks := by
  rw [keyBytes, map_cons, encodeAll, flatMap_cons]
  rfl

lemma keyBytes_append (ks ks' : List KeyEvent) :
    keyBytes (ks ++ ks') = keyBytes ks ++ keyBytes ks' := by
  rw [keyBytes, map_append, encodeAll, flatMap_append]
  rfl

lemma length_keyBytes (ks : List KeyEvent) : (keyBytes ks).length = 20 * ks.length := by
  induction ks with
  | nil => rfl
  | cons k ks ih =>
    rw [keyBytes_cons, length_append, ih, length_cons]
    show 20 + _ = _
    omega

lemma keyMessage_fits (k : KeyEvent) : (keyMessage k).Fits :=
  show 12 ≤ 65536 by decide

/-- `xnx_commit` puts all key events before the reply into the ring, or fails when it has no
room. -/
lemma commitLoop_eq {n : ℕ} (hb : c.events.InBounds eventSlots)
    (hwire : c.wire = keyBytes ks ++ encode frameDone) (hn : ks.length < n) :
    (15 < c.queued.length + ks.length ∧ ∃ c', commitLoop n c = (c', .error)) ∨
      c.queued.length + ks.length ≤ 15 ∧ ∃ c', commitLoop n c = (c', .ok ()) ∧ c'.wire = [] ∧
        c'.events.InBounds eventSlots ∧ c'.queued = c.queued ++ ks.map KeyEvent.event := by
  induction n generalizing c ks with
  | zero => exact absurd hn (not_lt_zero _)
  | succ n ih =>
    cases ks with
    | nil =>
      have hrecv : xnxRecvMessage c xnxMaxMessageBytes = ({ c with wire := [] }, .ok frameDone) :=
        (xnxRecvMessage_eq (by unfold Message.Fits; decide)
          (show c.wire = encode frameDone ++ [] from hwire) _).trans (if_neg (by decide))
      refine .inr ⟨queued_le hb, { c with wire := [] }, ?_, rfl, hb, ?_⟩
      · rw [commitLoop, hrecv]
        rfl
      · rw [map_nil, append_nil]
        rfl
    | cons k ks =>
      rw [keyBytes_cons, append_assoc] at hwire
      have hrecv := (xnxRecvMessage_eq (keyMessage_fits k) hwire xnxMaxMessageBytes).trans
        (if_neg (not_lt.mpr (keyMessage_fits k)))
      have hnot : ¬((keyMessage k).type = xnxFrameDone ∧ (keyMessage k).payload.length = 0) :=
        fun h => absurd h.1 (by show ¬xnxKeyEvent = xnxFrameDone; decide)
      rcases handle_key (c := { c with wire := keyBytes ks ++ encode frameDone }) hb k with
        ⟨hfull, hnone⟩ | ⟨c', hsome, hwire', hb', hqueued⟩
      · have hfull : 15 ≤ c.queued.length := hfull
        refine .inl ⟨?_, { c with wire := keyBytes ks ++ encode frameDone }, ?_⟩
        · rw [length_cons]
          omega
        · rw [commitLoop, hrecv]
          dsimp only
          rw [if_neg hnot, hnone]
      · have hround : commitLoop (n + 1) c = commitLoop n c' := by
          rw [commitLoop, hrecv]
          dsimp only
          rw [if_neg hnot, hsome]
        have hqueued : c'.queued = c.queued ++ [k.event] := hqueued
        have hlen : c'.queued.length = c.queued.length + 1 := by
          rw [hqueued, length_append]
          rfl
        rw [length_cons] at hn
        rw [hround, length_cons]
        rcases ih hb' hwire' (by omega) with ⟨hmany, herror⟩ | ⟨hfew, c'', hok, hnil, hb'', heq⟩
        · exact .inl ⟨by omega, herror⟩
        · refine .inr ⟨by omega, c'', hok, hnil, hb'', ?_⟩
          rw [heq, hqueued, map_cons, append_assoc]
          rfl

lemma xnxGetDisplayInfo_ok {width height : U32} (hwire : c.wire = encode (displayInfo width height)) :
    xnxGetDisplayInfo c = ({ c with wire := [] }, .ok (width, height)) := by
  have hfits : (displayInfo width height).Fits := show 8 ≤ 65536 by decide
  have hrecv := (xnxRecvMessage_eq hfits
    (hwire.trans (append_nil _).symm) 8).trans (if_neg (show ¬8 < 8 by decide))
  have hheld : Holds ((displayInfo width height).payload.getD · 0) 0
      (le32Bytes width.toNat ++ le32Bytes height.toNat) := by
    have hlist := holds_getD (le32Bytes width.toNat ++ le32Bytes height.toNat) [] (0 : U8)
    rwa [append_nil] at hlist
  rw [holds_append] at hheld
  have hw : le32 ((displayInfo width height).payload.getD · 0) 0 = width.toNat :=
    le32_of_holds width.isLt hheld.1
  have hh : le32 ((displayInfo width height).payload.getD · 0) 4 = height.toNat :=
    le32_of_holds height.isLt hheld.2
  have hreply : ¬((displayInfo width height).type ≠ xnxDisplayInfo ∨
      (displayInfo width height).payload.length ≠ 8) := by
    rw [not_or, not_not, not_not]
    exact ⟨rfl, rfl⟩
  rw [xnxGetDisplayInfo, hrecv]
  dsimp only
  rw [if_neg hreply, hw, hh]
  simp only [BitVec.ofNat_toNat, BitVec.setWidth_eq]

lemma xnxCreateSurface_ok {id : U32} (hwire : c.wire = encode (surfaceCreated id)) :
    xnxCreateSurface c = ({ c with wire := [] }, .ok id) := by
  have hfits : (surfaceCreated id).Fits := show 4 ≤ 65536 by decide
  have hrecv := (xnxRecvMessage_eq hfits
    (hwire.trans (append_nil _).symm) 4).trans (if_neg (show ¬4 < 4 by decide))
  have hid : le32 ((surfaceCreated id).payload.getD · 0) 0 = id.toNat := by
    have hlist := holds_getD (le32Bytes id.toNat) [] (0 : U8)
    rw [append_nil] at hlist
    exact le32_of_holds id.isLt hlist
  have hreply : ¬((surfaceCreated id).type ≠ xnxSurfaceCreated ∨
      (surfaceCreated id).payload.length ≠ 4) := by
    rw [not_or, not_not, not_not]
    exact ⟨rfl, rfl⟩
  rw [xnxCreateSurface, hrecv]
  dsimp only
  rw [if_neg hreply, hid]
  simp only [BitVec.ofNat_toNat, BitVec.setWidth_eq]

lemma run_first (ha : a ≠ .commit) (hwire : c.wire = encode a.reply) :
    a.run c = ({ c with wire := [] }, true) := by
  cases a with
  | displayInfo width height => simp [Answered.run, xnxGetDisplayInfo_ok hwire]
  | createSurface id => simp [Answered.run, xnxCreateSurface_ok hwire]
  | commit => exact absurd rfl ha

lemma run_key_first (ha : a ≠ .commit) {k : KeyEvent}
    (hwire : c.wire = encode (keyMessage k) ++ rest) : (a.run c).2 = false := by
  have hrecv : ∀ capacity < 12, xnxRecvMessage c capacity =
      ({ c with wire := (keyMessage k).payload ++ rest }, .error) := fun capacity hcap =>
    (xnxRecvMessage_eq (keyMessage_fits k) hwire capacity).trans (if_pos hcap)
  cases a with
  | displayInfo width height =>
    simp [Answered.run, xnxGetDisplayInfo, hrecv 8 (by decide)]
  | createSurface id => simp [Answered.run, xnxCreateSurface, hrecv 4 (by decide)]
  | commit => exact absurd rfl ha

/-- The reply can be reached behind the key events `ks`. -/
def Answered.InReach (a : Answered) (c : Conn) (ks : List KeyEvent) : Prop :=
  match a with
  | .commit => c.queued.length + ks.length ≤ 15
  | _ => ks = []

lemma run_call (hb : c.events.InBounds eventSlots)
    (hwire : c.wire = keyBytes ks ++ encode a.reply) :
    (¬a.InReach c ks ∧ (a.run c).2 = false) ∨
      a.InReach c ks ∧ ∃ c', a.run c = (c', true) ∧ c'.wire = [] ∧
        c'.events.InBounds eventSlots ∧ c'.queued = c.queued ++ ks.map KeyEvent.event := by
  by_cases ha : a = .commit
  · subst ha
    have hfuel : ks.length < c.wire.length + 1 := by
      rw [hwire, length_append, length_keyBytes]
      omega
    rcases commitLoop_eq hb hwire hfuel with ⟨hmany, c', hloop⟩ | ⟨hfew, c', hloop, hc'⟩
    · refine .inl ⟨not_le.mpr hmany, ?_⟩
      rw [Answered.run, xnxCommit, hloop]
    · refine .inr ⟨hfew, c', ?_, hc'⟩
      rw [Answered.run, xnxCommit, hloop]
  · have hreach : a.InReach c ks ↔ ks = [] := by
      cases a with
      | commit => exact absurd rfl ha
      | _ => exact Iff.rfl
    rw [hreach]
    cases ks with
    | nil =>
      refine .inr ⟨rfl, _, run_first ha hwire, rfl, hb, ?_⟩
      rw [map_nil, append_nil]
      rfl
    | cons k ks =>
      rw [keyBytes_cons, append_assoc] at hwire
      exact .inl ⟨cons_ne_nil k ks, run_key_first ha hwire⟩

lemma poll_eq (hb : c.events.InBounds eventSlots) (hwire : c.wire = keyBytes unread) :
    ∃ c' unread', xnxPollEvent c =
        (c', .ok (c.queued ++ unread.map KeyEvent.event).head?) ∧
      c'.events.InBounds eventSlots ∧ c'.wire = keyBytes unread' ∧
      c'.queued ++ unread'.map KeyEvent.event =
        (c.queued ++ unread.map KeyEvent.event).tail := by
  obtain ⟨c₁, hdequeue, hwire₁, hb₁, hqueued₁⟩ := dequeue_eq hb
  cases hq : c.queued with
  | cons e q =>
    rw [hq] at hdequeue hqueued₁
    refine ⟨c₁, unread, ?_, hb₁, hwire₁.trans hwire, ?_⟩
    · rw [xnxPollEvent, hdequeue]
      rfl
    · rw [hqueued₁]
      rfl
  | nil =>
    rw [hq] at hdequeue hqueued₁
    cases unread with
    | nil =>
      have hempty : c₁.wire = [] := hwire₁.trans hwire
      refine ⟨c₁, [], ?_, hb₁, hempty, by rw [hqueued₁]; rfl⟩
      rw [xnxPollEvent, hdequeue]
      dsimp only [head?_nil]
      rw [if_pos hempty]
      rfl
    | cons k ks =>
      have hwire₁ : c₁.wire = encode (keyMessage k) ++ keyBytes ks :=
        (hwire₁.trans hwire).trans (keyBytes_cons k ks)
      have hne : c₁.wire ≠ [] := by
        rw [hwire₁, encode]
        exact append_ne_nil_of_left_ne_nil (append_ne_nil_of_left_ne_nil (by
          rw [← length_pos_iff, length_encodeHeader]; decide) _) _
      have hrecv := (xnxRecvMessage_eq (keyMessage_fits k) hwire₁ xnxMaxMessageBytes).trans
        (if_neg (not_lt.mpr (keyMessage_fits k)))
      have hqueued₁ : c₁.queued = [] := hqueued₁
      rcases handle_key (c := { c₁ with wire := keyBytes ks }) hb₁ k with
        ⟨hfull, -⟩ | ⟨c₂, hsome, hwire₂, hb₂, hqueued₂⟩
      · -- the ring was empty
        have hfull : 15 ≤ c₁.queued.length := hfull
        rw [hqueued₁] at hfull
        exact absurd hfull (by decide)
      · have hqueued₂ : c₂.queued = [k.event] := hqueued₂.trans (by
          show c₁.queued ++ _ = _
          rw [hqueued₁]
          rfl)
        obtain ⟨c₃, hdequeue₃, hwire₃, hb₃, hqueued₃⟩ := dequeue_eq hb₂
        rw [hqueued₂] at hdequeue₃ hqueued₃
        refine ⟨c₃, ks, ?_, hb₃, hwire₃.trans hwire₂, ?_⟩
        · rw [xnxPollEvent, hdequeue]
          dsimp only [head?_nil]
          rw [if_neg hne, hrecv]
          dsimp only
          rw [hsome]
          dsimp only
          rw [hdequeue₃]
          rfl
        · rw [hqueued₃]
          rfl

/-! ## The session -/

/-- A session in which all is well, and the ring is in order. -/
structure Orderly (s : Session) : Prop where
  failed : s.failed = false
  inBounds : s.conn.events.InBounds eventSlots
  keys : ∃ unread : List KeyEvent, s.conn.wire = keyBytes unread ∧
    s.polled ++ s.conn.queued ++ unread.map KeyEvent.event = s.sent.map KeyEvent.event

lemma Orderly.paired (h : Orderly s) : Paired s := by
  obtain ⟨unread, hwire, hkeys⟩ := h.keys
  obtain ⟨c', unread', hpoll, -⟩ := poll_eq h.inBounds hwire
  refine ⟨h.failed, unread, hwire, hkeys, ?_⟩
  rw [Conn.next, hpoll]

/-- Where the next message must be the reply, no key event is on its way; elsewhere the ring has
room for all that are.  A key event takes 20 bytes. -/
def ReplyInReach (s : Session) : SessionStep → Prop
  | .call keys .commit => s.conn.queued.length + s.conn.wire.length / 20 + keys.length ≤ 15
  | .call keys _ => s.conn.wire = [] ∧ keys = []
  | _ => True

lemma replyInReach_iff (a : Answered) (hwire : s.conn.wire = keyBytes unread) (wire : List U8) :
    ReplyInReach s (.call keys a) ↔ a.InReach ⟨wire, s.conn.events⟩ (unread ++ keys) := by
  have hlen := length_keyBytes unread
  have hnil : s.conn.wire = [] ∧ keys = [] ↔ unread ++ keys = [] := by
    have hzero : 20 * unread.length = 0 ↔ unread.length = 0 := by omega
    rw [append_eq_nil_iff, hwire, ← length_eq_zero_iff, hlen, hzero,
      length_eq_zero_iff]
  cases a with
  | displayInfo width height => exact hnil
  | createSurface id => exact hnil
  | commit =>
    show s.conn.queued.length + s.conn.wire.length / 20 + keys.length ≤ 15 ↔
      s.conn.queued.length + (unread ++ keys).length ≤ 15
    rw [hwire, hlen, length_append]
    omega

/-- What a call does in an orderly session: it succeeds if the reply is in reach, and fails
otherwise. -/
lemma Orderly.call (h : Orderly s) (hstep : sessionStep s (.call keys a) = some s') :
    (¬ReplyInReach s (.call keys a) ∧ s'.failed = true) ∨
      (ReplyInReach s (.call keys a) ∧ Orderly s') := by
  obtain ⟨unread, hwire, hkeys⟩ := h.keys
  rw [sessionStep, some.injEq] at hstep
  rw [replyInReach_iff a hwire (s.conn.wire ++ keyBytes keys ++ encode a.reply), ← hstep]
  have hall : s.conn.wire ++ keyBytes keys ++ encode a.reply =
      keyBytes (unread ++ keys) ++ encode a.reply := by rw [hwire, keyBytes_append]
  rcases run_call (c := ⟨s.conn.wire ++ keyBytes keys ++ encode a.reply, s.conn.events⟩)
    h.inBounds hall with ⟨hnot, hfalse⟩ | ⟨hreach, c', hrun, hwire', hb', hqueued⟩
  · exact .inl ⟨hnot, by rw [hfalse]; exact Bool.or_true _⟩
  · refine .inr ⟨hreach, ?_⟩
    rw [hrun]
    refine ⟨by rw [h.failed]; rfl, hb', [], hwire', ?_⟩
    have hqueued : c'.queued = s.conn.queued ++ (unread ++ keys).map KeyEvent.event := hqueued
    show s.polled ++ c'.queued ++ [] = (s.sent ++ keys).map KeyEvent.event
    rw [append_nil, hqueued, map_append, map_append, ← hkeys, append_assoc,
      append_assoc]

lemma Orderly.poll (h : Orderly s) (hstep : sessionStep s .poll = some s') :
    Orderly s' := by
  obtain ⟨unread, hwire, hkeys⟩ := h.keys
  obtain ⟨c', unread', hpoll, hb', hwire', hrest⟩ := poll_eq h.inBounds hwire
  rw [sessionStep, hpoll] at hstep
  rw [append_assoc] at hkeys
  cases hq : s.conn.queued ++ unread.map KeyEvent.event with
  | nil =>
    rw [hq] at hstep hkeys hrest
    simp only [head?_nil, some.injEq] at hstep
    rw [← hstep]
    refine ⟨h.failed, hb', unread', hwire', ?_⟩
    rw [append_assoc, hrest]
    exact hkeys
  | cons e q =>
    rw [hq] at hstep hkeys hrest
    simp only [head?_cons, some.injEq] at hstep
    rw [← hstep]
    refine ⟨h.failed, hb', unread', hwire', ?_⟩
    rw [append_assoc, hrest, ← hkeys]
    simp

lemma Orderly.step {i : SessionStep} (h : Orderly s) (hc : ReplyInReach s i)
    (hstep : sessionStep s i = some s') : Orderly s' := by
  cases i with
  | key k =>
    obtain ⟨unread, hwire, hkeys⟩ := h.keys
    rw [sessionStep, some.injEq] at hstep
    rw [← hstep]
    refine ⟨h.failed, h.inBounds, unread ++ [k], ?_, ?_⟩
    · show s.conn.wire ++ keyBytes [k] = _
      rw [hwire, keyBytes_append]
    · show s.polled ++ s.conn.queued ++ _ = (s.sent ++ [k]).map _
      rw [map_append, map_append, ← hkeys, append_assoc, append_assoc,
        append_assoc]
  | call keys a =>
    rcases h.call hstep with ⟨hnot, -⟩ | ⟨-, horderly⟩
    · exact absurd hc hnot
    · exact horderly
  | send =>
    rw [sessionStep, some.injEq] at hstep
    exact hstep ▸ h
  | poll => exact h.poll hstep

/-- A client that has just connected. -/
def sessionStart (events : ℕ → XnxEvent) : Session := ⟨⟨[], ⟨events, 0, 0⟩⟩, [], [], false⟩

/-- **Requests and replies.**  Every call returns the data of its own reply, and no key event is
lost, doubled or reordered, exactly as long as every call has its reply in reach. -/
theorem replies_paired_iff (events : ℕ → XnxEvent) (steps : List SessionStep) :
    (∀ steps₁, steps₁ <+: steps → ∀ s, run sessionStep (sessionStart events) steps₁ = some s →
      Paired s) ↔
    StepsMeet sessionStep ReplyInReach (sessionStart events) steps := by
  have hstart : Orderly (sessionStart events) :=
    ⟨rfl, ⟨zero_lt_succ 15, zero_lt_succ 15⟩, [], rfl, rfl⟩
  refine forall_prefix_iff_stepsMeet (P := Orderly) (fun h hc hstep => h.step hc hstep)
    (fun h => h.paired) (fun {s i} h hq => ?_) hstart
  cases i with
  | key k => trivial
  | call keys a =>
    obtain ⟨s', hs'⟩ : ∃ s', sessionStep s (.call keys a) = some s' := ⟨_, rfl⟩
    rcases h.call hs' with ⟨-, hfailed⟩ | ⟨hreach, -⟩
    · rw [(hq s' hs').1] at hfailed
      exact absurd hfailed (by decide)
    · exact hreach
  | send => trivial
  | poll => trivial

/-- A key is typed before the client asks for the size of the display: the call fails, and the wire
is left in the middle of the key event. -/
theorem key_before_reply :
    ∃ s, run sessionStep (sessionStart fun _ => ⟨0, 0, 0⟩)
        [.call [] (.createSurface 1), .key ⟨1, 97⟩, .call [] (.displayInfo 640 480)] = some s ∧
      s.failed = true ∧
      s.conn.wire = (keyMessage ⟨1, 97⟩).payload ++ encode (displayInfo 640 480) ∧ ¬Paired s := by
  refine ⟨_, rfl, by decide, by decide, fun h => ?_⟩
  exact absurd h.1 (by decide)

/-! ## The server -/

/-- The request that a reply answers. -/
def Answered.request : Answered → Request
  | .displayInfo _ _ => .getDisplayInfo
  | .createSurface _ => .createSurface
  | .commit => .commit

/-- The messages of the server in a step of a session. -/
def SessionStep.messages : SessionStep → List Message
  | .key k => [keyMessage k]
  | .call keys a => keys.map keyMessage ++ [a.reply]
  | .send => []
  | .poll => []

/-- The request of a step that is answered. -/
def SessionStep.request : SessionStep → Option Request
  | .call _ a => some a.request
  | _ => none

/-- The call of `handle_client_message` in a read, if there is one. -/
def handling (s : Compositor) (idx : ℕ) (recv : Recv) (out : Outside) :
    Option (ℤ × Option Request × Handled) :=
  s.clients[idx]?.bind fun client =>
    let result := readClientData client.reader recv
    let client := { client with reader := result.1 }
    if result.2 = .handle then
      some (client.fd, Request.ofType result.1.type,
        (handleClientMessage { s with clients := s.clients.set idx client } idx client
          result.1.type result.1.payloadSize out).run result.1.readBuf)
    else none

/-- What an event makes the compositor send, and to whom. -/
def Event.sent (s : Compositor) : Event → List (ℤ × Message)
  | .accept _ => []
  | .read idx recv out => (handling s idx recv out).elim [] (·.2.2.sent)
  | .key code => (sendKeyToFocus s code).2.toList

/-- The request that is complete with an event, and whose it is. -/
def Event.asked (s : Compositor) : Event → List (ℤ × Request)
  | .read idx recv out => (handling s idx recv out).elim [] fun h => h.2.1.toList.map (h.1, ·)
  | _ => []

/-- The compositor with all that it has been asked and has sent. -/
structure Logged where
  comp : Compositor
  asked : List (ℤ × Request)
  sent : List (ℤ × Message)

/-- One event, logged. -/
def loggedStep (w : Logged) (e : Event) : Option Logged :=
  (compositorStep w.comp e).map fun s =>
    ⟨s, w.asked ++ e.asked w.comp, w.sent ++ e.sent w.comp⟩

/-- What is said on one descriptor. -/
def onFd {α : Type} (fd : ℤ) (l : List (ℤ × α)) : List α :=
  l.filterMap fun p => if p.1 = fd then some p.2 else none

/-- The descriptor is served as by the server of a session: key events for surfaces that it has been
told of, and replies to some of its requests, in their order. -/
def ServedFd (w : Logged) (fd : ℤ) : Prop :=
  ∃ steps : List SessionStep, onFd fd w.sent = steps.flatMap SessionStep.messages ∧
    (steps.filterMap SessionStep.request).Sublist (onFd fd w.asked) ∧
    (∀ keys a, .call keys a ∈ steps → keys = []) ∧
    ∀ before k after, steps = before ++ .key k :: after →
      surfaceCreated k.surfaceId ∈ before.flatMap SessionStep.messages

/-- An event sends the messages of the step `i` on the descriptor, for a request of its client or a
surface that it has. -/
structure Sends (sent : List (ℤ × Message)) (asked : List (ℤ × Request)) (old new : List Surface)
    (fd : ℤ) (i : SessionStep) : Prop where
  sent : sent = i.messages.map (fd, ·)
  asked : (i.request.toList.map (fd, ·)).Sublist asked
  call : ∀ keys a, i = .call keys a → keys = []
  key : ∀ k, i = .key k → ∃ x ∈ old, x.id = k.surfaceId ∧ x.clientFd = fd
  told : ∀ x ∈ new, (∃ y ∈ old, y.id = x.id ∧ y.clientFd = x.clientFd) ∨
    x.clientFd = fd ∧ i = .call [] (.createSurface x.id)

variable {comp comp' : Compositor}

lemma sends_nothing {asked : List (ℤ × Request)} {old new : List Surface} (fd : ℤ)
    (h : ∀ x ∈ new, ∃ y ∈ old, y.id = x.id ∧ y.clientFd = x.clientFd) :
    Sends [] asked old new fd .send :=
  ⟨rfl, nil_sublist _, by simp, by simp, fun x hx => .inl (h x hx)⟩

lemma sends_reply {fd : ℤ} {old new : List Surface} (a : Answered)
    (h : ∀ x ∈ new, (∃ y ∈ old, y.id = x.id ∧ y.clientFd = x.clientFd) ∨
      x.clientFd = fd ∧ a = .createSurface x.id) :
    Sends [(fd, a.reply)] [(fd, a.request)] old new fd (.call [] a) :=
  ⟨rfl, .refl _, fun _ _ heq => (SessionStep.call.inj heq).1.symm, by simp,
    fun x hx => (h x hx).imp_right fun hx => ⟨hx.1, by rw [hx.2]⟩⟩

lemma Handles.sends {idx : ℕ} {client c : Client} {out : Outside} {f : ℕ → U8}
    {r : Option Request} {top : Option U32} {h : Handled}
    (hh : Handles comp idx client out f r top h) (hc : comp.clients[idx]? = some c)
    (hfd : c.fd = client.fd) :
    ∃ i, Sends h.sent (r.toList.map (client.fd, ·)) comp.surfaces h.comp.surfaces client.fd i := by
  have hchanges := hh.changes
  cases hh with
  | refused | destroy | title | geometry | buffer =>
    exact ⟨_, sends_nothing _ fun x hx => hchanges.origin hx⟩
  | info => exact ⟨_, sends_reply (.displayInfo _ _) fun x hx => .inl ⟨x, hx, rfl, rfl⟩⟩
  | @create width height id s' hcreate =>
    refine ⟨_, sends_reply (.createSurface id) fun x hx => ?_⟩
    obtain ⟨c', image, hc', -, -, -, -, hsurfaces, -, -⟩ := createSurface_some hcreate
    rw [hc, some.injEq] at hc'
    rw [hsurfaces] at hx
    rcases mem_append.mp hx with hx | hx
    · exact .inl ⟨x, hx, rfl, rfl⟩
    · rw [mem_singleton.mp hx]
      exact .inr ⟨hc' ▸ hfd, rfl⟩
  | @commit id i y hown =>
    refine ⟨_, sends_reply .commit fun x hx => .inl ?_⟩
    have hy := (ownSurface_some hown).1
    simp only [focusSurface, hy] at hx
    rcases mem_or_eq_of_mem_set hx with hx | rfl
    · exact ⟨x, hx, rfl, rfl⟩
    · exact ⟨y, mem_of_getElem? hy, rfl, rfl⟩

/-- **What one event sends.** -/
lemma step_sends {e : Event} (h : compositorStep comp e = some comp') :
    ∃ fd i, Sends (e.sent comp) (e.asked comp) comp.surfaces comp'.surfaces fd i := by
  obtain ⟨s₁, hchange, hfewer⟩ := changes_step h
  have hkept (hnone : e.raises comp = none) (x : Surface) (hx : x ∈ comp'.surfaces) :
      ∃ y ∈ comp.surfaces, y.id = x.id ∧ y.clientFd = x.clientFd :=
    (hnone ▸ hchange).origin (hfewer.subperm.subset hx)
  cases e with
  | accept fd => exact ⟨0, _, sends_nothing _ (hkept rfl)⟩
  | key code =>
    obtain ⟨id, hfocus⟩ := ensureFocus_eq comp
    rw [Event.sent, sendKeyToFocus, hfocus]
    dsimp only
    cases hx : comp.surfaces.find? (·.id = id) with
    | none => exact ⟨0, _, sends_nothing _ (hkept rfl)⟩
    | some x =>
      refine ⟨x.clientFd, .key ⟨x.id, code⟩, rfl, nil_sublist _, by simp, ?_,
        fun y hy => .inl (hkept rfl y hy)⟩
      rintro k heq
      cases heq
      exact ⟨x, mem_of_find?_eq_some hx, rfl, rfl⟩
  | read idx recv out =>
    rw [compositorStep] at h
    cases hclient : comp.clients[idx]? with
    | none =>
      rw [hclient] at h
      cases h
    | some client =>
      simp only [hclient] at h
      split_ifs at h
      rw [some.injEq, readClient] at h
      rw [Event.raises, hclient, bind_some] at hkept
      rw [Event.sent, Event.asked, handling, hclient, bind_some]
      have hi := (List.getElem?_eq_some_iff.mp hclient).1
      dsimp only at h hkept ⊢
      generalize readClientData client.reader recv = result at h hkept ⊢
      obtain ⟨reader, answer⟩ := result
      cases answer with
      | error | done => exact ⟨0, _, sends_nothing _ (hkept rfl)⟩
      | handle =>
        rw [if_pos rfl]
        obtain ⟨i, hsends⟩ := (handles_handle
          { comp with clients := comp.clients.set idx { client with reader } } idx
          { client with reader } reader.type reader.payloadSize out reader.readBuf).sends
          (getElem?_set_self hi) rfl
        generalize Reading.run _ _ = handled at h hsends ⊢
        have hsub : comp'.surfaces ⊆ handled.comp.surfaces := by
          rw [← h]
          split_ifs
          · exact fun _ h => h
          · exact (fewer_removeClient _ idx).subperm.subset
        exact ⟨client.fd, i, { hsends with told := fun x hx => hsends.told x (hsub hx) }⟩

lemma ServedFd.extend {w w' : Logged} {fd : ℤ} (h : ServedFd w fd) (i : SessionStep)
    (hsent : onFd fd w'.sent = onFd fd w.sent ++ i.messages)
    (hasked : (onFd fd w.asked ++ i.request.toList).Sublist (onFd fd w'.asked))
    (hcall : ∀ keys a, i = .call keys a → keys = [])
    (hkey : ∀ k, i = .key k → surfaceCreated k.surfaceId ∈ onFd fd w.sent) : ServedFd w' fd := by
  obtain ⟨steps, hsteps, hreplies, hcalls, hkeys⟩ := h
  refine ⟨steps ++ [i], ?_, ?_, fun keys a hmem => ?_, fun before k after heq => ?_⟩
  · rw [hsent, hsteps, flatMap_append, flatMap_singleton]
  · rw [filterMap_append]
    refine (hreplies.append ?_).trans hasked
    cases i <;> exact .refl _
  · rcases mem_append.mp hmem with hmem | hmem
    · exact hcalls keys a hmem
    · exact hcall keys a (mem_singleton.mp hmem).symm
  · -- the key is the new step or one before
    rcases eq_nil_or_concat after with rfl | ⟨after, last, rfl⟩
    · obtain ⟨rfl, hi⟩ := append_inj' heq rfl
      exact hsteps ▸ hkey k (singleton_inj.mp hi)
    · rw [concat_eq_append, ← cons_append, ← append_assoc] at heq
      exact hkeys before k after (append_inj' heq rfl).1

/-- Every surface has been told of, and every descriptor is served. -/
structure Serves (w : Logged) : Prop where
  told : ∀ x ∈ w.comp.surfaces, (x.clientFd, surfaceCreated x.id) ∈ w.sent
  served : ∀ fd, ServedFd w fd

lemma onFd_append {α : Type} (fd : ℤ) (l l' : List (ℤ × α)) :
    onFd fd (l ++ l') = onFd fd l ++ onFd fd l' := filterMap_append

lemma onFd_map {α : Type} (fd dst : ℤ) (l : List α) :
    onFd fd (l.map (dst, ·)) = if dst = fd then l else [] := by
  by_cases h : dst = fd <;> simp [onFd, filterMap_map, h]

lemma Serves.step {w w' : Logged} {e : Event} (h : Serves w) (hstep : loggedStep w e = some w') :
    Serves w' := by
  obtain ⟨comp', hcomp, rfl⟩ := map_eq_some_iff.mp hstep
  obtain ⟨dst, i, hs⟩ := step_sends hcomp
  refine ⟨fun x hx => ?_, fun fd => ?_⟩
  · rcases hs.told x hx with ⟨y, hy, hid, hfd⟩ | ⟨hfd, rfl⟩
    · exact mem_append_left _ (hid ▸ hfd ▸ h.told y hy)
    · rw [hs.sent, hfd]
      exact mem_append_right _ (mem_singleton_self _)
  · by_cases hdst : dst = fd
    · refine (h.served fd).extend i ?_ ?_ hs.call fun k hk => ?_
      · rw [onFd_append, hs.sent, onFd_map, if_pos hdst]
      · have hasked : (onFd fd (i.request.toList.map (dst, ·))).Sublist (onFd fd (e.asked w.comp)) :=
          hs.asked.filterMap _
        rw [onFd_map, if_pos hdst] at hasked
        rw [onFd_append]
        exact .append (.refl _) hasked
      · obtain ⟨x, hx, hid, hfd⟩ := hs.key k hk
        exact mem_filterMap.mpr ⟨_, hid ▸ h.told x hx, if_pos (hfd.trans hdst)⟩
    · refine (h.served fd).extend .send ?_ ?_ (by simp) (by simp)
      · rw [onFd_append, hs.sent, onFd_map, if_neg hdst]
        rfl
      · rw [onFd_append]
        exact .append (.refl _) (nil_sublist _)

end OpenHobbyOS.Xnx
