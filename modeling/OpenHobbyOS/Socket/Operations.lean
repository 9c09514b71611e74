/-
# Operations on endpoints

The functions of `socket.c` as the steps of one machine.  The `shape` of an endpoint is what
connections depend on; `step_shape` lists the outcomes of every operation, and the invariants of
listeners and of peers follow from it.
-/
import OpenHobbyOS.Kernel.Step
import OpenHobbyOS.Paging.Isolation

namespace OpenHobbyOS

open Paging Lib Function List Option

/-! ## The queue of a listener -/

namespace SocketEndpoint

variable {s t : SocketEndpoint} {x : SocketId}

/-- The pending connections as a ring. -/
def pendingRing (s : SocketEndpoint) : RingBuffer SocketId :=
  ⟨fun i => s.pending ⟨i % socketBacklog, Nat.mod_lt _ (by decide)⟩, s.pendingHead, s.pendingTail⟩

/-- The server ends of the connections that wait, oldest first. -/
def pendingList (s : SocketEndpoint) : List SocketId :=
  RingBuffer.contents socketBacklog s.pendingRing

lemma pendingRing_inBounds (s : SocketEndpoint) :
    RingBuffer.InBounds socketBacklog s.pendingRing := ⟨s.pendingHead.isLt, s.pendingTail.isLt⟩

lemma pendingCount_eq_used (s : SocketEndpoint) :
    s.pendingCount = RingBuffer.used socketBacklog s.pendingRing := rfl

lemma length_pendingList (s : SocketEndpoint) : s.pendingList.length = s.pendingCount :=
  RingBuffer.length_contents _ _

lemma pendingCount_lt (s : SocketEndpoint) : s.pendingCount < socketBacklog :=
  RingBuffer.used_lt s.pendingRing_inBounds

lemma contents_enqueued (h : s.enqueuePending x = some t) :
    t.pendingList = RingBuffer.contents socketBacklog
      (RingBuffer.push socketBacklog s.pendingRing [x]) := by
  rw [enqueuePending] at h
  split_ifs at h
  obtain rfl := some.inj h
  refine RingBuffer.contents_congr (pendingRing_inBounds _) rfl rfl fun i hi => ?_
  simp only [pendingRing, RingBuffer.push, RingBuffer.blit, Nat.mod_eq_of_lt hi]
  by_cases htail : i = s.pendingTail.val
  · subst htail
    rw [update_self]
    simp
  · rw [update_of_ne fun h => htail (congrArg Fin.val h)]
    split_ifs
    · rw [getElem?_eq_none (by simp only [length_singleton]; omega), getD_none]
    · rfl

lemma pendingList_enqueue (h : s.enqueuePending x = some t)
    (hroom : s.pendingCount < socketBacklog - 1) : t.pendingList = s.pendingList ++ [x] := by
  rw [contents_enqueued h]
  have hfit : s.pendingRing.tail + [x].length ≤ socketBacklog := s.pendingTail.isLt
  refine RingBuffer.contents_push s.pendingRing_inBounds hfit ?_
  rw [RingBuffer.available, ← pendingCount_eq_used, length_singleton]
  omega

lemma pendingList_enqueue_full (h : s.enqueuePending x = some t)
    (hfull : s.pendingCount = socketBacklog - 1) : t.pendingList = [] := by
  have htail := RingBuffer.head_add_used s.pendingRing_inBounds
  rw [← pendingCount_eq_used, hfull] at htail
  have hh := s.pendingHead.isLt
  have hnext : (s.pendingTail.val + 1) % socketBacklog = s.pendingHead.val := by
    simp only [pendingRing, socketBacklog] at *
    omega
  rw [contents_enqueued h]
  refine eq_nil_of_length_eq_zero ?_
  rw [RingBuffer.length_contents, RingBuffer.used, RingBuffer.push]
  simp only [pendingRing, length_singleton, hnext, le_refl, if_true, Nat.sub_self]

lemma pendingList_enqueue_or (h : s.enqueuePending x = some t) :
    t.pendingList = s.pendingList ++ [x] ∨ t.pendingList = [] := by
  rcases Nat.lt_or_ge s.pendingCount (socketBacklog - 1) with hlt | hge
  · exact .inl (pendingList_enqueue h hlt)
  · have hcount := s.pendingCount_lt
    exact .inr (pendingList_enqueue_full h (by omega))

lemma pendingList_dequeue (h : s.dequeuePending = some (t, x)) :
    s.pendingList = x :: t.pendingList := by
  rw [dequeuePending] at h
  split_ifs at h with hcount
  obtain ⟨rfl, rfl⟩ := Prod.mk.inj (some.inj h)
  have hpop := RingBuffer.contents_pop s.pendingRing_inBounds (n := 1) s.pendingHead.isLt
    (Nat.one_le_iff_ne_zero.mpr (by rwa [← pendingCount_eq_used]))
  have hhead : RingBuffer.slice s.pendingRing.buf s.pendingRing.head 1 =
      [s.pending s.pendingHead] := by
    simp only [RingBuffer.slice, range_one, map_cons, map_nil, pendingRing,
      Nat.add_zero, Nat.mod_eq_of_lt s.pendingHead.isLt]
  rw [pendingList, hpop, hhead]
  rfl

lemma dequeuePending_eq_none : s.dequeuePending = none ↔ s.pendingList = [] := by
  rw [dequeuePending, ← length_eq_zero_iff, length_pendingList]
  split_ifs with h <;> simp [h]

/-- A listening endpoint with an empty queue. -/
def listensWith (s : SocketEndpoint) (backlog : ℕ) : SocketEndpoint :=
  { s with
    backlog := backlog
    listening := true
    acceptWaiter := none
    pendingHead := ⟨0, socketBacklog_pos⟩
    pendingTail := ⟨0, socketBacklog_pos⟩ }

lemma listen_spec (s : SocketEndpoint) (backlog : ℤ) :
    s.listen backlog = (s, errInval) ∨ s.bound = true ∧
      ∃ b, 0 < b ∧ b ≤ socketBacklog ∧ s.listen backlog = (s.listensWith b, 0) := by
  by_cases h : !s.bound ∨ s.type ≠ sockStream
  · exact .inl (by rw [listen, if_pos h])
  · refine .inr ⟨by simpa using (not_or.mp h).1, _, ?_, ?_, by rw [listen, if_neg h]; rfl⟩
    · simp only [socketBacklog]
      split_ifs <;> omega
    · simp only [socketBacklog]
      split_ifs <;> omega

lemma recv_spec (s : SocketEndpoint) (length : ℕ) (flags : U32) :
    (∃ ring, (s.recv length flags).1 = { s with ring := ring }) ∧
      (s.recv length flags).2.2.length ≤ length := by
  have hread := RingBuffer.length_read_le socketBufferSize s.ring length
  simp only [recv]
  split_ifs
  all_goals
    first
      | exact ⟨⟨_, rfl⟩, Nat.zero_le _⟩
      | exact ⟨⟨_, rfl⟩, hread⟩

end SocketEndpoint

/-! ## Shapes -/

/-- What connections depend on in an endpoint. -/
structure SocketShape where
  used : Bool
  listening : Bool
  bound : Bool
  path : List U8
  peer : Option SocketId
  pending : List SocketId
  deriving DecidableEq

/-- What connections depend on. -/
def SocketEndpoint.shape (s : SocketEndpoint) : SocketShape :=
  ⟨s.used, s.listening, s.bound, s.path, s.peer, s.pendingList⟩

/-- The shapes of the table. -/
abbrev Shapes := SocketId → SocketShape

namespace Shapes

variable (σ : Shapes)

/-- The test of `socket_find_listener_by_path`. -/
def Listens (x : SocketId) (path : List U8) : Prop :=
  (σ x).used = true ∧ (σ x).listening = true ∧ (σ x).bound = true ∧ (σ x).path = path

/-- A new connection between `e` and the new endpoint `v`. -/
def connected (e l v : SocketId) (queue : List SocketId) : Shapes :=
  let σ := update σ v ⟨true, false, false, [], some e, []⟩
  let σ := update σ e { σ e with peer := some v }
  update σ l { σ l with pending := queue }

/-- The peers of `a` lose it. -/
def unlinked (a : SocketId) : Shapes :=
  match (σ a).peer with
  | some p => if (σ p).peer = some a then update σ p { σ p with peer := none } else σ
  | none => σ

/-- The last reference to an endpoint is gone. -/
def released (a : SocketId) : Shapes :=
  update (σ.unlinked a) a { σ.unlinked a a with used := false, bound := false, path := [] }

end Shapes

/-! ## Operations -/

/-- An operation on a live endpoint, or anything else the kernel does. -/
inductive SocketOp where
  | create (domain type : ℤ)
  | bind (e : SocketId) (addr : SockAddr) (addrlen : U32)
  | listen (e : SocketId) (backlog : ℤ)
  | connect (e : SocketId) (addr : SockAddr) (addrlen : U32)
  | accept (e : SocketId)
  | send (e : SocketId) (src : List U8) (tmp : Bool)
  | recv (e : SocketId) (buffer : U32) (length : ℕ) (flags : U32)
  | shutdown (e : SocketId) (how : ℤ)
  | unlinkPath (path : List U8)
  | release (e : SocketId)
  | other (k : Kernel)

namespace SocketOp

/-- The endpoint an operation is called with. -/
def endpoint : SocketOp → Option SocketId
  | create .. | unlinkPath _ | other _ => none
  | bind e .. | listen e _ | connect e .. | accept e | send e .. | recv e .. | shutdown e _
  | release e => some e

end SocketOp

namespace Kernel

/-- The effect of an operation, whatever it returns. -/
def socketEffect (k : Kernel) : SocketOp → Option Kernel
  | .create domain type => some ((k.socketCreate domain type).elim k Prod.fst)
  | .bind e addr addrlen => some (k.socketBind e addr addrlen).1
  | .listen e backlog => some (k.updSocket e fun s => (s.listen backlog).1)
  | .connect e addr addrlen => (k.socketConnect e addr addrlen).map Prod.fst
  | .accept e =>
    if !(k.sockets e).listening then some k
    else some ((k.socketAcceptPending e).elim k Prod.fst)
  | .send e src tmp => (k.socketSend e src tmp).map Prod.fst
  | .recv e buffer length flags => (k.socketRecv e buffer length flags).map Prod.fst
  | .shutdown e how => some (k.socketShutdown e how).1
  | .unlinkPath path => some (k.socketUnlinkPath path).1
  | .release e => some (k.socketRelease e)
  | .other k' => some { k' with sockets := k.sockets }

/-- Operations are on live endpoints. -/
def socketStep (k : Kernel) (op : SocketOp) : Option Kernel :=
  if op.endpoint.all fun e => (k.sockets e).used then k.socketEffect op else none

/-- The shapes of the kernel's table. -/
def shapes (k : Kernel) : Shapes := fun e => (k.sockets e).shape

end Kernel

/-- What an operation can do to the shapes. -/
inductive ShapeStep (σ : Shapes) : SocketOp → Shapes → Prop
  | same (op : SocketOp) : ShapeStep σ op σ
  | create {domain type : ℤ} {v : SocketId} (hfree : (σ v).used = false) :
    ShapeStep σ (.create domain type) (update σ v ⟨true, false, false, [], none, []⟩)
  | bind {e : SocketId} {addr : SockAddr} {addrlen : U32} (hbound : (σ e).bound = false)
    (hfree : addr.path ≠ [] → ∀ x, ¬ σ.Listens x addr.path) :
    ShapeStep σ (.bind e addr addrlen)
      (update σ e { σ e with bound := true, path := addr.path })
  | listen {e : SocketId} {backlog : ℤ} (hused : (σ e).used = true)
    (hbound : (σ e).bound = true) :
    ShapeStep σ (.listen e backlog)
      (update σ e { σ e with listening := true, pending := [] })
  | connect {e l v : SocketId} {addr : SockAddr} {addrlen : U32} {queue : List SocketId}
    (hused : (σ e).used = true) (hpeer : (σ e).peer = none) (hl : σ.Listens l addr.path)
    (hfree : (σ v).used = false) (hqueue : queue = (σ l).pending ++ [v] ∨ queue = []) :
    ShapeStep σ (.connect e addr addrlen) (σ.connected e l v queue)
  | handOver {e l v a : SocketId} {addr : SockAddr} {addrlen : U32} {queue : List SocketId}
    (hused : (σ e).used = true) (hpeer : (σ e).peer = none) (hl : σ.Listens l addr.path)
    (hfree : (σ v).used = false) (hqueue : (σ l).pending ++ [v] = a :: queue) :
    ShapeStep σ (.connect e addr addrlen) (σ.connected e l v queue)
  | refuse {e l v a : SocketId} {addr : SockAddr} {addrlen : U32} {queue : List SocketId}
    (hused : (σ e).used = true) (hpeer : (σ e).peer = none) (hl : σ.Listens l addr.path)
    (hfree : (σ v).used = false) (hqueue : (σ l).pending ++ [v] = a :: queue) :
    ShapeStep σ (.connect e addr addrlen) ((σ.connected e l v queue).released a)
  | accept {l a : SocketId} {queue : List SocketId} (hused : (σ l).used = true)
    (hlistening : (σ l).listening = true) (hqueue : (σ l).pending = a :: queue) :
    ShapeStep σ (.accept l) (update σ l { σ l with pending := queue })
  | unlinkPath {e : SocketId} {path : List U8} (hused : (σ e).used = true)
    (hbound : (σ e).bound = true) (hpath : (σ e).path = path) :
    ShapeStep σ (.unlinkPath path) (update σ e { σ e with bound := false, path := [] })
  | release {e : SocketId} (hused : (σ e).used = true) : ShapeStep σ (.release e) (σ.released e)

/-! ## The outcomes of every operation -/

namespace Kernel

variable {k k' : Kernel} {e l v : SocketId} {i : SlotId}
variable {addr : SockAddr} {path src : List U8} {ok tmp : Bool} {addrlen : U32} {x : ℤ}

lemma shapes_updSocket (k : Kernel) (e : SocketId) (g : SocketEndpoint → SocketEndpoint) :
    (k.updSocket e g).shapes = update k.shapes e (g (k.sockets e)).shape := by
  funext x
  rw [shapes, sockets_updSocket, update_apply]
  split_ifs <;> rfl

lemma shapes_updSocket_same {g : SocketEndpoint → SocketEndpoint}
    (hg : (g (k.sockets e)).shape = (k.sockets e).shape) : (k.updSocket e g).shapes = k.shapes := by
  rw [shapes_updSocket, hg]
  exact update_eq_self e k.shapes

lemma shapes_congr (h : k'.sockets = k.sockets) : k'.shapes = k.shapes := by
  funext x
  rw [shapes, shapes, h]

@[simp] lemma sockets_taskWakeSlot (k : Kernel) (i : SlotId) (v : ℤ) :
    (k.taskWakeSlot i v).sockets = k.sockets := by
  rw [taskWakeSlot]
  split_ifs <;> rfl

lemma writeSlotUser_eq {addr : U32} (h : k.writeSlotUser i addr src = some (k', ok)) :
    ∃ p, k' = { k with paging := p } := by
  rw [writeSlotUser] at h
  split_ifs at h
  · exact ⟨k.paging, (Prod.mk.inj (some.inj h)).1.symm⟩
  rw [slotWriteToUser] at h
  dsimp only at h
  split_ifs at h
  · exact ⟨k.paging, (Prod.mk.inj (some.inj h)).1.symm⟩
  · exact ⟨k.paging, (Prod.mk.inj (some.inj h)).1.symm⟩
  · obtain ⟨p, -, hp⟩ := map_eq_some_iff.mp h
    exact ⟨_, (Prod.mk.inj hp).1.symm⟩
  · exact ⟨_, (Prod.mk.inj (some.inj h)).1.symm⟩

lemma sockets_writeSlotUser {addr : U32} (h : k.writeSlotUser i addr src = some (k', ok)) :
    k'.sockets = k.sockets := by
  obtain ⟨p, rfl⟩ := writeSlotUser_eq h
  rfl

@[simp] lemma sockets_slotInstallSocket (k : Kernel) (i : SlotId) (e : SocketId) :
    (k.slotInstallSocket i e).1.sockets = k.sockets := by
  rw [slotInstallSocket]
  split_ifs
  · rfl
  · split <;> rfl

lemma reportPeer_eq {addr : U32} (h : k.reportPeer i addr addrlen = some k') :
    ∃ p, k' = { k with paging := p } := by
  rw [reportPeer] at h
  split_ifs at h
  · cases hw : k.writeSlotUser i addr [1#8, 0#8] with
    | none => simp [hw] at h
    | some r =>
      obtain ⟨u, ok⟩ := r
      simp only [hw] at h
      obtain ⟨p, rfl⟩ := writeSlotUser_eq hw
      obtain ⟨r', hr', rfl⟩ := map_eq_some_iff.mp h
      obtain ⟨q, hq⟩ := writeSlotUser_eq hr'
      exact ⟨q, hq⟩
  · exact ⟨k.paging, (some.inj h).symm⟩

lemma socketAlloc_spec (h : k.socketAlloc = some (k', v)) :
    (k.sockets v).used = false ∧ k' = k.updSocket v fun _ => .fresh := by
  obtain ⟨x, hx, hk⟩ := map_eq_some_iff.mp h
  obtain ⟨rfl, rfl⟩ := Prod.mk.inj hk
  exact ⟨by simpa using find?_some hx, rfl⟩

lemma socketFindListenerByPath_spec (h : k.socketFindListenerByPath path = some l) :
    k.shapes.Listens l path := by
  have := find?_some h
  simpa [Shapes.Listens, shapes, SocketEndpoint.shape, and_assoc] using this

lemma socketFindListenerByPath_none (h : k.socketFindListenerByPath path = none) (x : SocketId) :
    ¬ k.shapes.Listens x path := by
  have := find?_eq_none.mp h x (mem_finRange x)
  simpa [Shapes.Listens, shapes, SocketEndpoint.shape, and_assoc] using this

lemma shapes_socketUnlinkPeer (k : Kernel) (e : SocketId) :
    (k.socketUnlinkPeer e).shapes = k.shapes.unlinked e := by
  have hpeer : ∀ x, (k.shapes x).peer = (k.sockets x).peer := fun _ => rfl
  rw [socketUnlinkPeer, Shapes.unlinked, hpeer]
  cases (k.sockets e).peer with
  | none => rfl
  | some p =>
    dsimp only
    rw [hpeer]
    split_ifs
    · rw [shapes_updSocket]
      rfl
    · rfl

lemma shapes_socketRelease_held (h : 1 < (k.sockets e).refcount) :
    (k.socketRelease e).shapes = k.shapes := by
  rw [socketRelease]
  split_ifs
  · rfl
  dsimp only
  rw [if_pos]
  · exact shapes_updSocket_same rfl
  · rw [updSocket_sockets_self, SocketEndpoint.drop]
    dsimp only
    omega

lemma shapes_socketRelease_last (hused : (k.sockets e).used = true)
    (h : (k.sockets e).refcount ≤ 1) : (k.socketRelease e).shapes = k.shapes.released e := by
  have hdrop : (k.updSocket e SocketEndpoint.drop).shapes = k.shapes := shapes_updSocket_same rfl
  rw [socketRelease, if_neg (by simp [hused])]
  dsimp only
  rw [if_neg, shapes_updSocket, ← hdrop, Shapes.released, ← shapes_socketUnlinkPeer]
  · rfl
  · rw [updSocket_sockets_self, SocketEndpoint.drop]
    dsimp only
    omega

lemma shapes_socketRelease (k : Kernel) (e : SocketId) :
    (k.socketRelease e).shapes = k.shapes ∨
      (k.shapes e).used = true ∧ (k.socketRelease e).shapes = k.shapes.released e := by
  cases hused : (k.sockets e).used with
  | false => exact .inl (by rw [socketRelease, if_pos (by simp [hused])])
  | true =>
    by_cases hlast : (k.sockets e).refcount ≤ 1
    · exact .inr ⟨hused, shapes_socketRelease_last hused hlast⟩
    · exact .inl (shapes_socketRelease_held (by omega))

lemma socketPair_other (h : k.socketPair e = some (k', v)) :
    (k.sockets v).used = false ∧ k'.slots = k.slots ∧ k'.current = k.current ∧
      (k'.sockets v).listening = false ∧ k.socketAlloc.map Prod.snd = some v ∧
      ∀ x, x ≠ v → k'.sockets x = k.sockets x ∨
        x = e ∧ k'.sockets x = (k.sockets x).clientOf v := by
  obtain ⟨⟨k₁, w⟩, halloc, hk⟩ := map_eq_some_iff.mp h
  obtain ⟨rfl, rfl⟩ := Prod.mk.inj hk
  have hfirst : k.socketAlloc.map Prod.snd = some w := by rw [halloc]; rfl
  obtain ⟨hfree, rfl⟩ := socketAlloc_spec halloc
  refine ⟨hfree, rfl, rfl, ?_, hfirst, fun x hx => ?_⟩
  · by_cases hwe : w = e
    · subst hwe
      simp only [sockets_updSocket, if_true]
      rfl
    · simp only [sockets_updSocket, if_neg hwe, if_true]
      rfl
  · simp only [sockets_updSocket, if_neg hx]
    by_cases hxe : x = e
    · subst hxe
      simp [hx]
    · simp [hxe]

lemma shapes_socketPair (h : k.socketPair e = some (k', v)) (hve : v ≠ e) :
    k'.shapes = update (update k.shapes v ⟨true, false, false, [], some e, []⟩) e
      { k.shapes e with peer := some v } := by
  obtain ⟨⟨k₁, w⟩, halloc, hk⟩ := map_eq_some_iff.mp h
  obtain ⟨rfl, rfl⟩ := Prod.mk.inj hk
  obtain ⟨-, rfl⟩ := socketAlloc_spec halloc
  rw [shapes_updSocket, shapes_updSocket, shapes_updSocket, update_idem]
  congr 1
  · congr 1
    rw [updSocket_sockets_self]
    rfl
  · rw [sockets_updSocket, if_neg hve.symm, sockets_updSocket, if_neg hve.symm]
    rfl

lemma sockets_socketRelease_congr (h : k'.sockets = k.sockets) (e : SocketId) :
    (k'.socketRelease e).sockets = (k.socketRelease e).sockets := by
  have hupd : ∀ {u u' : Kernel} (x : SocketId) (g : SocketEndpoint → SocketEndpoint),
      u'.sockets = u.sockets → (u'.updSocket x g).sockets = (u.updSocket x g).sockets :=
    fun x g hu => by funext y; rw [sockets_updSocket, sockets_updSocket, hu]
  have hdrop := hupd e SocketEndpoint.drop h
  have hunlink : ∀ {u u' : Kernel}, u'.sockets = u.sockets →
      (u'.socketUnlinkPeer e).sockets = (u.socketUnlinkPeer e).sockets := by
    intro u u' hu
    rw [socketUnlinkPeer, socketUnlinkPeer, hu]
    cases (u.sockets e).peer with
    | none => exact hu
    | some p =>
      dsimp only
      split_ifs
      · exact hupd p _ hu
      · exact hu
  rw [socketRelease, socketRelease, h]
  dsimp only
  rw [hdrop]
  split_ifs
  · exact h
  · exact hdrop
  · exact hupd e _ (hunlink hdrop)

lemma connectTarget_error {c : ℤ} (h : k.connectTarget e addr addrlen = .error c) : c < 0 := by
  rw [connectTarget] at h
  split_ifs at h
  iterate 5 exact Except.error.inj h ▸ by decide
  · cases hf : k.socketFindListenerByPath addr.path with
    | none =>
      simp only [hf] at h
      exact Except.error.inj h ▸ by decide
    | some l =>
      simp only [hf] at h
      split_ifs at h
      exact Except.error.inj h ▸ by decide

lemma connectTarget_ok (h : k.connectTarget e addr addrlen = .ok l) : (k.sockets e).peer = none ∧
      k.socketFindListenerByPath addr.path = some l ∧ (k.sockets l).pendingFull = false := by
  rw [connectTarget] at h
  split_ifs at h with hpeer
  cases hf : k.socketFindListenerByPath addr.path with
  | none =>
    simp only [hf] at h
    cases h
  | some x =>
    simp only [hf] at h
    split_ifs at h with hfull
    obtain rfl := Except.ok.inj h
    exact ⟨by simpa using hpeer, rfl, by simpa using hfull⟩

lemma completeAccept_spec {a : SocketId} (h : k.completeAccept l i a = some k') :
    k'.sockets = (k.updSocket l SocketEndpoint.clearAcceptor).sockets ∧
        0 ≤ (k.slotInstallSocket i a).2 ∨
      k'.sockets = ((k.socketRelease a).updSocket l SocketEndpoint.clearAcceptor).sockets ∧
        (k.slotInstallSocket i a).2 < 0 := by
  rw [completeAccept] at h
  split_ifs at h with hfail
  · refine .inr ⟨?_, hfail⟩
    obtain rfl := some.inj h
    have hrelease : ((k.slotInstallSocket i a).1.socketRelease a).sockets =
        (k.socketRelease a).sockets := sockets_socketRelease_congr (by simp) a
    funext x
    rw [sockets_taskWakeSlot, sockets_updSocket, sockets_updSocket, hrelease]
  · refine .inl ⟨?_, Int.not_lt.mp hfail⟩
    obtain ⟨k₁, hk₁, rfl⟩ := map_eq_some_iff.mp h
    obtain ⟨p, rfl⟩ := reportPeer_eq hk₁
    have hsockets := sockets_slotInstallSocket k i a
    funext x
    rw [sockets_taskWakeSlot, sockets_updSocket, sockets_updSocket]
    dsimp only
    rw [hsockets]

lemma tryCompleteAccept_spec (h : k.socketTryCompleteAccept l = some k') :
    (k' = k ∧ ((k.sockets l).acceptWaiter = none ∨ (k.sockets l).listening = false ∨
        (k.sockets l).pendingList = [])) ∨
      ∃ i t a, (k.sockets l).acceptWaiter = some i ∧ (k.sockets l).listening = true ∧
        (k.sockets l).dequeuePending = some (t, a) ∧
        (k.updSocket l fun _ => t).completeAccept l i a = some k' := by
  rw [socketTryCompleteAccept] at h
  cases hw : (k.sockets l).acceptWaiter with
  | none =>
    simp only [hw, some.injEq] at h
    exact .inl ⟨h.symm, .inl rfl⟩
  | some i =>
    simp only [hw] at h
    split_ifs at h with hlisten
    · exact .inl ⟨(some.inj h).symm, .inr (.inl (by simpa using hlisten))⟩
    rw [socketAcceptPending] at h
    cases hd : (k.sockets l).dequeuePending with
    | none =>
      simp only [hd, map_none, some.injEq] at h
      exact .inl ⟨h.symm, .inr (.inr (SocketEndpoint.dequeuePending_eq_none.mp hd))⟩
    | some r =>
      simp only [hd, map_some] at h
      exact .inr ⟨i, r.1, r.2, rfl, by simpa using hlisten, rfl, h⟩

lemma shapes_tryCompleteAccept (h : k.socketTryCompleteAccept l = some k') :
    k'.shapes = k.shapes ∨ ∃ a queue, (k.shapes l).pending = a :: queue ∧
      (k'.shapes = update k.shapes l { k.shapes l with pending := queue } ∨
        k'.shapes = (Shapes.released
          (update k.shapes l { k.shapes l with pending := queue }) a)) := by
  rcases tryCompleteAccept_spec h with ⟨rfl, -⟩ | ⟨i, t, a, -, -, hd, hc⟩
  · exact .inl rfl
  have hqueue := SocketEndpoint.pendingList_dequeue hd
  refine .inr ⟨a, t.pendingList, hqueue, ?_⟩
  have hpop : (k.updSocket l fun _ => t).shapes =
      update k.shapes l { k.shapes l with pending := t.pendingList } := by
    rw [shapes_updSocket]
    congr 1
    rw [SocketEndpoint.dequeuePending] at hd
    split_ifs at hd
    obtain ⟨rfl, -⟩ := Prod.mk.inj (some.inj hd)
    rfl
  have hclear : ∀ u : Kernel, (u.updSocket l SocketEndpoint.clearAcceptor).shapes = u.shapes :=
    fun u => shapes_updSocket_same rfl
  rcases completeAccept_spec hc with ⟨hs, -⟩ | ⟨hs, -⟩
  · exact .inl ((shapes_congr hs).trans ((hclear _).trans hpop))
  · rw [shapes_congr hs, hclear, ← hpop]
    rcases shapes_socketRelease (k.updSocket l fun _ => t) a with hr | ⟨-, hr⟩
    · exact .inl hr
    · exact .inr hr

lemma socketConnect_spec (h : k.socketConnect e addr addrlen = some (k', x)) :
    (k' = k ∧ x < 0) ∨ ∃ l v k₁ t, k.connectTarget e addr addrlen = .ok l ∧
      k.socketPair e = some (k₁, v) ∧ (k₁.sockets l).enqueuePending v = some t ∧
      (k₁.updSocket l fun _ => t).socketTryCompleteAccept l = some k' ∧ x = 0 := by
  rw [socketConnect] at h
  cases ht : k.connectTarget e addr addrlen with
  | error c =>
    simp only [ht, some.injEq, Prod.mk.injEq] at h
    refine .inl ⟨h.1.symm, h.2 ▸ connectTarget_error ht⟩
  | ok l =>
    simp only [ht] at h
    cases hp : k.socketPair e with
    | none =>
      simp only [hp, some.injEq, Prod.mk.injEq] at h
      exact .inl ⟨h.1.symm, h.2 ▸ by decide⟩
    | some r =>
      obtain ⟨k₁, v⟩ := r
      simp only [hp] at h
      cases hq : (k₁.sockets l).enqueuePending v with
      | none =>
        -- the queue has been found not to be full
        obtain ⟨-, hfind, hfull⟩ := connectTarget_ok ht
        obtain ⟨hfree, -, -, -, -, hother⟩ := socketPair_other hp
        have hlused : (k.sockets l).used = true := (socketFindListenerByPath_spec hfind).1
        have hlv : l ≠ v := fun hlv => absurd (hlv ▸ hfree) (by rw [hlused]; decide)
        have hsame : (k₁.sockets l).pendingFull = (k.sockets l).pendingFull := by
          rcases hother l hlv with h | ⟨-, h⟩ <;> rw [h]
          rfl
        rw [SocketEndpoint.enqueuePending, hsame, hfull] at hq
        exact absurd hq (by simp)
      | some t =>
        simp only [hq] at h
        obtain ⟨k₂, hk₂, hx⟩ := map_eq_some_iff.mp h
        obtain ⟨rfl, rfl⟩ := Prod.mk.inj hx
        exact .inr ⟨l, v, k₁, t, rfl, rfl, hq, hk₂, rfl⟩

lemma shapeStep_connect (h : k.socketEffect (.connect e addr addrlen) = some k')
    (hused : (k.sockets e).used = true) :
    ShapeStep k.shapes (.connect e addr addrlen) k'.shapes := by
  obtain ⟨⟨k₂, x⟩, hconn, rfl⟩ := map_eq_some_iff.mp h
  rcases socketConnect_spec hconn with ⟨rfl, -⟩ | ⟨l, v, k₁, t, ht, hp, hq, hacc, -⟩
  · exact .same _
  obtain ⟨hpeer, hfind, -⟩ := connectTarget_ok ht
  obtain ⟨hfree, -, -, -, -, hother⟩ := socketPair_other hp
  have hve : v ≠ e := fun hve => by rw [hve, hused] at hfree; exact absurd hfree (by decide)
  have hshapes := shapes_socketPair hp hve
  have hl := socketFindListenerByPath_spec hfind
  have hlused : (k.sockets l).used = true := hl.1
  have hlv : l ≠ v := fun hlv => absurd (hlv ▸ hfree) (by rw [hlused]; decide)
  have hpending : (k₁.sockets l).pendingList = (k.shapes l).pending := by
    rcases hother l hlv with h | ⟨-, h⟩ <;> rw [h] <;> rfl
  have hqueued : (k₁.updSocket l fun _ => t).shapes = k.shapes.connected e l v t.pendingList := by
    rw [Shapes.connected]
    dsimp only
    rw [update_of_ne hve.symm, ← hshapes, shapes_updSocket]
    congr 1
    rw [SocketEndpoint.enqueuePending] at hq
    split_ifs at hq
    obtain rfl := some.inj hq
    rfl
  have hcase : t.pendingList = (k.shapes l).pending ++ [v] ∨ t.pendingList = [] :=
    hpending ▸ SocketEndpoint.pendingList_enqueue_or hq
  rcases shapes_tryCompleteAccept hacc with hs | ⟨a, queue, hqueue, hs⟩
  · rw [hs, hqueued]
    exact .connect hused hpeer hl hfree hcase
  have hlist : t.pendingList = a :: queue := by
    rwa [hqueued, Shapes.connected, update_self] at hqueue
  have happend : (k.shapes l).pending ++ [v] = a :: queue := by
    rcases hcase with h | h <;> rw [h] at hlist
    · exact hlist
    · exact absurd hlist (by simp)
  have hpop : update (k₁.updSocket l fun _ => t).shapes l
      { (k₁.updSocket l fun _ => t).shapes l with pending := queue } =
      k.shapes.connected e l v queue := by
    rw [hqueued, Shapes.connected, Shapes.connected]
    simp only [update_idem, update_self]
  rw [hpop] at hs
  rcases hs with hs | hs <;> rw [hs]
  · exact .handOver hused hpeer hl hfree happend
  · exact .refuse hused hpeer hl hfree happend

lemma shapes_socketDeliver {p : SocketId} {r : Kernel × ℕ} (h : k.socketDeliver p src tmp = some r)
    : r.1.shapes = k.shapes := by
  rw [socketDeliver] at h
  cases hr : (k.sockets p).reader with
  | none =>
    simp only [hr, some.injEq] at h
    exact h ▸ rfl
  | some i =>
    simp only [hr] at h
    split_ifs at h
    · cases hw : k.writeSlotUser i (k.sockets p).readBuffer
        (src.take (min src.length (k.sockets p).readLength.toNat)) with
      | none => simp [hw] at h
      | some w =>
        obtain ⟨u, ok⟩ := w
        have hu := shapes_congr (sockets_writeSlotUser hw)
        cases ok with
        | false =>
          simp only [hw, some.injEq] at h
          exact h ▸ hu
        | true =>
          simp only [hw, some.injEq] at h
          rw [← h, shapes_congr (sockets_taskWakeSlot _ _ _), shapes_updSocket_same rfl, hu]
    · exact some.inj h ▸ rfl

lemma shapes_socketSend (h : k.socketSend e src tmp = some (k', x)) : k'.shapes = k.shapes := by
  have hstore : ∀ (u : Kernel) (p : SocketId) (src : List U8),
      (u.socketStore p src).1.shapes = u.shapes := by
    intro u p src
    rw [socketStore]
    have hring : (u.updSocket p fun s =>
        { s with ring := (RingBuffer.write socketBufferSize (u.sockets p).ring src).1 }).shapes =
        u.shapes := shapes_updSocket_same rfl
    split_ifs
    · exact hring
    · split
      · exact hring
      · rw [shapes_updSocket_same rfl, ← hring]
        exact shapes_congr (sockets_taskWakeSlot _ _ _)
  rw [socketSend] at h
  split_ifs at h
  · exact (Prod.mk.inj (some.inj h)).1 ▸ rfl
  cases hp : (k.sockets e).peer with
  | none =>
    simp only [hp, some.injEq, Prod.mk.injEq] at h
    exact h.1 ▸ rfl
  | some p =>
    simp only [hp] at h
    split_ifs at h
    · exact (Prod.mk.inj (some.inj h)).1 ▸ rfl
    cases hd : k.socketDeliver p src tmp with
    | none => simp [hd] at h
    | some r =>
      simp only [hd] at h
      have hr : r.1.shapes = k.shapes := shapes_socketDeliver hd
      split_ifs at h
      · exact (Prod.mk.inj (some.inj h)).1 ▸ hr
      · have := congrArg Prod.fst (some.inj h)
        dsimp only at this
        rw [← this, hstore, hr]

lemma shapes_socketShutdown (k : Kernel) (e : SocketId) (how : ℤ) :
    (k.socketShutdown e how).1.shapes = k.shapes := by
  have hclosed : ∀ p, (k.updSocket p fun s => { s with peerClosed := true }).shapes = k.shapes :=
    fun p => shapes_updSocket_same rfl
  rw [socketShutdown]
  split_ifs
  · split
    · rfl
    · dsimp only
      split
      · exact hclosed _
      · rw [shapes_updSocket_same rfl, ← hclosed]
        exact shapes_congr (sockets_taskWakeSlot _ _ _)
  · rfl

lemma shapes_socketRecv {buffer : U32} {length : ℕ} {flags : U32}
    (h : k.socketRecv e buffer length flags = some (k', x)) : k'.shapes = k.shapes := by
  obtain ⟨p, -, hp⟩ := map_eq_some_iff.mp h
  have hrecv : ((k.sockets e).recv length flags).1.shape = (k.sockets e).shape := by
    obtain ⟨⟨ring, hring⟩, -⟩ := (k.sockets e).recv_spec length flags
    rw [hring]
    rfl
  have hk : (k.updSocket e fun _ => ((k.sockets e).recv length flags).1).shapes = k.shapes :=
    shapes_updSocket_same hrecv
  rw [← hk]
  exact (Prod.mk.inj hp).1 ▸ rfl

/-- **What the operations do to the shapes.** -/
theorem step_shape {op : SocketOp} (h : k.socketStep op = some k') :
    ShapeStep k.shapes op k'.shapes := by
  rw [socketStep] at h
  split_ifs at h with hlive
  cases op with
  | create domain type =>
    obtain rfl := some.inj h
    rw [socketCreate]
    split_ifs
    · exact .same _
    cases ha : k.socketAlloc with
    | none => exact .same _
    | some r =>
      obtain ⟨u, v⟩ := r
      obtain ⟨hfree, rfl⟩ := socketAlloc_spec ha
      have hshapes : ((k.updSocket v fun _ => .fresh).updSocket v fun s =>
          { s with domain := domain, type := type }).shapes =
          update k.shapes v ⟨true, false, false, [], none, []⟩ := by
        rw [shapes_updSocket, shapes_updSocket, update_idem, updSocket_sockets_self]
        rfl
      exact hshapes ▸ .create hfree
  | bind e addr addrlen =>
    obtain rfl := some.inj h
    rw [socketBind]
    split_ifs with hbound _ _ _ hinuse
    any_goals exact .same _
    rw [shapes_updSocket]
    have hfree : (k.sockets e).bound = false := by simpa using (not_or.mp hbound).1
    refine .bind hfree fun hpath x => ?_
    refine socketFindListenerByPath_none ?_ x
    by_contra hsome
    exact hinuse ⟨hpath, isSome_iff_ne_none.mpr hsome⟩
  | listen e backlog =>
    obtain rfl := some.inj h
    rw [shapes_updSocket]
    rcases (k.sockets e).listen_spec backlog with hl | ⟨hbound, b, -, -, hl⟩ <;> rw [hl]
    · rw [show update k.shapes e (k.sockets e).shape = k.shapes from
        update_eq_self e k.shapes]
      exact .same _
    · exact .listen hlive hbound
  | connect e addr addrlen => exact shapeStep_connect h hlive
  | accept e =>
    rw [socketEffect] at h
    split_ifs at h with hlisten
    · exact some.inj h ▸ .same _
    obtain rfl := some.inj h
    rw [socketAcceptPending]
    cases hd : (k.sockets e).dequeuePending with
    | none => exact .same _
    | some r =>
      obtain ⟨t, a⟩ := r
      have hqueue := SocketEndpoint.pendingList_dequeue hd
      simp only [map_some, elim_some]
      rw [shapes_updSocket]
      have ht : t.shape = { k.shapes e with pending := t.pendingList } := by
        rw [SocketEndpoint.dequeuePending] at hd
        split_ifs at hd
        obtain ⟨rfl, -⟩ := Prod.mk.inj (some.inj hd)
        rfl
      rw [ht]
      exact .accept hlive (show (k.sockets e).listening = true by simpa using hlisten) hqueue
  | send e src tmp =>
    obtain ⟨r, hr, rfl⟩ := map_eq_some_iff.mp h
    exact shapes_socketSend hr ▸ .same _
  | recv e buffer length flags =>
    obtain ⟨r, hr, rfl⟩ := map_eq_some_iff.mp h
    exact shapes_socketRecv hr ▸ .same _
  | shutdown e how =>
    obtain rfl := some.inj h
    exact shapes_socketShutdown k e how ▸ .same _
  | unlinkPath path =>
    obtain rfl := some.inj h
    rw [socketUnlinkPath]
    split
    · exact .same _
    · rename_i e he
      have hfound := find?_some he
      simp only [Bool.and_eq_true, decide_eq_true_eq] at hfound
      rw [shapes_updSocket]
      exact .unlinkPath hfound.1.1 hfound.1.2 hfound.2
  | release e =>
    obtain rfl := some.inj h
    rcases shapes_socketRelease k e with hs | ⟨hused, hs⟩ <;> rw [hs]
    · exact .same _
    · exact .release hused
  | other u =>
    obtain rfl := some.inj h
    have hsame : ({ u with sockets := k.sockets } : Kernel).shapes = k.shapes := shapes_congr rfl
    exact hsame ▸ .same _

end Kernel

end OpenHobbyOS
