/-
# Connected endpoints

The two ends of a connection point to each other and are both in use, and so is every connection
that waits at a listener, as long as no endpoint that is queued loses its last reference.
-/
import OpenHobbyOS.Socket.Operations

namespace OpenHobbyOS

open Paging Lib MapSystem Function List Option

namespace Shapes

variable {σ σ' : Shapes} {op : SocketOp} {e l v a x : SocketId} {queue : List SocketId}

/-- An endpoint that is in use and listens. -/
def Live (σ : Shapes) (l : SocketId) : Prop := (σ l).used = true ∧ (σ l).listening = true

/-- Peers are in use and point to each other, no endpoint is its own peer, and what is
queued at a live listener is in use. -/
structure PeersLinked (σ : Shapes) : Prop where
  back : ∀ s p, (σ s).used = true → (σ s).peer = some p →
    (σ p).used = true ∧ (σ p).peer = some s
  not_self : ∀ s, (σ s).used = true → (σ s).peer ≠ some s
  queued : ∀ l, σ.Live l → ∀ x ∈ (σ l).pending, (σ x).used = true

/-- Besides, no connection is queued twice. -/
structure QueuedOnce (σ : Shapes) : Prop extends PeersLinked σ where
  nodup : ∀ l, σ.Live l → (σ l).pending.Nodup
  apart : ∀ l m, σ.Live l → σ.Live m → l ≠ m → ∀ x ∈ (σ l).pending, x ∉ (σ m).pending

/-- The endpoint waits at no other live listener. -/
def NotQueued (σ : Shapes) (e : SocketId) : Prop :=
  ∀ x, x ≠ e → σ.Live x → e ∉ (σ x).pending

/-! ## Connections and releases, field by field -/

section Connected

variable (σ) (queue) (hev : e ≠ v) (hlv : l ≠ v) (x : SocketId)
include hev hlv

lemma connected_used :
    (σ.connected e l v queue x).used = if x = v then true else (σ x).used := by
  simp only [connected, update_apply]
  split_ifs <;> simp_all

lemma connected_listening :
    (σ.connected e l v queue x).listening = if x = v then false else (σ x).listening := by
  simp only [connected, update_apply]
  split_ifs <;> simp_all

lemma connected_peer :
    (σ.connected e l v queue x).peer =
      if x = v then some e else if x = e then some v else (σ x).peer := by
  simp only [connected, update_apply]
  split_ifs <;> simp_all

lemma connected_pending :
    (σ.connected e l v queue x).pending =
      if x = l then queue else if x = v then [] else (σ x).pending := by
  simp only [connected, update_apply]
  split_ifs <;> simp_all

lemma connected_live : (σ.connected e l v queue).Live x ↔ x ≠ v ∧ σ.Live x := by
  rw [Live, connected_used σ queue hev hlv, connected_listening σ queue hev hlv]
  split_ifs with hx <;> simp [hx, Live]

end Connected

lemma connected_requeue (σ : Shapes) (e l v : SocketId) (queue queue' : List SocketId) :
    σ.connected e l v queue' = update (σ.connected e l v queue) l
      { σ.connected e l v queue l with pending := queue' } := by
  simp only [connected, update_idem, update_self]

lemma unlinked_apply (σ : Shapes) (a x : SocketId) :
    σ.unlinked a x =
      if (σ a).peer = some x ∧ (σ x).peer = some a then { σ x with peer := none } else σ x := by
  rw [unlinked]
  cases hp : (σ a).peer with
  | none => simp
  | some p =>
    by_cases hx : x = p
    · subst hx
      dsimp only
      split_ifs <;> simp_all
    · dsimp only
      split_ifs <;> simp_all

lemma released_of_ne (hx : x ≠ a) : σ.released a x = σ.unlinked a x := by
  rw [released, update_of_ne hx]

lemma released_used (x : SocketId) (h : (σ.released a x).used = true) :
    x ≠ a ∧ (σ x).used = true := by
  have hx : x ≠ a := by
    rintro rfl
    simp [released] at h
  rw [released_of_ne hx, unlinked_apply] at h
  split_ifs at h <;> exact ⟨hx, h⟩

lemma released_fields (hx : x ≠ a) :
    (σ.released a x).used = (σ x).used ∧ (σ.released a x).listening = (σ x).listening ∧
      (σ.released a x).pending = (σ x).pending := by
  rw [released_of_ne hx, unlinked_apply]
  split_ifs <;> exact ⟨rfl, rfl, rfl⟩

lemma released_live (h : (σ.released a).Live x) :
    x ≠ a ∧ σ.Live x ∧ (σ.released a x).pending = (σ x).pending := by
  obtain ⟨hx, -⟩ := released_used x h.1
  obtain ⟨hu, hl, hp⟩ := released_fields (σ := σ) hx
  exact ⟨hx, ⟨hu ▸ h.1, hl ▸ h.2⟩, hp⟩

/-! ## The steps -/

namespace QueuedOnce

lemma of_sublist (h : σ.QueuedOnce) (hused : ∀ x, (σ' x).used = (σ x).used)
    (hpeer : ∀ x, (σ' x).peer = (σ x).peer)
    (hqueue : ∀ l, σ'.Live l → (σ' l).pending = [] ∨
      σ.Live l ∧ (σ' l).pending.Sublist (σ l).pending) : σ'.QueuedOnce := by
  have hmem : ∀ l, σ'.Live l → ∀ x ∈ (σ' l).pending, σ.Live l ∧ x ∈ (σ l).pending := by
    intro l hl x hx
    rcases hqueue l hl with hnil | ⟨hl, hsub⟩
    · rw [hnil] at hx
      exact absurd hx not_mem_nil
    · exact ⟨hl, hsub.subset hx⟩
  refine ⟨⟨fun s p hs hp => ?_, fun s hs => ?_, fun l hl x hx => ?_⟩, fun l hl => ?_,
    fun l m hl hm hne x hx hx' => ?_⟩
  · rw [hused, hpeer] at *
    exact h.back s p hs hp
  · rw [hused, hpeer] at *
    exact h.not_self s hs
  · obtain ⟨hl, hx⟩ := hmem l hl x hx
    exact hused x ▸ h.queued l hl x hx
  · rcases hqueue l hl with hnil | ⟨hl, hsub⟩
    · exact hnil ▸ nodup_nil
    · exact (h.nodup l hl).sublist hsub
  · obtain ⟨hl, hx⟩ := hmem l hl x hx
    obtain ⟨hm, hx'⟩ := hmem m hm x hx'
    exact h.apart l m hl hm hne x hx hx'

lemma update (h : σ.QueuedOnce) {s : SocketShape} (hused : s.used = (σ e).used)
    (hpeer : s.peer = (σ e).peer)
    (hqueue : s.listening = true → s.pending = [] ∨
      (σ e).listening = true ∧ s.pending.Sublist (σ e).pending) :
    QueuedOnce (update σ e s) := by
  refine h.of_sublist (fun x => ?_) (fun x => ?_) fun l hl => ?_
  · by_cases hx : x = e
    · rw [hx, update_self, hused]
    · rw [update_of_ne hx]
  · by_cases hx : x = e
    · rw [hx, update_self, hpeer]
    · rw [update_of_ne hx]
  · by_cases hl' : l = e
    · subst hl'
      rw [Live, update_self] at hl
      rw [update_self]
      exact (hqueue hl.2).imp id fun hq => ⟨⟨hused ▸ hl.1, hq.1⟩, hq.2⟩
    · rw [Live, update_of_ne hl'] at hl
      rw [update_of_ne hl']
      exact .inr ⟨hl, List.Sublist.refl _⟩

lemma peer_ne_unused (h : σ.QueuedOnce) (hfree : (σ v).used = false) (hx : (σ x).used = true) :
    (σ x).peer ≠ some v := by
  intro hp
  rw [(h.back x v hx hp).1] at hfree
  exact absurd hfree (by decide)

lemma not_pending_unused (h : σ.QueuedOnce) (hfree : (σ v).used = false) (hl : σ.Live l) :
    v ∉ (σ l).pending := by
  intro hv
  rw [h.queued l hl v hv] at hfree
  exact absurd hfree (by decide)

lemma create (h : σ.QueuedOnce) (hfree : (σ v).used = false) :
    QueuedOnce (Function.update σ v ⟨true, false, false, [], none, []⟩) := by
  have hlive : ∀ l, Live (Function.update σ v ⟨true, false, false, [], none, []⟩) l →
      l ≠ v ∧ σ.Live l := by
    intro l hl
    by_cases hlv : l = v
    · subst hlv
      simp [Live] at hl
    · rw [Live, update_of_ne hlv] at hl
      exact ⟨hlv, hl⟩
  refine ⟨⟨fun s p hs hp => ?_, fun s hs hp => ?_, fun l hl x hx => ?_⟩, fun l hl => ?_,
    fun l m hl hm hne x hx => ?_⟩
  · by_cases hsv : s = v
    · subst hsv
      simp at hp
    · rw [update_of_ne hsv] at hs hp
      have hpv : p ≠ v := fun heq => h.peer_ne_unused hfree hs (heq ▸ hp)
      rw [update_of_ne hpv]
      exact h.back s p hs hp
  · by_cases hsv : s = v
    · subst hsv
      simp at hp
    · rw [update_of_ne hsv] at hs hp
      exact h.not_self s hs hp
  · obtain ⟨hlv, hl⟩ := hlive l hl
    rw [update_of_ne hlv] at hx
    have hxv : x ≠ v := fun heq => h.not_pending_unused hfree hl (heq ▸ hx)
    rw [update_of_ne hxv]
    exact h.queued l hl x hx
  · obtain ⟨hlv, hl⟩ := hlive l hl
    rw [update_of_ne hlv]
    exact h.nodup l hl
  · obtain ⟨hlv, hl⟩ := hlive l hl
    obtain ⟨hmv, hm⟩ := hlive m hm
    rw [update_of_ne hlv] at hx
    rw [update_of_ne hmv]
    exact h.apart l m hl hm hne x hx

lemma connected (h : σ.QueuedOnce) (hused : (σ e).used = true) (hpeer : (σ e).peer = none)
    (hl : σ.Live l) (hfree : (σ v).used = false) :
    QueuedOnce (σ.connected e l v ((σ l).pending ++ [v])) := by
  have hev : e ≠ v := fun heq => by simp [heq, hfree] at hused
  have hlv : l ≠ v := fun heq => by simp [Live, heq, hfree] at hl
  have used := connected_used σ ((σ l).pending ++ [v]) hev hlv
  have peer := connected_peer σ ((σ l).pending ++ [v]) hev hlv
  have pending := connected_pending σ ((σ l).pending ++ [v]) hev hlv
  have live := connected_live σ ((σ l).pending ++ [v]) hev hlv
  -- an endpoint in a queue is the new one or was in the same queue before
  have hmem : ∀ m, σ.Live m → m ≠ v → ∀ x ∈ (σ.connected e l v ((σ l).pending ++ [v]) m).pending,
      x = v ∧ m = l ∨ x ∈ (σ m).pending := by
    intro m hm hmv x hx
    rw [pending, if_neg hmv] at hx
    split_ifs at hx with hml
    · subst hml
      rcases mem_append.mp hx with hx | hx
      · exact .inr hx
      · exact .inl ⟨mem_singleton.mp hx, rfl⟩
    · exact .inr hx
  refine ⟨⟨fun s p hs hp => ?_, fun s hs hp => ?_, fun m hm x hx => ?_⟩, fun m hm => ?_,
    fun m n hm hn hne x hx hx' => ?_⟩
  · rw [used] at hs
    rw [peer] at hp
    rw [used, peer]
    split_ifs at hs hp with hsv hse
    · obtain rfl := some.inj hp
      simp [hev, hused, hsv]
    · obtain rfl := some.inj hp
      simp [hse]
    · have hpv : p ≠ v := fun heq => h.peer_ne_unused hfree hs (heq ▸ hp)
      have hpe : p ≠ e := by
        rintro rfl
        rw [(h.back s p hs hp).2] at hpeer
        cases hpeer
      rw [if_neg hpv, if_neg hpv, if_neg hpe]
      exact h.back s p hs hp
  · rw [used] at hs
    rw [peer] at hp
    split_ifs at hs hp with hsv hse
    · exact hev ((some.inj hp).trans hsv)
    · exact hsv (some.inj hp).symm
    · exact h.not_self s hs hp
  · obtain ⟨hmv, hm⟩ := (live m).mp hm
    rw [used]
    rcases hmem m hm hmv x hx with ⟨rfl, -⟩ | hx
    · rw [if_pos rfl]
    · rw [h.queued m hm x hx]
      exact ite_self _
  · obtain ⟨hmv, hm⟩ := (live m).mp hm
    rw [pending, if_neg hmv]
    split_ifs with hml
    · exact nodup_append.mpr ⟨h.nodup l hl, nodup_singleton v, fun x hx y hy =>
        fun heq => h.not_pending_unused hfree hl (by rwa [heq, mem_singleton.mp hy] at hx)⟩
    · exact h.nodup m hm
  · obtain ⟨hmv, hm⟩ := (live m).mp hm
    obtain ⟨hnv, hn⟩ := (live n).mp hn
    rcases hmem m hm hmv x hx with ⟨hxv, hml⟩ | hx
    · rcases hmem n hn hnv x hx' with ⟨-, hnl⟩ | hx'
      · exact hne (hml.trans hnl.symm)
      · exact h.not_pending_unused hfree hn (hxv ▸ hx')
    · rcases hmem n hn hnv x hx' with ⟨hxv, -⟩ | hx'
      · exact h.not_pending_unused hfree hm (hxv ▸ hx)
      · exact h.apart m n hm hn hne x hx hx'

lemma connected_full (h : σ.QueuedOnce) (hused : (σ e).used = true) (hpeer : (σ e).peer = none)
    (hl : σ.Live l) (hfree : (σ v).used = false) :
    QueuedOnce (σ.connected e l v ((σ l).pending ++ [v])) ∧
      (σ.connected e l v ((σ l).pending ++ [v])).Live l ∧
      (σ.connected e l v ((σ l).pending ++ [v]) l).pending = (σ l).pending ++ [v] := by
  have hev : e ≠ v := fun heq => by simp [heq, hfree] at hused
  have hlv : l ≠ v := fun heq => by simp [Live, heq, hfree] at hl
  refine ⟨h.connected hused hpeer hl hfree, (connected_live σ _ hev hlv l).mpr ⟨hlv, hl⟩, ?_⟩
  rw [connected_pending σ _ hev hlv, if_pos rfl]

lemma requeue (h : QueuedOnce (σ.connected e l v queue)) (hl : (σ.connected e l v queue).Live l)
    {queue' : List SocketId} (hsub : queue'.Sublist (σ.connected e l v queue l).pending) :
    QueuedOnce (σ.connected e l v queue') := by
  rw [connected_requeue σ e l v queue queue']
  exact h.update rfl rfl fun _ => .inr ⟨hl.2, hsub⟩

lemma released (h : σ.QueuedOnce) (ha : σ.NotQueued a) : QueuedOnce (σ.released a) := by
  refine ⟨⟨fun s p hs hp => ?_, fun s hs hp => ?_, fun l hl x hx => ?_⟩, fun l hl => ?_,
    fun l m hl hm hne x hx => ?_⟩
  · obtain ⟨hsa, hs⟩ := released_used s hs
    rw [released_of_ne hsa, unlinked_apply] at hp
    split_ifs at hp with hlink
    obtain ⟨hpu, hps⟩ := h.back s p hs hp
    have hpa : p ≠ a := by
      rintro rfl
      exact hlink ⟨hps, hp⟩
    rw [(released_fields hpa).1, released_of_ne hpa, unlinked_apply, if_neg]
    · exact ⟨hpu, hps⟩
    · rintro ⟨-, hback⟩
      rw [hps] at hback
      exact hsa (some.inj hback)
  · obtain ⟨hsa, hs⟩ := released_used s hs
    rw [released_of_ne hsa, unlinked_apply] at hp
    split_ifs at hp with hlink
    exact h.not_self s hs hp
  · obtain ⟨hla, hl, hpending⟩ := released_live hl
    rw [hpending] at hx
    have hxa : x ≠ a := fun heq => ha l hla hl (heq ▸ hx)
    rw [(released_fields hxa).1]
    exact h.queued l hl x hx
  · obtain ⟨-, hl, hpending⟩ := released_live hl
    exact hpending ▸ h.nodup l hl
  · obtain ⟨-, hl, hpending⟩ := released_live hl
    obtain ⟨-, hm, hpending'⟩ := released_live hm
    rw [hpending] at hx
    rw [hpending']
    exact h.apart l m hl hm hne x hx

lemma step (h : σ.QueuedOnce) (hs : ShapeStep σ op σ')
    (hkeep : ∀ a, op = .release a → σ' ≠ σ → σ.NotQueued a) : σ'.QueuedOnce := by
  cases hs with
  | same => exact h
  | create hfree => exact h.create hfree
  | bind => exact h.update rfl rfl fun hl => .inr ⟨hl, List.Sublist.refl _⟩
  | listen => exact h.update rfl rfl fun _ => .inl rfl
  | connect hused hpeer hl hfree hqueue =>
    obtain ⟨hfull, hlive, hpending⟩ := h.connected_full hused hpeer ⟨hl.1, hl.2.1⟩ hfree
    refine hfull.requeue hlive ?_
    rw [hpending]
    rcases hqueue with rfl | rfl
    · exact List.Sublist.refl _
    · exact nil_sublist _
  | handOver hused hpeer hl hfree hqueue =>
    obtain ⟨hfull, hlive, hpending⟩ := h.connected_full hused hpeer ⟨hl.1, hl.2.1⟩ hfree
    refine hfull.requeue hlive ?_
    rw [hpending, hqueue]
    exact sublist_cons_self _ _
  | @refuse e l v a addr addrlen queue hused hpeer hl hfree hqueue =>
    obtain ⟨hfull, hlive, hpending⟩ := h.connected_full hused hpeer ⟨hl.1, hl.2.1⟩ hfree
    rw [hqueue] at hfull hlive hpending
    have hnext : QueuedOnce (σ.connected e l v queue) := by
      refine hfull.requeue hlive ?_
      rw [hpending]
      exact sublist_cons_self _ _
    refine hnext.released fun x _ hx hmem => ?_
    have hnodup := hfull.nodup l hlive
    rw [hpending] at hnodup
    rw [connected_requeue σ e l v (a :: queue) queue] at hx hmem
    by_cases hxl : x = l
    · subst hxl
      rw [update_self] at hmem
      exact (nodup_cons.mp hnodup).1 hmem
    · rw [Live, update_of_ne hxl] at hx
      rw [update_of_ne hxl] at hmem
      refine hfull.apart l x hlive hx (Ne.symm hxl) a ?_ hmem
      rw [hpending]
      exact mem_cons_self
  | accept hused hlistening hqueue =>
    refine h.update rfl rfl fun _ => .inr ⟨hlistening, ?_⟩
    rw [hqueue]
    exact sublist_cons_self _ _
  | unlinkPath => exact h.update rfl rfl fun hl => .inr ⟨hl, List.Sublist.refl _⟩
  | @release a hused =>
    by_cases hsame : σ.released a = σ
    · rw [hsame]
      exact h
    · exact h.released (hkeep a rfl hsame)

end QueuedOnce

end Shapes

namespace Kernel

variable {k k' : Kernel} {op : SocketOp} {e : SocketId} {ops : List SocketOp}

/-- No endpoint loses its last reference while it is queued at another live listener. -/
def KeepsQueued (k : Kernel) : SocketOp → Prop
  | .release e =>
    (k.sockets e).used = true → (k.sockets e).refcount ≤ 1 →
      ∀ x, x ≠ e → k.shapes.Live x → e ∉ (k.sockets x).pendingList
  | _ => True

instance decidableLiveShape (σ : Shapes) (l : SocketId) : Decidable (σ.Live l) :=
  inferInstanceAs (Decidable (_ ∧ _))

instance decidableKeepsQueued (k : Kernel) : ∀ op, Decidable (k.KeepsQueued op)
  | .release _ => inferInstanceAs (Decidable (_ → _))
  | .create .. | .bind .. | .listen .. | .connect .. | .accept _ | .send .. | .recv ..
  | .shutdown .. | .unlinkPath _ | .other _ => isTrue trivial

lemma queuedOnce_step (h : k.shapes.QueuedOnce) (hkeep : k.KeepsQueued op)
    (hs : k.socketStep op = some k') : k'.shapes.QueuedOnce := by
  refine h.step (step_shape hs) fun a hop hchanged => ?_
  subst hop
  rw [socketStep] at hs
  split_ifs at hs with hlive
  obtain rfl := some.inj hs
  refine hkeep hlive ?_
  by_contra hheld
  exact hchanged (shapes_socketRelease_held (by omega))

lemma keepsQueued_of_step (h : ∀ k', k.socketStep op = some k' → k'.shapes.PeersLinked) :
    k.KeepsQueued op := by
  cases op with
  | release e =>
    intro hused hlast x hx hlive hmem
    have hstep : k.socketStep (.release e) = some (k.socketRelease e) := if_pos hused
    have hlinked := h _ hstep
    rw [shapes_socketRelease_last hused hlast] at hlinked
    obtain ⟨hxu, hxl, hpending⟩ := Shapes.released_fields (σ := k.shapes) hx
    have hgone := hlinked.queued x ⟨hxu.trans hlive.1, hxl.trans hlive.2⟩ e (hpending ▸ hmem)
    exact (Shapes.released_used e hgone).1 rfl
  | _ => trivial

/-- **Linked peers.**  Peers are linked in every state of a run exactly if no step gives up the last
reference to an endpoint that waits at a live listener. -/
theorem peers_linked_iff (hstart : ∀ e, (k.sockets e).used = false) :
    (∀ ops₁, ops₁ <+: ops → ∀ k', run socketStep k ops₁ = some k' → k'.shapes.PeersLinked) ↔
      StepsMeet socketStep KeepsQueued k ops := by
  have hunused : ∀ {x}, (k.shapes x).used ≠ true := by
    intro x hx
    rw [show (k.shapes x).used = false from hstart x] at hx
    exact absurd hx (by decide)
  refine forall_prefix_iff_stepsMeet (P := fun k => k.shapes.QueuedOnce) queuedOnce_step
    (fun h => h.toPeersLinked) (fun _ h => keepsQueued_of_step h) ?_
  exact ⟨⟨fun s p hs => absurd hs hunused, fun s hs => absurd hs hunused,
    fun l hl => absurd hl.1 hunused⟩, fun l hl => absurd hl.1 hunused,
    fun l m hl => absurd hl.1 hunused⟩

/-- Endpoint 1 connects to endpoint 0; the server end is 2. -/
def connectOnce : List SocketOp :=
  [.create afUnix sockStream, .create afUnix sockStream, .bind 0 ⟨afUnix, [97#8]⟩ 110,
    .listen 0 1, .connect 1 ⟨afUnix, [97#8]⟩ 110]

/-- The connection is accepted and then both ends are closed. -/
theorem peers_linked_accepted :
    ∃ k', run socketStep (boot smallBoot blank)
        (connectOnce ++ [.accept 0, .release 2, .release 1]) = some k' ∧
      (k'.sockets 2).used = false ∧ k'.shapes.PeersLinked := by
  have hmeet : StepsMeet socketStep KeepsQueued (boot smallBoot blank)
      (connectOnce ++ [.accept 0, .release 2, .release 1]) := by decide +kernel
  have hrun : (run socketStep (boot smallBoot blank)
      (connectOnce ++ [.accept 0, .release 2, .release 1])).any
      (fun k => (k.sockets 2).used = false) = true := by decide +kernel
  obtain ⟨k', hk', hfree⟩ := (any_eq_true _ _).mp hrun
  exact ⟨k', hk', of_decide_eq_true hfree,
    (peers_linked_iff fun _ => rfl).mpr hmeet _ prefix_rfl k' hk'⟩

/-- The server end is released while it waits: the listener's queue names an endpoint that
is not in use. -/
theorem released_while_queued :
    ∃ k', run socketStep (boot smallBoot blank) (connectOnce ++ [.release 2]) = some k' ∧
      k'.shapes.Live 0 ∧ 2 ∈ (k'.sockets 0).pendingList ∧ (k'.sockets 2).used = false ∧
      ¬ k'.shapes.PeersLinked := by
  have hrun : (run socketStep (boot smallBoot blank) (connectOnce ++ [.release 2])).any
      (fun k => k.shapes.Live 0 ∧ 2 ∈ (k.sockets 0).pendingList ∧ (k.sockets 2).used = false) =
      true := by decide +kernel
  obtain ⟨k', hk', hqueued⟩ := (any_eq_true _ _).mp hrun
  obtain ⟨hlive, hmem, hfree⟩ := of_decide_eq_true hqueued
  refine ⟨k', hk', hlive, hmem, hfree, fun h => ?_⟩
  rw [show (k'.sockets 2).used = true from h.queued 0 hlive 2 hmem] at hfree
  exact absurd hfree (by decide)

end Kernel

end OpenHobbyOS
