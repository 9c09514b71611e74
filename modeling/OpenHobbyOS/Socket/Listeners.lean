/-
# One listener per path

`socket_bind` refuses a path on which another endpoint listens, but one that is only bound does not
count, and `socket_listen` makes no test.
-/
import OpenHobbyOS.Socket.Operations

namespace OpenHobbyOS

open Paging Lib MapSystem Function

namespace Shapes

variable {σ σ' : Shapes} {op : SocketOp} {e x y : SocketId}

/-- On each path that is not abstract at most one endpoint listens. -/
def OneListener (σ : Shapes) : Prop :=
  ∀ x y path, path ≠ [] → σ.Listens x path → σ.Listens y path → x = y

/-- The endpoint of a `listen` is not bound to a path on which another one listens. -/
def PathFree (σ : Shapes) : SocketOp → Prop
  | .listen e _ =>
    (σ e).bound = true → (σ e).path ≠ [] → ∀ x, x ≠ e → ¬ σ.Listens x (σ e).path
  | _ => True

lemma OneListener.of_imp (h : OneListener σ)
    (himp : ∀ x path, path ≠ [] → σ'.Listens x path → σ.Listens x path) : OneListener σ' :=
  fun x y path hpath hx hy => h x y path hpath (himp x path hpath hx) (himp y path hpath hy)

lemma OneListener.update (h : OneListener σ) {s : SocketShape}
    (hnew : ∀ x, x ≠ e → s.used = true → s.listening = true → s.bound = true → s.path ≠ [] →
      ¬ σ.Listens x s.path) : OneListener (Function.update σ e s) := by
  have hself : ∀ path, Listens (Function.update σ e s) e path →
      s.used = true ∧ s.listening = true ∧ s.bound = true ∧ s.path = path := by
    intro path hl
    simpa [Listens] using hl
  have hother : ∀ x path, x ≠ e → Listens (Function.update σ e s) x path → σ.Listens x path := by
    intro x path hx hl
    simpa [Listens, update_of_ne hx] using hl
  intro x y path hpath hx hy
  by_cases hxe : x = e <;> by_cases hye : y = e
  · exact hxe.trans hye.symm
  · subst hxe
    obtain ⟨hu, hlis, hb, rfl⟩ := hself path hx
    exact absurd (hother y _ hye hy) (hnew y hye hu hlis hb hpath)
  · subst hye
    obtain ⟨hu, hlis, hb, rfl⟩ := hself path hy
    exact absurd (hother x _ hxe hx) (hnew x hxe hu hlis hb hpath)
  · exact h x y path hpath (hother x path hxe hx) (hother y path hye hy)

lemma listens_connected {l v : SocketId} {queue : List SocketId} {path : List U8} (hpath : path ≠ [])
    (h : (σ.connected e l v queue).Listens x path) : σ.Listens x path := by
  simp only [Listens, connected, update_apply] at h
  split_ifs at h <;> simp_all [Listens]

lemma listens_unlinked {a : SocketId} {path : List U8} (h : (σ.unlinked a).Listens x path) :
    σ.Listens x path := by
  rw [unlinked] at h
  split at h
  · split_ifs at h
    · simp only [Listens, update_apply] at h
      split_ifs at h <;> simp_all [Listens]
    · exact h
  · exact h

lemma listens_released {a : SocketId} {path : List U8} (h : (σ.released a).Listens x path) :
    σ.Listens x path := by
  by_cases hx : x = a
  · subst hx
    simp [Listens, released] at h
  · refine listens_unlinked (a := a) ?_
    simpa [Listens, released, update_of_ne hx] using h

lemma OneListener.step (h : OneListener σ) (hs : ShapeStep σ op σ') (hfree : σ.PathFree op) :
    OneListener σ' := by
  cases hs with
  | same => exact h
  | create => exact h.update fun x _ _ hl => absurd hl (by simp)
  | bind hbound hnone => exact h.update fun x _ _ _ _ hpath => hnone hpath x
  | listen hused hbound => exact h.update fun x hx _ _ _ hpath => hfree hbound hpath x hx
  | connect => exact h.of_imp fun x path hpath => listens_connected hpath
  | handOver => exact h.of_imp fun x path hpath => listens_connected hpath
  | refuse => exact h.of_imp fun x path hpath hl => listens_connected hpath (listens_released hl)
  | accept =>
    exact h.update fun x hx hu hl hb hp hother => hx (h x _ _ hp hother ⟨hu, hl, hb, rfl⟩)
  | unlinkPath => exact h.update fun x _ _ _ hb => absurd hb (by simp)
  | release => exact h.of_imp fun x path _ => listens_released

end Shapes

namespace Kernel

variable {k k' : Kernel} {op : SocketOp} {e : SocketId} {ops : List SocketOp}

/-- One endpoint listens on a path, and it is the one `socket_connect` finds there. -/
structure ListenersApart (k : Kernel) : Prop where
  unique : k.shapes.OneListener
  found : ∀ path l, path ≠ [] → k.socketFindListenerByPath path = some l →
    ∀ x, k.shapes.Listens x path → x = l

/-- As `PathFree`, for a `listen` that goes through. -/
def FreeToListen (k : Kernel) : SocketOp → Prop
  | .listen e _ =>
    (k.sockets e).used = true → (k.sockets e).bound = true → (k.sockets e).type = sockStream →
      (k.sockets e).path ≠ [] → ∀ x, x ≠ e → ¬ k.shapes.Listens x (k.sockets e).path
  | _ => True

instance decidableListens (σ : Shapes) (x : SocketId) (path : List U8) :
    Decidable (σ.Listens x path) :=
  inferInstanceAs (Decidable (_ ∧ _))

instance decidableFreeToListen (k : Kernel) : ∀ op, Decidable (k.FreeToListen op)
  | .listen .. => inferInstanceAs (Decidable (_ → _))
  | .create .. | .bind .. | .connect .. | .accept _ | .send .. | .recv .. | .shutdown ..
  | .unlinkPath _ | .release _ | .other _ => isTrue trivial

lemma listenersApart_iff : k.ListenersApart ↔ k.shapes.OneListener := by
  refine ⟨ListenersApart.unique, fun h => ⟨h, fun path l hpath hl x hx => ?_⟩⟩
  exact h x l path hpath hx (socketFindListenerByPath_spec hl)

lemma listensWith_of_stream (backlog : ℤ) (hbound : (k.sockets e).bound = true)
    (hstream : (k.sockets e).type = sockStream) :
    ∃ b, (k.sockets e).listen backlog = ((k.sockets e).listensWith b, 0) := by
  have hzero : ((k.sockets e).listen backlog).2 = 0 := by
    rw [SocketEndpoint.listen, if_neg (by simp [hbound, hstream])]
  rcases (k.sockets e).listen_spec backlog with hfail | ⟨-, b, -, -, h⟩
  · rw [hfail] at hzero
    exact absurd hzero (show errInval ≠ 0 by decide)
  · exact ⟨b, h⟩

lemma oneListener_step (h : k.shapes.OneListener) (hfree : k.FreeToListen op)
    (hs : k.socketStep op = some k') : k'.shapes.OneListener := by
  have hshape := step_shape hs
  cases op with
  | listen e backlog =>
    by_cases hstream : (k.sockets e).type = sockStream
    · refine h.step hshape fun hbound hpath x hx => ?_
      have hused : (k.sockets e).used = true := by
        rw [socketStep] at hs
        split_ifs at hs with hlive
        exact hlive
      exact hfree hused hbound hstream hpath x hx
    · -- `socket_listen` fails
      rw [socketStep] at hs
      split_ifs at hs
      obtain rfl := Option.some.inj hs
      have hfail : (k.sockets e).listen backlog = (k.sockets e, errInval) := by
        rw [SocketEndpoint.listen, if_pos (.inr hstream)]
      rw [shapes_updSocket_same (by rw [hfail])]
      exact h
  | _ => exact h.step hshape trivial

lemma freeToListen_of_step (h : ∀ k', k.socketStep op = some k' → k'.shapes.OneListener) :
    k.FreeToListen op := by
  cases op with
  | listen e backlog =>
    intro hused hbound hstream hpath x hx hlistens
    obtain ⟨b, hb⟩ := listensWith_of_stream backlog hbound hstream
    have hstep : k.socketStep (.listen e backlog) =
        some (k.updSocket e fun s => (s.listen backlog).1) := if_pos hused
    have hone := h _ hstep
    rw [shapes_updSocket, hb] at hone
    refine hx (hone x e (k.sockets e).path hpath ?_ ?_)
    · simpa [Shapes.Listens, update_of_ne hx] using hlistens
    · simp [Shapes.Listens, SocketEndpoint.shape, SocketEndpoint.listensWith, hused, hbound]
  | _ => trivial

/-- **Unique listeners.**  The listeners are unique in every state of a run exactly if no `listen`
in it is for an endpoint whose path another endpoint listens on. -/
theorem listeners_apart_iff (hstart : ∀ e, (k.sockets e).used = false) :
    (∀ ops₁, ops₁ <+: ops → ∀ k', run socketStep k ops₁ = some k' → k'.ListenersApart) ↔
      StepsMeet socketStep FreeToListen k ops := by
  refine forall_prefix_iff_stepsMeet (P := fun k => k.shapes.OneListener) oneListener_step
    listenersApart_iff.mpr (fun _ h => freeToListen_of_step fun k' hs => (h k' hs).unique) ?_
  intro x y path _ hx
  exact absurd hx.1 (by simp [shapes, SocketEndpoint.shape, hstart x])

/-- Two sockets are created, bound and made to listen. -/
def twoListeners (path₀ path₁ : List U8) : List SocketOp :=
  [.create afUnix sockStream, .create afUnix sockStream, .bind 0 ⟨afUnix, path₀⟩ 110,
    .bind 1 ⟨afUnix, path₁⟩ 110, .listen 0 1, .listen 1 1]

/-- On two paths they are unique. -/
theorem listeners_apart_two_paths :
    ∃ k', run socketStep (boot smallBoot blank) (twoListeners [97#8] [98#8]) = some k' ∧
      k'.shapes.Listens 0 [97#8] ∧ k'.shapes.Listens 1 [98#8] ∧ k'.ListenersApart := by
  have hmeet : StepsMeet socketStep FreeToListen (boot smallBoot blank)
      (twoListeners [97#8] [98#8]) := by decide +kernel
  have hrun : (run socketStep (boot smallBoot blank) (twoListeners [97#8] [98#8])).any
      (fun k => k.shapes.Listens 0 [97#8] ∧ k.shapes.Listens 1 [98#8]) = true := by
    decide +kernel
  obtain ⟨k', hk', hlisten⟩ := Option.any_eq_true _ _ |>.mp hrun
  obtain ⟨h₀, h₁⟩ := of_decide_eq_true hlisten
  exact ⟨k', hk', h₀, h₁, (listeners_apart_iff fun _ => rfl).mpr hmeet _ List.prefix_rfl k' hk'⟩

/-- Two sockets can be bound to one path as long as neither listens; then both do. -/
theorem two_listen_on_one_path :
    ∃ k', run socketStep (boot smallBoot blank) (twoListeners [97#8] [97#8]) = some k' ∧
      k'.shapes.Listens 0 [97#8] ∧ k'.shapes.Listens 1 [97#8] ∧ ¬ k'.ListenersApart := by
  have hrun : (run socketStep (boot smallBoot blank) (twoListeners [97#8] [97#8])).any
      (fun k => k.shapes.Listens 0 [97#8] ∧ k.shapes.Listens 1 [97#8]) = true := by
    decide +kernel
  obtain ⟨k', hk', hlisten⟩ := Option.any_eq_true _ _ |>.mp hrun
  obtain ⟨h₀, h₁⟩ := of_decide_eq_true hlisten
  refine ⟨k', hk', h₀, h₁, fun h => ?_⟩
  exact absurd (h.unique 0 1 [97#8] (by decide) h₀ h₁) (by decide)

end Kernel

end OpenHobbyOS
