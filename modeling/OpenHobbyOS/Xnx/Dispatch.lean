/-
# One iteration of the main loop

The main loop writes down the indices of the clients, polls their descriptors, accepts a new client,
and goes through the indices.  An accepted client is put at the end of the table, and the last one
takes the place of one that is removed; so an index not yet reached holds the client it was written
down for, or nothing.
-/
import OpenHobbyOS.Xnx.Changes

namespace OpenHobbyOS.Xnx

open List hiding pure_def
open Lib Reading Option

/-! ## The source -/

/-- What `poll` reports for the listening socket, the standard input and the `i`-th tracked
client. -/
structure Polled where
  listener : Bool
  stdin : Bool
  ready : ℕ → Bool

/-- What happens outside during an iteration: `poll`, `accept`, `read`, and in the `i`-th turn over
the clients `recv` and the handler's calls. -/
structure Iteration where
  polled : Polled
  accept : Option ℤ
  typed : Option U32
  world : ℕ → Recv × Outside

/-- `client_slots`. -/
def clientSlots (s : Compositor) : List ℕ :=
  (range s.clients.length).filter fun i => (s.clients[i]?).any (·.active)

/-- A call of `read_client_data`: in which turn, and for which client. -/
structure Served where
  turn : ℕ
  client : Client

/-- One turn of the loop over the clients. -/
def serveTurn (it : Iteration) (st : Compositor × List Served) (slot : ℕ × ℕ) :
    Compositor × List Served :=
  match st.1.clients[slot.1]? with
  | none => st
  | some client =>
    if ¬client.active then st
    else if it.polled.ready slot.2 then
      (readClient st.1 slot.1 client (it.world slot.2).1 (it.world slot.2).2,
        st.2 ++ [⟨slot.2, client⟩])
    else st

/-- The compositor when the loop over the clients starts. -/
def beforeClients (s : Compositor) (it : Iteration) : Compositor :=
  let accepted := if it.polled.listener then
    it.accept.elim s fun fd => (addClient s fd).getD s else s
  -- the standard input is polled when there was a surface
  if s.surfaces ≠ [] ∧ it.polled.stdin then
    it.typed.elim accepted fun code => (sendKeyToFocus accepted code).1
  else accepted

/-- The iteration, up to `composite_surfaces`. -/
def iterate (s : Compositor) (it : Iteration) : Compositor × List Served :=
  (clientSlots s).zipIdx.foldl (serveTurn it) (beforeClients s it, [])

/-! ## What a turn does to the table of clients -/

variable {s s' : Compositor} {idx : ℕ} {client : Client} {it : Iteration}

/-- Behind the index `idx` entries may only have gone, from the end. -/
structure KeepsBehind (idx : ℕ) (l l' : List Client) : Prop where
  length_le : l'.length ≤ l.length
  behind : ∀ p, idx < p → ∀ c, l'[p]? = some c → l[p]? = some c

lemma KeepsBehind.refl (idx : ℕ) (l : List Client) : KeepsBehind idx l l :=
  ⟨le_rfl, fun _ _ _ h => h⟩

lemma KeepsBehind.trans {l l₁ l' : List Client} (h : KeepsBehind idx l l₁)
    (h' : KeepsBehind idx l₁ l') : KeepsBehind idx l l' :=
  ⟨h'.length_le.trans h.length_le, fun p hp c hc => h.behind p hp c (h'.behind p hp c hc)⟩

lemma KeepsBehind.set (idx : ℕ) (l : List Client) (c : Client) :
    KeepsBehind idx l (l.set idx c) := by
  refine ⟨(length_set).le, fun p hp d hd => ?_⟩
  rwa [getElem?_set_ne hp.ne] at hd

lemma KeepsBehind.swapRemove (idx : ℕ) (l : List Client) : KeepsBehind idx l (swapRemove l idx) := by
  rw [Lib.swapRemove]
  cases l.getLast? with
  | none => exact ⟨Nat.zero_le _, fun p _ c hc => absurd hc (by simp)⟩
  | some last =>
    refine (KeepsBehind.set idx l last).trans ⟨?_, fun p _ c hc => ?_⟩
    · rw [length_dropLast]
      exact Nat.sub_le _ _
    · rw [getElem?_dropLast] at hc
      split_ifs at hc
      exact hc

@[simp] lemma clients_ensureFocus (s : Compositor) : (ensureFocus s).clients = s.clients := by
  obtain ⟨id, heq⟩ := ensureFocus_eq s
  rw [heq]

@[simp] lemma clients_dropSurface (s : Compositor) (id : U32) :
    (dropSurface s id).clients = s.clients := by
  rw [dropSurface, clients_ensureFocus]
  cases findSurface s id <;> dsimp only <;> split_ifs <;> rfl

@[simp] lemma clients_focusSurface (s : Compositor) (i : ℕ) :
    (focusSurface s i).clients = s.clients := by
  rw [focusSurface]
  cases s.surfaces[i]? with
  | none => exact clients_ensureFocus s
  | some x => rfl

lemma keepsBehind_removeClient (s : Compositor) (idx : ℕ) :
    KeepsBehind idx s.clients (removeClient s idx).clients := by
  rw [removeClient]
  cases s.clients[idx]? with
  | none => exact .refl idx _
  | some client =>
    have hdrop : ∀ (ids : List U32) (s : Compositor),
        (ids.foldl dropSurface s).clients = s.clients := by
      intro ids
      induction ids with
      | nil => exact fun _ => rfl
      | cons id ids ih => exact fun s => (ih _).trans (clients_dropSurface s id)
    show KeepsBehind idx s.clients (swapRemove (client.surfaceIds.foldl dropSurface s).clients idx)
    rw [hdrop]
    exact .swapRemove idx _

lemma clients_setGeometry (s : Compositor) (fd : ℤ) (px : Pixman) (f : ℕ → U8) :
    (run f (handleSetGeometry s fd px)).clients = s.clients := by
  rw [handleSetGeometry, run_bind]
  cases ownSurface s fd (run f (payloadU32 0)) with
  | none => rfl
  | some own => simp only [run_bind, run_pure]

lemma clients_setTitle (s : Compositor) (fd : ℤ) (f : ℕ → U8) :
    (run f (handleSetTitle s fd)).clients = s.clients := by
  rw [handleSetTitle, run_bind]
  cases ownSurface s fd (run f (payloadU32 0)) with
  | none => rfl
  | some own => simp only [run_bind, run_pure]

lemma clients_writeBuffer (s : Compositor) (fd : ℤ) (f : ℕ → U8) :
    (run f (handleWriteBuffer s fd)).clients = s.clients := by
  rw [handleWriteBuffer, run_bind]
  cases ownSurface s fd (run f (payloadU32 0)) with
  | none => rfl
  | some own =>
    dsimp only
    cases own.2.image with
    | none => rfl
    | some image =>
      simp only [run_bind]
      by_cases hsize : run f (payloadU32 12) = 0 ∨ run f (payloadU32 16) = 0
      · rw [if_pos hsize, run_pure]
      rw [if_neg hsize, run_bind, run_bind]
      by_cases hplace : own.2.width ≤ run f (payloadU32 4) ∨ own.2.height ≤ run f (payloadU32 8)
      · rw [if_pos hplace, run_pure]
      rw [if_neg hplace]
      split_ifs
      · rw [run_pure]
      · rw [run_bind, run_pure]

lemma keepsBehind_createSurface {width height : U32} {px : Pixman} {id : U32}
    (h : createSurface s idx width height px = some (s', id)) :
    KeepsBehind idx s.clients s'.clients := by
  rw [createSurface, bind_eq_bind, bind_eq_some_iff] at h
  obtain ⟨client, hclient, h⟩ := h
  split_ifs at h
  rw [bind_eq_bind, bind_eq_some_iff] at h
  obtain ⟨image, -, h⟩ := h
  simp only [pure_def, some.injEq, Prod.mk.injEq, clients_focusSurface] at h
  rw [← h.1]
  exact .set idx _ _

lemma Handles.keepsBehind {out : Outside} {f : ℕ → U8} {r : Option Request} {top : Option U32}
    {h : Handled} (hh : Handles s idx client out f r top h) :
    KeepsBehind idx s.clients h.comp.clients := by
  have hsame : ∀ {l : List Client}, l = s.clients → KeepsBehind idx s.clients l := by
    rintro l rfl
    exact .refl idx _
  cases hh with
  | refused | info => exact hsame rfl
  | create hcreate => exact keepsBehind_createSurface hcreate
  | destroy hclients =>
    rw [clients_dropSurface] at hclients
    rcases hclients with rfl | ⟨c, rfl⟩
    · exact hsame rfl
    · exact .set idx _ c
  | title => exact hsame (clients_setTitle s client.fd f)
  | geometry => exact hsame (clients_setGeometry s client.fd out.pixman f)
  | buffer => exact hsame (clients_writeBuffer s client.fd f)
  | @commit _ i => exact hsame (clients_focusSurface s i)

/-- **One turn**: reading from a client, and removing it. -/
lemma keepsBehind_readClient (s : Compositor) (idx : ℕ) (client : Client) (recv : Recv)
    (out : Outside) : KeepsBehind idx s.clients (readClient s idx client recv out).clients := by
  have hset : KeepsBehind idx s.clients
      (s.clients.set idx { client with reader := (readClientData client.reader recv).1 }) :=
    .set idx _ _
  rw [readClient]
  dsimp only
  generalize hs₁ : ({ s with clients := (s.clients.set idx
    { client with reader := (readClientData client.reader recv).1 }) } : Compositor) = s₁
  have hset : KeepsBehind idx s.clients s₁.clients := hs₁ ▸ hset
  cases (readClientData client.reader recv).2 with
  | error => exact hset.trans (keepsBehind_removeClient s₁ idx)
  | done => exact hset
  | handle =>
    have hhandle := hset.trans (handles_handle s₁ idx
      { client with reader := (readClientData client.reader recv).1 }
      (readClientData client.reader recv).1.type (readClientData client.reader recv).1.payloadSize
      out (readClientData client.reader recv).1.readBuf).keepsBehind
    dsimp only
    split_ifs
    · exact hhandle
    · exact hhandle.trans (keepsBehind_removeClient _ idx)

/-! ## The loop over the clients -/

/-- The entries for the turns to come are those of `l`, if they are still there. -/
def Pending (l : List Client) (slots : List (ℕ × ℕ)) (s : Compositor) : Prop :=
  ∀ slot ∈ slots, ∀ c, s.clients[slot.1]? = some c → l[slot.1]? = some c ∧ c.active = true

/-- `recv` returns no more in a turn than the client of the table `l` asks for. -/
def Iteration.Gives (it : Iteration) (l : List Client) (slot : ℕ × ℕ) : Prop :=
  it.polled.ready slot.2 = true → ∀ c, l[slot.1]? = some c →
    (it.world slot.2).1.Possible c.reader.needed

/-- What the calls are, in the turns of `slots`. -/
structure ServesRight (it : Iteration) (l : List Client) (slots : List (ℕ × ℕ))
    (s : Compositor) (calls : List Served) : Prop where
  own : ∀ call ∈ calls, it.polled.ready call.turn = true ∧
    ∃ slot, (slot, call.turn) ∈ slots ∧ l[slot]? = some call.client
  once : (calls.map (·.turn)).Pairwise (· < ·)
  all : ∀ slot ∈ slots, it.polled.ready slot.2 = true →
    slot.2 ∈ calls.map (·.turn) ∨ s.clients.length ≤ slot.1

variable (it) in
lemma servesRight_foldl {l : List Client} {slots : List (ℕ × ℕ)}
    (hslots : slots.Pairwise fun a b => a.1 < b.1 ∧ a.2 < b.2) (hpending : Pending l slots s)
    (calls : List Served) :
    ∃ new, (slots.foldl (serveTurn it) (s, calls)).2 = calls ++ new ∧
      ServesRight it l slots (slots.foldl (serveTurn it) (s, calls)).1 new ∧
      (slots.foldl (serveTurn it) (s, calls)).1.clients.length ≤ s.clients.length ∧
      ((∀ slot ∈ slots, it.Gives l slot) → ∃ events,
        run compositorStep s events = some (slots.foldl (serveTurn it) (s, calls)).1) := by
  induction slots generalizing s calls with
  | nil =>
    refine ⟨[], (append_nil _).symm, ⟨?_, List.Pairwise.nil, ?_⟩, le_rfl, fun _ => ⟨[], rfl⟩⟩
    · exact fun call hcall => absurd hcall not_mem_nil
    · exact fun slot hslot => absurd hslot not_mem_nil
  | cons slot slots ih =>
    obtain ⟨hfirst, hrest⟩ := pairwise_cons.mp hslots
    have hlater : Pending l slots s := fun b hb => hpending b (mem_cons_of_mem slot hb)
    rw [foldl_cons]
    have hturn : (serveTurn it (s, calls) slot = (s, calls) ∧
          (it.polled.ready slot.2 = true → s.clients.length ≤ slot.1)) ∨
        ∃ client, s.clients[slot.1]? = some client ∧ client.active = true ∧
          l[slot.1]? = some client ∧ it.polled.ready slot.2 = true ∧
          serveTurn it (s, calls) slot =
            (readClient s slot.1 client (it.world slot.2).1 (it.world slot.2).2,
              calls ++ [⟨slot.2, client⟩]) := by
      cases hclient : s.clients[slot.1]? with
      | none =>
        -- the client has been moved or removed
        refine .inl ⟨?_, fun _ => getElem?_eq_none_iff.mp hclient⟩
        simp only [serveTurn, hclient]
      | some client =>
        obtain ⟨hl, hactive⟩ := hpending slot mem_cons_self client hclient
        by_cases hready : it.polled.ready slot.2 = true
        · refine .inr ⟨client, rfl, hactive, hl, hready, ?_⟩
          simp only [serveTurn, hclient, hactive, hready, not_true_eq_false, if_false, if_true]
        · refine .inl ⟨?_, fun h => absurd h hready⟩
          simp only [serveTurn, hclient, hactive, hready, not_true_eq_false, if_false,
            Bool.false_eq_true]
    rcases hturn with ⟨hturn, hgone⟩ | ⟨client, hclient, hactive, hl, hready, hturn⟩
    · rw [hturn]
      obtain ⟨new, hnew, hright, hlen, hrun⟩ := ih hrest hlater calls
      refine ⟨new, hnew, ⟨fun call hcall => ?_, hright.once, ?_⟩, hlen, fun hgives =>
        hrun fun b hb => hgives b (mem_cons_of_mem slot hb)⟩
      · obtain ⟨hready, b, hb, hl⟩ := hright.own call hcall
        exact ⟨hready, b, mem_cons_of_mem slot hb, hl⟩
      · rw [forall_mem_cons]
        exact ⟨fun hready => Or.inr (hlen.trans (hgone hready)), hright.all⟩
    · -- it is served, and nothing behind it changes
      rw [hturn]
      have hkeeps :=
        keepsBehind_readClient s slot.1 client (it.world slot.2).1 (it.world slot.2).2
      obtain ⟨new, hnew, hright, hlen, hrun⟩ := ih hrest (fun b hb c hc =>
        hlater b hb c (hkeeps.behind b.1 (hfirst b hb).1 c hc)) (calls ++ [⟨slot.2, client⟩])
      refine ⟨⟨slot.2, client⟩ :: new, ?_, ⟨?_, ?_, ?_⟩, hlen.trans hkeeps.length_le, ?_⟩
      · rw [hnew, append_assoc, singleton_append]
      · rw [forall_mem_cons]
        refine ⟨⟨hready, slot.1, mem_cons_self, hl⟩, fun call hcall => ?_⟩
        obtain ⟨hready, b, hb, hl⟩ := hright.own call hcall
        exact ⟨hready, b, mem_cons_of_mem slot hb, hl⟩
      · rw [map_cons, pairwise_cons]
        refine ⟨fun turn hturn => ?_, hright.once⟩
        obtain ⟨call, hcall, rfl⟩ := mem_map.mp hturn
        obtain ⟨-, b, hb, -⟩ := hright.own call hcall
        exact (hfirst _ hb).2
      · rw [forall_mem_cons]
        refine ⟨fun _ => Or.inl mem_cons_self, fun b hb hready => ?_⟩
        exact (hright.all b hb hready).imp_left (mem_cons_of_mem _)
      · intro hgives
        obtain ⟨events, hevents⟩ := hrun fun b hb => hgives b (mem_cons_of_mem slot hb)
        refine ⟨.read slot.1 (it.world slot.2).1 (it.world slot.2).2 :: events, ?_⟩
        rw [run_cons_of_eq, hevents]
        simp only [compositorStep, hclient]
        exact if_pos ⟨hactive, hgives slot mem_cons_self hready client hl⟩

lemma clients_beforeClients (s : Compositor) (it : Iteration) {i : ℕ}
    (hi : i < s.clients.length) : (beforeClients s it).clients[i]? = s.clients[i]? := by
  -- an accepted client is put behind the others
  have haccepted : ∀ fd, ((addClient s fd).getD s).clients[i]? = s.clients[i]? := by
    intro fd
    rw [addClient]
    split_ifs
    · rfl
    · exact getElem?_append_left hi
  have hkey : ∀ (s₁ : Compositor) (code : U32), (sendKeyToFocus s₁ code).1.clients = s₁.clients := by
    intro s₁ code
    rw [sendKeyToFocus]
    cases (ensureFocus s₁).surfaces.find? (·.id = (ensureFocus s₁).focusedSurfaceId) <;>
      exact clients_ensureFocus s₁
  have haccept : (if it.polled.listener then
      it.accept.elim s fun fd => (addClient s fd).getD s else s).clients[i]? = s.clients[i]? := by
    split_ifs
    · cases it.accept with
      | none => rfl
      | some fd => exact haccepted fd
    · rfl
  by_cases hstdin : s.surfaces ≠ [] ∧ it.polled.stdin
  · rw [beforeClients, if_pos hstdin]
    cases it.typed with
    | none => exact haccept
    | some code =>
      rw [elim_some, hkey]
      exact haccept
  · rw [beforeClients, if_neg hstdin]
    exact haccept

lemma mem_clientSlots {slot : ℕ} (h : slot ∈ clientSlots s) :
    ∃ c, s.clients[slot]? = some c ∧ c.active = true := by
  rw [clientSlots, mem_filter] at h
  cases hc : s.clients[slot]? with
  | none =>
    rw [hc] at h
    exact absurd h.2 (by simp)
  | some c =>
    rw [hc] at h
    exact ⟨c, rfl, h.2⟩

lemma pending_beforeClients (s : Compositor) (it : Iteration) :
    Pending s.clients (clientSlots s).zipIdx (beforeClients s it) := by
  intro slot hslot c hc
  obtain ⟨c₀, hc₀, hactive⟩ := mem_clientSlots (fst_mem_of_mem_zipIdx hslot)
  rw [clients_beforeClients s it (List.getElem?_eq_some_iff.mp hc₀).1, hc₀,
    some.injEq] at hc
  exact ⟨hc ▸ hc₀, hc ▸ hactive⟩

lemma pairwise_clientSlots (s : Compositor) :
    (clientSlots s).zipIdx.Pairwise fun a b => a.1 < b.1 ∧ a.2 < b.2 := by
  have hsorted : (clientSlots s).Pairwise (· < ·) := pairwise_lt_range.filter _
  rw [pairwise_iff_getElem] at hsorted ⊢
  intro i j hi hj hij
  rw [length_zipIdx] at hi hj
  rw [getElem_zipIdx, getElem_zipIdx]
  exact ⟨hsorted i j hi hj hij, by omega⟩

/-- **Dispatch.**  In an iteration, `read_client_data` is called only for clients whose own
descriptor was ready, once at most, and for all of them whose index is still in use at the end. -/
theorem dispatch_right (s : Compositor) (it : Iteration) :
    (∀ call ∈ (iterate s it).2, it.polled.ready call.turn = true ∧
      ∃ slot, (clientSlots s)[call.turn]? = some slot ∧ s.clients[slot]? = some call.client) ∧
    ((iterate s it).2.map (·.turn)).Pairwise (· < ·) ∧
    ∀ i slot, (clientSlots s)[i]? = some slot → it.polled.ready i = true →
      slot < (iterate s it).1.clients.length → i ∈ (iterate s it).2.map (·.turn) := by
  obtain ⟨new, hnew, hright, -⟩ :=
    servesRight_foldl it (pairwise_clientSlots s) (pending_beforeClients s it) []
  rw [nil_append] at hnew
  rw [iterate, hnew]
  refine ⟨fun call hcall => ?_, hright.once, fun i slot hslot hready hlt => ?_⟩
  · obtain ⟨hready, slot, hslot, hclient⟩ := hright.own call hcall
    exact ⟨hready, slot, mem_zipIdx_iff_getElem?.mp hslot, hclient⟩
  · exact (hright.all (slot, i) (mem_zipIdx_iff_getElem?.mpr hslot) hready).resolve_right
      (not_le.mpr hlt)

/-- A new connection gets a descriptor that is not open, and no client more bytes than are asked
for. -/
def Iteration.Possible (it : Iteration) (s : Compositor) : Prop :=
  (∀ fd ∈ it.accept, 0 ≤ fd ∧ fd ∉ s.clients.map (·.fd)) ∧
    ∀ slot ∈ (clientSlots s).zipIdx, it.Gives s.clients slot

/-- A client that has sent nothing. -/
def idleClient (fd : ℤ) (id : U32) : Client :=
  ⟨fd, id, [], ⟨fun _ => 0, fun _ => 0, 0, .header⟩, true⟩

/-- Three clients are ready and a fourth is accepted; the first and the second have closed, so the
fourth and the third take their places. -/
theorem dispatch_two_closed :
    let s : Compositor :=
      ⟨[], 0, 1, [idleClient 5 1, idleClient 6 2, idleClient 7 3], 3, 640, 480, 0⟩
    let it : Iteration :=
      ⟨⟨true, false, fun _ => true⟩, some 8, none, fun _ => (.closed, plainOutside)⟩
    (iterate s it).2.map (fun call => (call.turn, call.client.fd)) = [(0, 5), (1, 6)] ∧
    (iterate s it).1.clients.map (·.fd) = [8, 7] ∧
    ((iterate s it).2.map (·.turn)).Pairwise (· < ·) := by
  intro s it
  refine ⟨by decide +kernel, by decide +kernel, ?_⟩
  exact (dispatch_right s it).2.1

end OpenHobbyOS.Xnx
