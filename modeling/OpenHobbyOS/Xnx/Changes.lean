/-
# What an event does to the surfaces

An event of the main loop changes the table of surfaces in one of four ways: surfaces go, one is
edited in place, one is raised above all others, or a new one is put on top.  `Changes` leaves out
what the painting does not depend on: the focus and the clients.
-/
import OpenHobbyOS.Xnx.Compositor

namespace OpenHobbyOS.Xnx

open List hiding pure_def
open Lib Reading Option

/-- A surface that can be drawn: it is visible and has an image of its size in memory. -/
structure Surface.Sized (x : Surface) : Prop where
  visible : x.visible = true
  image : ∃ image, x.image = some image ∧ image.width = x.width ∧ image.height = x.height ∧
    image.Fits
  pos : 0 < x.width.toNat ∧ 0 < x.height.toNat

variable {s s' s₁ : Compositor} {i idx size : ℕ} {x x' : Surface} {id type : U32} {fd : ℤ}
  {client : Client} {out : Outside} {f : ℕ → U8} {px : Pixman}

lemma Surface.Sized.shown (h : x.Sized) : x.Shown := by
  obtain ⟨image, himage, -⟩ := h.image
  exact ⟨h.visible, by rw [himage]; rfl⟩

/-- Some surfaces are gone. -/
structure Fewer (s s' : Compositor) : Prop where
  subperm : s'.surfaces.Subperm s.surfaces
  nextZOrder : s'.nextZOrder = s.nextZOrder
  nextSurfaceId : s'.nextSurfaceId = s.nextSurfaceId

lemma Fewer.refl (s : Compositor) : Fewer s s := ⟨.refl _, rfl, rfl⟩

lemma Fewer.trans (h : Fewer s s₁) (h' : Fewer s₁ s') : Fewer s s' :=
  ⟨h'.subperm.trans h.subperm, h'.nextZOrder.trans h.nextZOrder,
    h'.nextSurfaceId.trans h.nextSurfaceId⟩

/-- One change; the first argument is the surface that comes to stand on top of the others. -/
inductive Changes (s : Compositor) : Option U32 → Compositor → Prop
  | fewer {s' : Compositor} (h : Fewer s s') : Changes s none s'
  | edit {s' : Compositor} {i : ℕ} {x x' : Surface} (hx : s.surfaces[i]? = some x)
      (hid : x'.id = x.id) (hfd : x'.clientFd = x.clientFd) (hz : x'.zOrder = x.zOrder)
      (hsized : x.Sized → x'.Sized)
      (hsurfaces : s'.surfaces = s.surfaces.set i x') (hnextz : s'.nextZOrder = s.nextZOrder)
      (hnext : s'.nextSurfaceId = s.nextSurfaceId) : Changes s none s'
  | raise {s' : Compositor} {i : ℕ} {x : Surface} (hx : s.surfaces[i]? = some x)
      (hsurfaces : s'.surfaces = s.surfaces.set i { x with zOrder := s.nextZOrder })
      (hz : s'.nextZOrder = s.nextZOrder + 1) (hnext : s'.nextSurfaceId = s.nextSurfaceId) :
      Changes s (some x.id) s'
  | create {s' : Compositor} {x : Surface} (hid : x.id = s.nextSurfaceId + 1)
      (hz : x.zOrder = s.nextZOrder) (hsized : x.Sized)
      (hsurfaces : s'.surfaces = s.surfaces ++ [x]) (hnextz : s'.nextZOrder = s.nextZOrder + 1)
      (hnext : s'.nextSurfaceId = x.id) : Changes s (some x.id) s'

lemma Changes.refl (s : Compositor) : Changes s none s := .fewer (.refl s)

/-! ## Surfaces that go -/

lemma ensureFocus_eq (s : Compositor) : ∃ id, ensureFocus s = { s with focusedSurfaceId := id } := by
  rw [ensureFocus]
  cases s.surfaces.find? (·.id = s.focusedSurfaceId) with
  | none => exact ⟨_, rfl⟩
  | some x =>
    dsimp only
    split_ifs
    · exact ⟨_, rfl⟩
    · exact ⟨_, rfl⟩

lemma fewer_ensureFocus (s : Compositor) : Fewer s (ensureFocus s) := by
  obtain ⟨id, heq⟩ := ensureFocus_eq s
  rw [heq]
  exact ⟨.refl _, rfl, rfl⟩

lemma findSurface_some (h : findSurface s id = some i) :
    ∃ x, s.surfaces[i]? = some x ∧ x.id = id := by
  rw [findSurface, findIdx?_eq_some_iff_getElem] at h
  obtain ⟨hi, hid, -⟩ := h
  exact ⟨s.surfaces[i], getElem?_eq_getElem hi, by simpa using hid⟩

lemma fewer_dropSurface (s : Compositor) (id : U32) : Fewer s (dropSurface s id) := by
  have hfocus : ∀ s₁ : Compositor, Fewer s₁ (ensureFocus
      (if s₁.focusedSurfaceId = id then { s₁ with focusedSurfaceId := 0 } else s₁)) := by
    intro s₁
    refine Fewer.trans ?_ (fewer_ensureFocus _)
    split_ifs
    · exact ⟨.refl _, rfl, rfl⟩
    · exact .refl s₁
  rw [dropSurface]
  cases hfind : findSurface s id with
  | none => exact hfocus s
  | some i =>
    obtain ⟨x, hx, -⟩ := findSurface_some hfind
    obtain ⟨hi, -⟩ := List.getElem?_eq_some_iff.mp hx
    have hdrop : Fewer s { s with surfaces := swapRemove s.surfaces i } :=
      ⟨(swapRemove_perm hi).subperm.trans (s.surfaces.eraseIdx_sublist i).subperm, rfl, rfl⟩
    exact hdrop.trans (hfocus _)

lemma fewer_foldl_dropSurface (s : Compositor) (ids : List U32) :
    Fewer s (ids.foldl dropSurface s) := by
  induction ids generalizing s with
  | nil => exact .refl s
  | cons id ids ih => exact (fewer_dropSurface s id).trans (ih _)

lemma fewer_removeClient (s : Compositor) (idx : ℕ) : Fewer s (removeClient s idx) := by
  rw [removeClient]
  cases s.clients[idx]? with
  | none => exact .refl s
  | some client =>
    obtain ⟨hsub, hz, hnext⟩ := fewer_foldl_dropSurface s client.surfaceIds
    exact ⟨hsub, hz, hnext⟩

lemma map_set_same {α β : Type} (f : α → β) {l : List α} {i : ℕ} {x x' : α} (hx : l[i]? = some x)
    (h : f x' = f x) : (l.set i x').map f = l.map f := by
  obtain ⟨hi, hxi⟩ := List.getElem?_eq_some_iff.mp hx
  have hlen : i < (l.map f).length := by rwa [length_map]
  have hfi : (l.map f)[i] = f x := by rw [getElem_map, hxi]
  rw [map_set, h, ← hfi, set_getElem_self hlen]

/-! ## Surfaces that change or come -/

lemma ownSurface_eq_some : ownSurface s fd id = some (i, x) ↔
    findSurface s id = some i ∧ s.surfaces[i]? = some x ∧ x.clientFd = fd := by
  rw [ownSurface, bind_eq_bind]
  constructor
  · intro h
    obtain ⟨j, hfind, h⟩ := bind_eq_some_iff.mp h
    obtain ⟨y, hy, h⟩ := bind_eq_some_iff.mp h
    split_ifs at h with hfd
    rw [some.injEq, Prod.mk.injEq] at h
    obtain ⟨rfl, rfl⟩ := h
    exact ⟨hfind, hy, not_not.mp hfd⟩
  · rintro ⟨hfind, hx, hfd⟩
    rw [hfind, bind_some, hx, bind_eq_bind, bind_some,
      if_neg (not_not.mpr hfd)]

lemma ownSurface_some (h : ownSurface s fd id = some (i, x)) :
    s.surfaces[i]? = some x ∧ x.id = id ∧ x.clientFd = fd := by
  obtain ⟨hfind, hx, hfd⟩ := ownSurface_eq_some.mp h
  obtain ⟨z, hz, hid⟩ := findSurface_some hfind
  rw [hx, some.injEq] at hz
  exact ⟨hx, hz ▸ hid, hfd⟩

lemma Image.Fits.composite {image : Image} (h : image.Fits) (px : Pixman) (op : Operator)
    (src : Image) (b : Blit) : (px.composite op src image b).Fits := by
  obtain ⟨hwidth, hheight, hstride⟩ := px.composite_size op src image b
  have hrow : (px.composite op src image b).row = image.row := by
    rw [Image.row, hstride, Image.row]
  exact ⟨by rw [hrow, hwidth]; exact h.width_le, by rw [hrow, hheight]; exact h.lt⟩

lemma Surface.Sized.setGeometry (h : x.Sized) (px : Pixman) (left top width height : U32) :
    (x.setGeometry left top width height px).Sized := by
  have hplace : ({ x with x := left, y := top } : Surface).Sized := ⟨h.visible, h.image, h.pos⟩
  obtain ⟨old, hold, -⟩ := h.image
  rw [Surface.setGeometry]
  dsimp only
  split_ifs with hsize
  · cases himage : px.createBits width height with
    | none => exact hplace
    | some image =>
      obtain ⟨hwidth, hheight⟩ := px.createBits_size himage
      have hfits := px.createBits_fits himage
      rw [hold]
      refine ⟨h.visible, ⟨_, rfl, ?_, ?_, ?_⟩, ⟨hsize.1, hsize.2.1⟩⟩
      · exact (px.composite_size _ _ _ _).1.trans hwidth
      · exact (px.composite_size _ _ _ _).2.1.trans hheight
      · exact hfits.composite px _ _ _
  · exact hplace

lemma Surface.setGeometry_same (x : Surface) (px : Pixman) (left top width height : U32) :
    (x.setGeometry left top width height px).id = x.id ∧
      (x.setGeometry left top width height px).clientFd = x.clientFd ∧
      (x.setGeometry left top width height px).zOrder = x.zOrder := by
  rw [Surface.setGeometry]
  dsimp only
  split_ifs
  · cases px.createBits width height <;> exact ⟨rfl, rfl, rfl⟩
  · exact ⟨rfl, rfl, rfl⟩

lemma changes_setGeometry (s : Compositor) (fd : ℤ) (px : Pixman) :
    Changes s none (run f (handleSetGeometry s fd px)) := by
  rw [handleSetGeometry, run_bind]
  cases hown : ownSurface s fd (run f (payloadU32 0)) with
  | none => exact .refl s
  | some own =>
    obtain ⟨i, x⟩ := own
    simp only [run_bind, run_pure]
    obtain ⟨hid, hfd, hz⟩ := x.setGeometry_same px (run f (payloadU32 4)) (run f (payloadU32 8))
      (run f (payloadU32 12)) (run f (payloadU32 16))
    exact .edit (ownSurface_some hown).1 hid hfd hz (fun h => h.setGeometry px _ _ _ _) rfl rfl rfl

lemma changes_setTitle (s : Compositor) (fd : ℤ) :
    Changes s none (run f (handleSetTitle s fd)) := by
  rw [handleSetTitle, run_bind]
  cases hown : ownSurface s fd (run f (payloadU32 0)) with
  | none => exact .refl s
  | some own =>
    obtain ⟨i, x⟩ := own
    simp only [run_bind, run_pure]
    refine .edit (ownSurface_some hown).1 ?_ ?_ ?_ (fun h => ?_) rfl rfl rfl
    iterate 3 rfl
    exact ⟨h.visible, h.image, h.pos⟩

lemma changes_writeBuffer (s : Compositor) (fd : ℤ) :
    Changes s none (run f (handleWriteBuffer s fd)) := by
  rw [handleWriteBuffer, run_bind]
  cases hown : ownSurface s fd (run f (payloadU32 0)) with
  | none => exact .refl s
  | some own =>
    obtain ⟨i, x⟩ := own
    dsimp only
    cases himage : x.image with
    | none => exact .refl s
    | some image =>
      simp only [run_bind]
      by_cases hsize : run f (payloadU32 12) = 0 ∨ run f (payloadU32 16) = 0
      · rw [if_pos hsize]
        exact .refl s
      rw [if_neg hsize, run_bind, run_bind]
      by_cases hplace : x.width ≤ run f (payloadU32 4) ∨ x.height ≤ run f (payloadU32 8)
      · rw [if_pos hplace]
        exact .refl s
      rw [if_neg hplace]
      split_ifs
      · exact .refl s
      rw [run_bind]
      refine .edit (ownSurface_some hown).1 ?_ ?_ ?_ (fun h => ?_) rfl rfl rfl
      iterate 3 rfl
      refine ⟨h.visible, ?_, h.pos⟩
      obtain ⟨old, hold, hw, hh, hfits⟩ := h.image
      rw [himage, some.injEq] at hold
      subst hold
      exact ⟨_, rfl, hw, hh, hfits.width_le, hfits.lt⟩

/-- **A new surface**: it is the client's, and put on top. -/
lemma createSurface_some {width height : U32}
    (h : createSurface s idx width height px = some (s', id)) :
    ∃ client image, s.clients[idx]? = some client ∧ px.createBits width height = some image ∧
      0 < width.toNat ∧ 0 < height.toNat ∧ id = s.nextSurfaceId + 1 ∧
      s'.surfaces = s.surfaces ++ [⟨id, client.fd, some image, 0, 0, width, height,
        replicate 64 0, s.nextZOrder, true⟩] ∧
      s'.nextZOrder = s.nextZOrder + 1 ∧ s'.nextSurfaceId = id := by
  rw [createSurface, bind_eq_bind, bind_eq_some_iff] at h
  obtain ⟨client, hclient, h⟩ := h
  split_ifs at h with hroom hsize
  rw [bind_eq_bind, bind_eq_some_iff] at h
  obtain ⟨image, himage, h⟩ := h
  simp only [pure_def, some.injEq, Prod.mk.injEq] at h
  obtain ⟨rfl, rfl⟩ := h
  simp only [not_or] at hsize
  refine ⟨client, image, hclient, himage, ?_, ?_, rfl, ?_, ?_, ?_⟩
  · exact Nat.pos_of_ne_zero fun h => hsize.1 (BitVec.eq_of_toNat_eq h)
  · exact Nat.pos_of_ne_zero fun h => hsize.2.1 (BitVec.eq_of_toNat_eq h)
  all_goals simp [focusSurface]

lemma changes_createSurface {width height : U32}
    (h : createSurface s idx width height px = some (s', id)) : Changes s (some id) s' := by
  obtain ⟨client, image, -, himage, hw, hh, hid, hsurfaces, hz, hnext⟩ := createSurface_some h
  obtain ⟨hwidth, hheight⟩ := px.createBits_size himage
  exact Changes.create (x := ⟨id, client.fd, some image, 0, 0, width, height,
    replicate 64 0, s.nextZOrder, true⟩) hid rfl
    ⟨rfl, ⟨_, rfl, hwidth, hheight, px.createBits_fits himage⟩, hw, hh⟩ hsurfaces hz hnext

/-! ## Messages and events -/

/-- The surface that a message creates or commits. -/
def raised (s : Compositor) (idx : ℕ) (client : Client) (type : U32) (size : ℕ) (out : Outside)
    (f : ℕ → U8) : Option U32 :=
  match Request.ofType type with
  | some .createSurface =>
    if size < 8 then none else
    (createSurface s idx (run f (payloadU32 0)) (run f (payloadU32 4)) out.pixman).map Prod.snd
  | some .commit =>
    if size < 4 then none else
    (ownSurface s client.fd (run f (payloadU32 0))).map (·.2.id)
  | _ => none

/-- **What `handle_client_message` can do** with a request: the surface that it puts on top, if any,
and the outcome. -/
inductive Handles (s : Compositor) (idx : ℕ) (client : Client) (out : Outside) (f : ℕ → U8) :
    Option Request → Option U32 → Handled → Prop
  | refused {r : Option Request} : Handles s idx client out f r none ⟨s, false, []⟩
  | info : Handles s idx client out f (some .getDisplayInfo) none
      ⟨s, out.sends, [(client.fd, displayInfo s.fbWidth s.fbHeight)]⟩
  | create {width height id : U32} {s' : Compositor}
      (h : createSurface s idx width height out.pixman = some (s', id)) :
      Handles s idx client out f (some .createSurface) (some id)
        ⟨s', out.sends, [(client.fd, surfaceCreated id)]⟩
  | destroy {id : U32} {clients : List Client}
      (h : clients = (dropSurface s id).clients ∨
        ∃ c, clients = (dropSurface s id).clients.set idx c) :
      Handles s idx client out f (some .destroySurface) none
        ⟨{ dropSurface s id with clients := clients }, true, []⟩
  | title : Handles s idx client out f (some .setTitle) none
      ⟨run f (handleSetTitle s client.fd), true, []⟩
  | geometry : Handles s idx client out f (some .setGeometry) none
      ⟨run f (handleSetGeometry s client.fd out.pixman), true, []⟩
  | buffer : Handles s idx client out f (some .writeBuffer) none
      ⟨run f (handleWriteBuffer s client.fd), true, []⟩
  | commit {id : U32} {i : ℕ} {x : Surface} (h : ownSurface s client.fd id = some (i, x)) :
      Handles s idx client out f (some .commit) (some x.id)
        ⟨focusSurface s i, out.sends, [(client.fd, frameDone)]⟩

lemma handles_handle (s : Compositor) (idx : ℕ) (client : Client) (type : U32) (size : ℕ)
    (out : Outside) (f : ℕ → U8) :
    Handles s idx client out f (Request.ofType type) (raised s idx client type size out f)
      (run f (handleClientMessage s idx client type size out)) := by
  rw [handleClientMessage, raised]
  cases Request.ofType type with
  | none => exact .refused
  | some request =>
    cases request with
    | createSurface =>
      dsimp only
      split_ifs
      · exact .refused
      simp only [run_bind]
      cases hcreate : createSurface s idx (run f (payloadU32 0)) (run f (payloadU32 4))
          out.pixman with
      | none => exact .refused
      | some created => exact .create hcreate
    | destroySurface =>
      dsimp only
      split_ifs
      · exact .refused
      simp only [run_bind]
      cases ownSurface s client.fd (run f (payloadU32 0)) with
      | none => exact .refused
      | some own =>
        cases client.surfaceIds.findIdx? (· = run f (payloadU32 0)) with
        | none => exact .destroy (.inl rfl)
        | some i => exact .destroy (.inr ⟨_, rfl⟩)
    | setTitle | setGeometry =>
      dsimp only
      split_ifs
      · exact .refused
      · rw [run_bind]
        constructor
    | writeBuffer =>
      dsimp only
      split_ifs
      · exact .refused
      simp only [run_bind]
      split_ifs
      · exact .refused
      · rw [run_bind]
        exact .buffer
    | commit =>
      dsimp only
      split_ifs
      · exact .refused
      simp only [run_bind]
      cases hown : ownSurface s client.fd (run f (payloadU32 0)) with
      | none => exact .refused
      | some own => exact .commit hown
    | getDisplayInfo => exact .info

lemma Handles.changes {r : Option Request} {top : Option U32} {h : Handled}
    (hh : Handles s idx client out f r top h) : Changes s top h.comp := by
  cases hh with
  | refused | info => exact .refl s
  | create hcreate => exact changes_createSurface hcreate
  | @destroy id =>
    obtain ⟨hsub, hz, hnext⟩ := fewer_dropSurface s id
    exact .fewer ⟨hsub, hz, hnext⟩
  | title => exact changes_setTitle s client.fd
  | geometry => exact changes_setGeometry s client.fd out.pixman
  | buffer => exact changes_writeBuffer s client.fd
  | commit hown =>
    have hx := (ownSurface_some hown).1
    refine .raise hx ?_ ?_ ?_ <;> simp only [focusSurface, hx]

/-- The surface that an event creates or commits. -/
def Event.raises (s : Compositor) : Event → Option U32
  | .read idx recv out =>
    s.clients[idx]?.bind fun client =>
      let result := readClientData client.reader recv
      let client := { client with reader := result.1 }
      if result.2 = .handle then
        raised { s with clients := s.clients.set idx client } idx client result.1.type
          result.1.payloadSize out result.1.readBuf
      else none
  | _ => none

lemma Changes.of_clients {clients : List Client} {r : Option U32}
    (h : Changes { s with clients := clients } r s') : Changes s r s' := by
  cases h with
  | fewer h => exact .fewer ⟨h.subperm, h.nextZOrder, h.nextSurfaceId⟩
  | edit hx hid hfd hz hsized hsurfaces hnextz hnext =>
    exact .edit hx hid hfd hz hsized hsurfaces hnextz hnext
  | raise hx hsurfaces hz hnext => exact .raise hx hsurfaces hz hnext
  | create hid hz hsized hsurfaces hnextz hnext => exact .create hid hz hsized hsurfaces hnextz hnext

lemma changes_readClient (s : Compositor) (recv : Recv) (out : Outside)
    (hclient : s.clients[idx]? = some client) :
    ∃ s₁, Changes s ((Event.read idx recv out).raises s) s₁ ∧
      Fewer s₁ (readClient s idx client recv out) := by
  rw [Event.raises, hclient, bind_some, readClient]
  dsimp only
  cases (readClientData client.reader recv).2 with
  | error => exact ⟨_, Changes.of_clients (.refl _), fewer_removeClient _ idx⟩
  | done => exact ⟨_, Changes.of_clients (.refl _), .refl _⟩
  | handle =>
    rw [if_pos rfl]
    refine ⟨_, (handles_handle _ idx _ _ _ out _).changes.of_clients, ?_⟩
    dsimp only
    split_ifs
    · exact .refl _
    · exact fewer_removeClient _ idx

/-- **One event**: a change, and then perhaps a client is removed. -/
theorem changes_step {e : Event} (h : compositorStep s e = some s') :
    ∃ s₁, Changes s (e.raises s) s₁ ∧ Fewer s₁ s' := by
  cases e with
  | accept fd =>
    rw [compositorStep] at h
    split_ifs at h
    rw [some.injEq] at h
    subst h
    refine ⟨s, .refl s, ?_⟩
    rw [addClient]
    split_ifs
    · exact .refl s
    · exact ⟨.refl _, rfl, rfl⟩
  | read idx recv out =>
    rw [compositorStep] at h
    cases hclient : s.clients[idx]? with
    | none =>
      rw [hclient] at h
      cases h
    | some client =>
      simp only [hclient] at h
      split_ifs at h
      rw [some.injEq] at h
      subst h
      exact changes_readClient s recv out hclient
  | key code =>
    rw [compositorStep, some.injEq] at h
    subst h
    refine ⟨s, .refl s, ?_⟩
    rw [sendKeyToFocus]
    cases (ensureFocus s).surfaces.find? (·.id = (ensureFocus s).focusedSurfaceId) with
    | none => exact fewer_ensureFocus s
    | some x => exact fewer_ensureFocus s

/-- Where nothing comes to stand on top, every surface was there before, with its client. -/
lemma Changes.origin (h : Changes s none s') (hx : x ∈ s'.surfaces) :
    ∃ y ∈ s.surfaces, y.id = x.id ∧ y.clientFd = x.clientFd := by
  cases h with
  | fewer h => exact ⟨x, h.subperm.subset hx, rfl, rfl⟩
  | edit hold hid hfd hz hkeeps hsurfaces =>
    rw [hsurfaces] at hx
    rcases mem_or_eq_of_mem_set hx with hx | rfl
    · exact ⟨x, hx, rfl, rfl⟩
    · exact ⟨_, mem_of_getElem? hold, hid.symm, hfd.symm⟩

lemma sized_step {s s' : Compositor} {e : Event} (hsized : ∀ x ∈ s.surfaces, x.Sized)
    (h : compositorStep s e = some s') : ∀ x ∈ s'.surfaces, x.Sized := by
  obtain ⟨s₁, hchange, hfewer⟩ := changes_step h
  suffices hs₁ : ∀ x ∈ s₁.surfaces, x.Sized from fun x hx => hs₁ x (hfewer.subperm.subset hx)
  intro x hx
  generalize e.raises s = r at hchange
  cases hchange with
  | fewer hf => exact hsized x (hf.subperm.subset hx)
  | edit hold hid hfd hz hkeeps hsurfaces =>
    rw [hsurfaces] at hx
    rcases mem_or_eq_of_mem_set hx with hx | rfl
    · exact hsized x hx
    · exact hkeeps (hsized _ (mem_of_getElem? hold))
  | raise hold hsurfaces =>
    rw [hsurfaces] at hx
    rcases mem_or_eq_of_mem_set hx with hx | rfl
    · exact hsized x hx
    · have hold := hsized _ (mem_of_getElem? hold)
      exact ⟨hold.visible, hold.image, hold.pos⟩
  | create hid hz hnew hsurfaces =>
    rw [hsurfaces] at hx
    rcases mem_append.mp hx with hx | hx
    · exact hsized x hx
    · rw [mem_singleton.mp hx]
      exact hnew

end OpenHobbyOS.Xnx
