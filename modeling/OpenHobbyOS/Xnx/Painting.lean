/-
# Painting the surfaces

`composite_surfaces` looks for the lowest surface not below a threshold, paints it and raises the
threshold.  While `next_z_order` has not come round all surfaces have different heights, and the
loop goes from the lowest to the highest.  What is painted comes out as the intersection of the
surface with the framebuffer.
-/
import OpenHobbyOS.Lib.Ascending
import OpenHobbyOS.Xnx.Changes

namespace OpenHobbyOS.Xnx

open Lib BitVec Option List Nat

/-! ## The order -/

/-- The body of the inner loop of `composite_surfaces`. -/
def lower (z : U32) (next : Option Surface) (surface : Surface) : Option Surface :=
  if ¬surface.Shown ∨ surface.zOrder.slt z then next else
  match next with
  | none => some surface
  | some other => if surface.zOrder.slt other.zOrder then some surface else next

/-- The surface to be painted next. -/
def nextSurface (surfaces : List Surface) (z : U32) : Option Surface :=
  surfaces.foldl (lower z) none

/-- The surfaces that the loop considers, in this order; `none` when it has not ended. -/
def paintLoop (surfaces : List Surface) : ℕ → U32 → Option (List Surface)
  | 0, _ => none
  | rounds + 1, z =>
    match nextSurface surfaces z with
    | none => some []
    | some next => (paintLoop surfaces rounds (next.zOrder + 1)).map (next :: ·)

/-- The loop from the start, with a round for every surface and one more. -/
def paintOrder (surfaces : List Surface) : Option (List Surface) :=
  paintLoop surfaces (surfaces.length + 1) 0

variable {surfaces : List Surface} {z : U32} {rounds : ℕ} {x : Surface}

lemma nextSurface_eq (surfaces : List Surface) (z : U32) :
    nextSurface surfaces z =
      leastFrom (fun x => x.zOrder.toInt) z.toInt (surfaces.filter (·.Shown)) := by
  rw [nextSurface, leastFrom, foldl_filter]
  congr 1
  funext next x
  cases next with
  | none | some y =>
    by_cases hshown : x.Shown <;> by_cases hz : x.zOrder.toInt < z.toInt <;>
      simp [lower, lesser, slt_iff_toInt_lt, hshown, hz]

lemma paintLoop_eq (hz : ∀ x ∈ surfaces, x.zOrder.toInt + 1 < 2 ^ 31) (rounds : ℕ) (z : U32) :
    paintLoop surfaces rounds z =
      ascending (fun x => x.zOrder.toInt) (surfaces.filter (·.Shown)) rounds z.toInt := by
  induction rounds generalizing z with
  | zero => rfl
  | succ rounds ih =>
    rw [paintLoop, ascending, nextSurface_eq]
    cases hnext : leastFrom (fun x => x.zOrder.toInt) z.toInt (surfaces.filter (·.Shown)) with
    | none => rfl
    | some x =>
      have hx := hz x (mem_filter.mp (leastFrom_eq_some hnext).1).1
      have hsucc : (x.zOrder + 1).toInt = x.zOrder.toInt + 1 := by
        have hlow := le_toInt x.zOrder
        have hone : (1 : U32).toInt = 1 := by decide
        rw [toInt_add, hone, Int.bmod_eq_of_le (by omega) (by omega)]
      dsimp only
      rw [ih, hsucc]

/-! ## The heights -/

/-- After `n` surfaces have been created or committed, `top` the last of them. -/
structure Stacked (s : Compositor) (n : ℕ) (top : Option U32) : Prop where
  heights : (s.surfaces.map (·.zOrder)).Nodup
  below : ∀ x ∈ s.surfaces, 0 < x.zOrder.toNat ∧ x.zOrder.toNat < s.nextZOrder.toNat
  next : s.nextZOrder.toNat = n + 1
  ids : (s.surfaces.map (·.id)).Nodup
  known : ∀ x ∈ s.surfaces, x.id.toNat ≤ s.nextSurfaceId.toNat
  numbers : s.nextSurfaceId.toNat ≤ n
  sized : ∀ x ∈ s.surfaces, x.Sized
  top : ∀ id, top = some id → ∀ x ∈ s.surfaces, x.id = id →
    x.zOrder.toNat + 1 = s.nextZOrder.toNat

variable {s s' : Compositor} {n : ℕ} {top r : Option U32}

lemma Fewer.nodup {α : Type} (hf : Fewer s s') {f : Surface → α} (h : (s.surfaces.map f).Nodup) :
    (s'.surfaces.map f).Nodup := by
  obtain ⟨l, hperm, hsub⟩ := hf.subperm
  exact (hperm.map f).nodup_iff.mp (h.sublist (hsub.map f))

lemma Stacked.fewer (h : Stacked s n top) (hf : Fewer s s') : Stacked s' n top := by
  have hmem : ∀ x ∈ s'.surfaces, x ∈ s.surfaces := fun x hx => hf.subperm.subset hx
  refine ⟨?_, ?_, ?_, ?_, ?_, ?_, fun x hx => h.sized x (hmem x hx), ?_⟩
  · exact hf.nodup h.heights
  · rw [hf.nextZOrder]
    exact fun x hx => h.below x (hmem x hx)
  · rw [hf.nextZOrder]
    exact h.next
  · exact hf.nodup h.ids
  · rw [hf.nextSurfaceId]
    exact fun x hx => h.known x (hmem x hx)
  · rw [hf.nextSurfaceId]
    exact h.numbers
  · rw [hf.nextZOrder]
    exact fun id hid x hx => h.top id hid x (hmem x hx)

lemma Stacked.fresh (h : Stacked s n top) : s.nextZOrder ∉ s.surfaces.map (·.zOrder) := by
  intro hmem
  obtain ⟨x, hx, heq⟩ := mem_map.mp hmem
  have := (h.below x hx).2
  rw [heq] at this
  exact lt_irrefl _ this

lemma Stacked.next_succ (h : Stacked s n top) (hn : n + 1 < 2 ^ 31 - 1) :
    (s.nextZOrder + 1).toNat = n + 1 + 1 := by
  have hnext := h.next
  rw [toNat_add_of_lt, hnext]
  · rfl
  · show s.nextZOrder.toNat + 1 < 2 ^ 32
    omega

lemma Stacked.edit {i : ℕ} {x x' : Surface} (h : Stacked s n top) (hx : s.surfaces[i]? = some x)
    (hid : x'.id = x.id) (hz : x'.zOrder = x.zOrder) (hsized : x.Sized → x'.Sized)
    (hsurfaces : s'.surfaces = s.surfaces.set i x') (hnextz : s'.nextZOrder = s.nextZOrder)
    (hnext : s'.nextSurfaceId = s.nextSurfaceId) : Stacked s' n top := by
  -- every surface stands for one that was there
  have hold : ∀ y ∈ s'.surfaces, ∃ y₀ ∈ s.surfaces, y.id = y₀.id ∧ y.zOrder = y₀.zOrder ∧
      (y₀.Sized → y.Sized) := by
    intro y hy
    rw [hsurfaces] at hy
    rcases mem_or_eq_of_mem_set hy with hy | rfl
    · exact ⟨y, hy, rfl, rfl, fun h => h⟩
    · exact ⟨x, mem_of_getElem? hx, hid, hz, hsized⟩
  refine ⟨?_, fun y hy => ?_, hnextz ▸ h.next, ?_, fun y hy => ?_, hnext ▸ h.numbers,
    fun y hy => ?_, fun id hid y hy hyid => ?_⟩
  · rw [hsurfaces, map_set_same _ hx hz]
    exact h.heights
  · obtain ⟨y₀, hy₀, -, hz₀, -⟩ := hold y hy
    rw [hz₀, hnextz]
    exact h.below y₀ hy₀
  · rw [hsurfaces, map_set_same _ hx hid]
    exact h.ids
  · obtain ⟨y₀, hy₀, hid₀, -, -⟩ := hold y hy
    rw [hid₀, hnext]
    exact h.known y₀ hy₀
  · obtain ⟨y₀, hy₀, -, -, hsized₀⟩ := hold y hy
    exact hsized₀ (h.sized y₀ hy₀)
  · obtain ⟨y₀, hy₀, hid₀, hz₀, -⟩ := hold y hy
    rw [hz₀, hnextz]
    exact h.top id hid y₀ hy₀ (hid₀.symm.trans hyid)

lemma Stacked.raise {i : ℕ} {x : Surface} (h : Stacked s n top) (hn : n + 1 < 2 ^ 31 - 1)
    (hx : s.surfaces[i]? = some x)
    (hsurfaces : s'.surfaces = s.surfaces.set i { x with zOrder := s.nextZOrder })
    (hz : s'.nextZOrder = s.nextZOrder + 1) (hnext : s'.nextSurfaceId = s.nextSurfaceId) :
    Stacked s' (n + 1) (some x.id) := by
  have hsucc := h.next_succ hn
  have hmem : x ∈ s.surfaces := List.mem_of_getElem? hx
  obtain ⟨hi, hxi⟩ := List.getElem?_eq_some_iff.mp hx
  have hids : s'.surfaces.map (·.id) = s.surfaces.map (·.id) := by
    rw [hsurfaces]
    exact map_set_same _ hx rfl
  have hnodup : (s'.surfaces.map (·.id)).Nodup := by
    rw [hids]
    exact h.ids
  have hraised : { x with zOrder := s.nextZOrder } ∈ s'.surfaces := by
    rw [hsurfaces]
    exact mem_set hi _
  refine ⟨?_, fun y hy => ?_, by rw [hz, hsucc], hnodup, fun y hy => ?_, ?_, fun y hy => ?_, ?_⟩
  · rw [hsurfaces, map_set]
    exact h.heights.set h.fresh
  · rw [hz, hsucc]
    rw [hsurfaces] at hy
    rcases mem_or_eq_of_mem_set hy with hy | rfl
    · have := h.below y hy
      have := h.next
      omega
    · show 0 < s.nextZOrder.toNat ∧ s.nextZOrder.toNat < _
      rw [h.next]
      omega
  · rw [hnext]
    rw [hsurfaces] at hy
    rcases mem_or_eq_of_mem_set hy with hy | rfl
    · exact h.known y hy
    · exact h.known x hmem
  · rw [hnext]
    exact h.numbers.trans (le_succ n)
  · rw [hsurfaces] at hy
    rcases mem_or_eq_of_mem_set hy with hy | rfl
    · exact h.sized y hy
    · have hsized := h.sized x hmem
      exact ⟨hsized.visible, hsized.image, hsized.pos⟩
  · rintro id ⟨⟩ y hy hyid
    obtain rfl := inj_on_of_nodup_map hnodup hy hraised hyid
    rw [hz, hsucc]
    show s.nextZOrder.toNat + 1 = _
    rw [h.next]

lemma Stacked.create {x : Surface} (h : Stacked s n top) (hn : n + 1 < 2 ^ 31 - 1)
    (hid : x.id = s.nextSurfaceId + 1) (hz : x.zOrder = s.nextZOrder) (hsized : x.Sized)
    (hsurfaces : s'.surfaces = s.surfaces ++ [x]) (hnextz : s'.nextZOrder = s.nextZOrder + 1)
    (hnext : s'.nextSurfaceId = x.id) : Stacked s' (n + 1) (some x.id) := by
  have hsucc := h.next_succ hn
  have hnumber : x.id.toNat = s.nextSurfaceId.toNat + 1 := by
    have := h.numbers
    rw [hid, toNat_add_of_lt]
    · rfl
    · show s.nextSurfaceId.toNat + 1 < 2 ^ 32
      omega
  have hnew : x.id ∉ s.surfaces.map (·.id) := by
    intro hmem
    obtain ⟨y, hy, heq⟩ := mem_map.mp hmem
    have := h.known y hy
    rw [heq, hnumber] at this
    omega
  have hcases : ∀ {P : Surface → Prop}, (∀ y ∈ s.surfaces, P y) → P x → ∀ y ∈ s'.surfaces, P y := by
    intro P hP hx y hy
    rw [hsurfaces] at hy
    rcases mem_append.mp hy with hy | hy
    · exact hP y hy
    · rw [mem_singleton.mp hy]
      exact hx
  have happend : ∀ {β : Type} (f : Surface → β), (s.surfaces.map f).Nodup →
      f x ∉ s.surfaces.map f → (s'.surfaces.map f).Nodup := by
    intro β f hnodup hnot
    rw [hsurfaces, map_append, map_singleton, ← concat_eq_append]
    exact hnodup.concat hnot
  refine ⟨happend _ h.heights (hz ▸ h.fresh), hcases (fun y hy => ?_) ?_, by rw [hnextz, hsucc],
    happend _ h.ids hnew, hcases (fun y hy => ?_) ?_, ?_, hcases h.sized hsized, ?_⟩
  · have := h.below y hy
    have := h.next
    rw [hnextz, hsucc]
    omega
  · rw [hz, hnextz, hsucc, h.next]
    omega
  · have := h.known y hy
    rw [hnext, hnumber]
    omega
  · rw [hnext]
  · rw [hnext, hnumber]
    exact succ_le_succ h.numbers
  · rintro id ⟨⟩
    refine hcases (fun y hy hyid => ?_) fun _ => ?_
    · exact absurd (mem_map.mpr ⟨y, hy, hyid⟩) hnew
    · rw [hz, hnextz, hsucc, h.next]

/-- **One change**, as long as the counter does not come round. -/
lemma Stacked.changes (h : Stacked s n top) (hc : Changes s r s')
    (hn : n + r.toList.length < 2 ^ 31 - 1) : Stacked s' (n + r.toList.length) (r.or top) := by
  cases hc with
  | fewer hf => exact h.fewer hf
  | edit hx hid _ hz hsized hsurfaces hnextz hnext =>
    exact h.edit hx hid hz hsized hsurfaces hnextz hnext
  | raise hx hsurfaces hz hnext => exact h.raise hn hx hsurfaces hz hnext
  | create hid hz hsized hsurfaces hnextz hnext =>
    exact h.create hn hid hz hsized hsurfaces hnextz hnext

/-! ## Runs -/

/-- The surfaces created and committed in a run, one after the other. -/
def raisedIn (s : Compositor) : List Event → List U32
  | [] => []
  | e :: es => (e.raises s).toList ++ ((compositorStep s e).elim [] fun s' => raisedIn s' es)

lemma Stacked.run {es : List Event} (h : Stacked s n top)
    (hrun : run compositorStep s es = some s')
    (hn : n + (raisedIn s es).length < 2 ^ 31 - 1) :
    Stacked s' (n + (raisedIn s es).length) ((raisedIn s es).getLast?.or top) := by
  induction es generalizing s n top with
  | nil =>
    rw [run_nil, some.injEq] at hrun
    exact hrun ▸ h
  | cons e es ih =>
    obtain ⟨s₁, hstep, hrest⟩ := run_cons_eq_some.mp hrun
    obtain ⟨s₂, hchange, hfewer⟩ := changes_step hstep
    have hsplit : raisedIn s (e :: es) = (e.raises s).toList ++ raisedIn s₁ es := by
      rw [raisedIn, hstep, elim_some]
    rw [hsplit, length_append] at hn ⊢
    have hlast : ((e.raises s).toList ++ raisedIn s₁ es).getLast?.or top =
        (raisedIn s₁ es).getLast?.or ((e.raises s).or top) := by
      rw [getLast?_append]
      cases e.raises s <;> cases (raisedIn s₁ es).getLast? <;> rfl
    rw [hlast, ← add_assoc]
    exact ih ((h.changes hchange (by omega)).fewer hfewer) hrest (by omega)

lemma stacked_start (fbWidth fbHeight : U32) :
    Stacked (compositorStart fbWidth fbHeight) 0 none := by
  refine ⟨nodup_nil, ?_, rfl, nodup_nil, ?_, le_rfl, ?_, ?_⟩
  all_goals simp [compositorStart]

lemma getLast?_of_highest {order : List Surface}
    (hsorted : order.Pairwise (fun x y => x.zOrder.toInt < y.zOrder.toInt)) (hx : x ∈ order)
    (hmax : ∀ y ∈ order, y.zOrder.toInt ≤ x.zOrder.toInt) : order.getLast? = some x := by
  rcases eq_nil_or_concat order with rfl | ⟨l, last, rfl⟩
  · exact absurd hx not_mem_nil
  rw [concat_eq_append] at hsorted hx hmax ⊢
  rw [getLast?_concat]
  rcases mem_append.mp hx with hx | hx
  · have hlt := (pairwise_append.mp hsorted).2.2 x hx last (mem_singleton_self _)
    have := hmax last (mem_append_right l (mem_singleton_self _))
    omega
  · rw [mem_singleton.mp hx]

lemma Stacked.toInt_zOrder (h : Stacked s n top) (hn : n < 2 ^ 31 - 1) (hx : x ∈ s.surfaces) :
    x.zOrder.toInt = x.zOrder.toNat ∧ x.zOrder.toNat ≤ n := by
  have hlt := (h.below x hx).2
  have hnext := h.next
  rw [toInt_eq_toNat_of_lt (by omega)]
  exact ⟨rfl, by omega⟩

/-- The loop ends, after it has considered the surfaces that are shown from the lowest to the
highest. -/
lemma Stacked.paintOrder_eq (h : Stacked s n top) (hn : n < 2 ^ 31 - 1) :
    ∃ order, paintOrder s.surfaces = some order ∧
      order.Pairwise (fun x y => x.zOrder.toInt < y.zOrder.toInt) ∧
      order.Perm (s.surfaces.filter (·.Shown)) := by
  have hkeys : ((s.surfaces.filter (·.Shown)).map fun x => x.zOrder.toInt).Nodup := by
    have hall : (s.surfaces.map fun x => x.zOrder.toInt).Nodup := by
      have hmap := h.heights.map (f := BitVec.toInt) fun a b hab => eq_of_toInt_eq hab
      rwa [List.map_map] at hmap
    exact hall.sublist (filter_sublist.map _)
  -- every surface that is shown lies above the first threshold
  have habove : (s.surfaces.filter (·.Shown)).filter (fun x => 0 ≤ x.zOrder.toInt) =
      s.surfaces.filter (·.Shown) := by
    refine filter_eq_self.mpr fun x hx => decide_eq_true ?_
    rw [(h.toInt_zOrder hn (mem_filter.mp hx).1).1]
    exact Int.natCast_nonneg _
  have hlen : ((s.surfaces.filter (·.Shown)).filter fun x => 0 ≤ x.zOrder.toInt).length <
      s.surfaces.length + 1 := by
    rw [habove]
    exact lt_succ_of_le (length_filter_le _ _)
  obtain ⟨order, horder, hsorted, hperm⟩ := ascending_spec hkeys hlen
  rw [habove] at hperm
  refine ⟨order, ?_, hsorted, hperm⟩
  rw [paintOrder, paintLoop_eq]
  · exact horder
  · intro x hx
    have hint := h.toInt_zOrder hn hx
    omega

/-- **The order of painting.**  After fewer than `2 ^ 31 - 1` surfaces have been created or
committed, `composite_surfaces` ends and considers every surface that is shown once, from the lowest
to the highest; the one created or committed last comes last. -/
theorem painting_order {fbWidth fbHeight : U32} {es : List Event} {s : Compositor}
    (hrun : Lib.run compositorStep (compositorStart fbWidth fbHeight) es = some s)
    (hops : (raisedIn (compositorStart fbWidth fbHeight) es).length < 2 ^ 31 - 1) :
    (s.surfaces.map (·.zOrder)).Nodup ∧
    ∃ order, paintOrder s.surfaces = some order ∧
      order.Pairwise (fun x y => x.zOrder.slt y.zOrder) ∧
      order.Perm (s.surfaces.filter (·.Shown)) ∧
      ∀ id, (raisedIn (compositorStart fbWidth fbHeight) es).getLast? = some id →
        ∀ x ∈ s.surfaces, x.id = id → order.getLast? = some x := by
  have h := (stacked_start fbWidth fbHeight).run hrun (by omega)
  rw [zero_add, or_none] at h
  obtain ⟨order, horder, hsorted, hperm⟩ := h.paintOrder_eq hops
  refine ⟨h.heights, order, horder, hsorted.imp slt_iff_toInt_lt.mpr, hperm, ?_⟩
  intro id hid x hx hxid
  have htop := h.top id hid x hx hxid
  have hnext := h.next
  have hmem : x ∈ s.surfaces.filter (·.Shown) :=
    mem_filter.mpr ⟨hx, decide_eq_true (h.sized x hx).shown⟩
  refine getLast?_of_highest hsorted (hperm.symm.subset hmem) fun y hy => ?_
  have hintx := h.toInt_zOrder hops hx
  have hinty := h.toInt_zOrder hops (mem_filter.mp (hperm.subset hy)).1
  omega

/-- A message of the client at an index, received in two pieces. -/
def Message.events (idx : ℕ) (m : Message) : List Event :=
  [.read idx (.bytes (encodeHeader m)) plainOutside, .read idx (.bytes m.payload) plainOutside]

/-- `XNX_CREATE_SURFACE`. -/
def createMessage (width height : ℕ) : Message := ⟨0x0001, le32Bytes width ++ le32Bytes height⟩

/-- `XNX_COMMIT`. -/
def commitMessage (surfaceId : ℕ) : Message := ⟨0x0006, le32Bytes surfaceId⟩

/-- Two surfaces, and the first is committed. -/
def twoSurfaces : List Event :=
  .accept 5 :: ((createMessage 2 2).events 0 ++ (createMessage 3 1).events 0 ++
    (commitMessage 1).events 0)

/-- The surface that was committed last is painted over the one created after it. -/
theorem committed_painted_last :
    ∃ s, Lib.run compositorStep (compositorStart 640 480) twoSurfaces = some s ∧
      raisedIn (compositorStart 640 480) twoSurfaces = [1, 2, 1] ∧
      (s.surfaces.map (·.zOrder)).Nodup ∧
      ∃ order, paintOrder s.surfaces = some order ∧
        order.Pairwise (fun x y => x.zOrder.slt y.zOrder) ∧
        order.Perm (s.surfaces.filter (·.Shown)) ∧
        ∀ id, (raisedIn (compositorStart 640 480) twoSurfaces).getLast? = some id →
          ∀ x ∈ s.surfaces, x.id = id → order.getLast? = some x := by
  have hraised : raisedIn (compositorStart 640 480) twoSurfaces = [1, 2, 1] := by decide +kernel
  have hsome : (Lib.run compositorStep (compositorStart 640 480) twoSurfaces).isSome = true := by
    decide +kernel
  obtain ⟨s, hs⟩ := isSome_iff_exists.mp hsome
  exact ⟨s, hs, hraised, painting_order hs (by rw [hraised]; decide)⟩

/-! ## The part of a surface that is painted -/

/-- Where a copy starts in the surface and in the framebuffer, and how long it is. -/
structure Span where
  src : U32
  dst : U32
  len : U32

/-- What lies before the framebuffer is cut off. -/
def cutStart (pos size : U32) : Span :=
  if pos.slt 0 then ⟨-pos, 0, size + pos⟩ else ⟨0, pos, size⟩

/-- Nothing is left. -/
def Span.Outside (span : Span) (fb size : U32) : Prop := ¬span.dst.slt fb ∨ ¬span.src.slt size

instance decidableOutside (span : Span) (fb size : U32) : Decidable (span.Outside fb size) :=
  inferInstanceAs (Decidable (_ ∨ _))

/-- The length that is left of both. -/
def Span.cutEnd (span : Span) (fb size : U32) : U32 :=
  let len := if fb.slt (span.dst + span.len) then fb - span.dst else span.len
  -- the comparison with the size of the surface is one of unsigned numbers
  if size < span.src + len then size - span.src else len

/-- The clipping in `composite_surfaces`. -/
def clip (fbWidth fbHeight x y surfW surfH : U32) : Option Blit :=
  if surfW = 0 ∨ surfH = 0 then none else
  let h := cutStart x surfW
  let v := cutStart y surfH
  if h.Outside fbWidth surfW ∨ v.Outside fbHeight surfH then none else
  let width := h.cutEnd fbWidth surfW
  let height := v.cutEnd fbHeight surfH
  if (0 : U32).slt width ∧ (0 : U32).slt height then
    some ⟨h.src, v.src, h.dst, v.dst, width, height⟩
  else none

/-- The numbers from `lo` on that are less than `hi`. -/
structure Interval where
  lo : ℤ
  hi : ℤ

/-- A rectangle of pixels. -/
structure Rect where
  horizontal : Interval
  vertical : Interval

/-- The part they share. -/
def Interval.inter (a b : Interval) : Interval := ⟨max a.lo b.lo, min a.hi b.hi⟩

/-- The part they share. -/
def Rect.inter (a b : Rect) : Rect :=
  ⟨a.horizontal.inter b.horizontal, a.vertical.inter b.vertical⟩

/-- There are pixels in the rectangle. -/
def Rect.HasPixels (r : Rect) : Prop :=
  r.horizontal.lo < r.horizontal.hi ∧ r.vertical.lo < r.vertical.hi

/-- The numbers from a position on. -/
def intervalFrom (pos : ℤ) (size : ℕ) : Interval := ⟨pos, pos + size⟩

/-- The rectangle of a size at a position. -/
def rectAt (x y : ℤ) (width height : ℕ) : Rect := ⟨intervalFrom x width, intervalFrom y height⟩

/-- Where the copy is painted. -/
def Blit.target (b : Blit) : Rect := rectAt b.dx.toInt b.dy.toInt b.width.toNat b.height.toNat

lemma toInt_cases (a : U32) :
    a.toInt = a.toNat ∧ a.toNat < 2 ^ 31 ∨ a.toInt = a.toNat - 2 ^ 32 ∧ 2 ^ 31 ≤ a.toNat := by
  have := a.isLt
  rw [toInt_eq_toNat_cond]
  split_ifs <;> omega

lemma toInt_of_lt {a : U32} (h : a.toNat < 2 ^ 31) : a.toInt = a.toNat :=
  toInt_eq_toNat_of_lt (by omega)

lemma slt_iff (a b : U32) : a.slt b = true ↔ a.toInt < b.toInt := slt_iff_toInt_lt

lemma cutEnd_eq {fb size : U32} {span : Span} (hfb : fb.toNat < 2 ^ 30)
    (hsize : size.toNat < 2 ^ 30) (hdst : span.dst.toNat < fb.toNat)
    (hlen : span.src.toNat + span.len.toNat = size.toNat) :
    (span.cutEnd fb size).toNat = min span.len.toNat (fb.toNat - span.dst.toNat) := by
  have hsum : (span.dst + span.len).toNat = span.dst.toNat + span.len.toNat :=
    toNat_add_of_lt (by omega)
  have hcut : (if fb.slt (span.dst + span.len) then fb - span.dst else span.len).toNat =
      min span.len.toNat (fb.toNat - span.dst.toNat) := by
    split_ifs with hlt
    · rw [slt_iff, toInt_of_lt (by omega), toInt_of_lt (by omega), hsum] at hlt
      rw [toNat_sub_of_le (le_def.mpr hdst.le)]
      omega
    · rw [slt_iff, toInt_of_lt (by omega), toInt_of_lt (by omega), hsum] at hlt
      omega
  rw [Span.cutEnd, if_neg, hcut]
  rw [lt_def, toNat_add_of_lt (by omega), hcut]
  omega

/-- **One direction.**  The cuts leave the intersection. -/
lemma span_spec {fb pos size : U32} (hfb : fb.toNat < 2 ^ 30) (hpos : 0 < size.toNat)
    (hsize : size.toNat < 2 ^ 30) :
    let span := cutStart pos size
    let both := (intervalFrom pos.toInt size.toNat).inter (intervalFrom 0 fb.toNat)
    (both.lo < both.hi ∧ ¬span.Outside fb size ∧ (0 : U32).slt (span.cutEnd fb size) = true ∧
        intervalFrom span.dst.toInt (span.cutEnd fb size).toNat = both ∧
        span.src.toInt = span.dst.toInt - pos.toInt) ∨
      ¬both.lo < both.hi ∧
        (span.Outside fb size ∨ ¬(0 : U32).slt (span.cutEnd fb size) = true) := by
  intro span both
  have hlo : both.lo = max pos.toInt 0 := rfl
  have hhi : both.hi = min (pos.toInt + size.toNat) (0 + fb.toNat) := rfl
  have hzero : (0 : U32).toInt = 0 := by decide
  have hfb' := toInt_of_lt (show fb.toNat < 2 ^ 31 by omega)
  have hsize' := toInt_of_lt (show size.toNat < 2 ^ 31 by omega)
  -- inside, the length is what `cutEnd_eq` says
  have hinside : ∀ span : Span, span.dst.toNat < fb.toNat → 0 < span.len.toNat →
      span.src.toNat + span.len.toNat = size.toNat →
      span.src.toInt = span.dst.toInt - pos.toInt →
      span.dst.toInt = max pos.toInt 0 →
      ¬span.Outside fb size ∧ (0 : U32).slt (span.cutEnd fb size) = true ∧
        intervalFrom span.dst.toInt (span.cutEnd fb size).toNat = both ∧
        span.src.toInt = span.dst.toInt - pos.toInt := by
    intro span hdst hlen hsum hsrc hmax
    have hcut := cutEnd_eq hfb hsize hdst hsum
    have hdst' := toInt_of_lt (show span.dst.toNat < 2 ^ 31 by omega)
    have hsrc' := toInt_of_lt (show span.src.toNat < 2 ^ 31 by omega)
    refine ⟨?_, ?_, ?_, hsrc⟩
    · rw [Span.Outside, slt_iff, slt_iff]
      omega
    · rw [slt_iff, toInt_of_lt (show (span.cutEnd fb size).toNat < 2 ^ 31 by omega), hzero]
      omega
    · rw [intervalFrom, show both = ⟨both.lo, both.hi⟩ from rfl, Interval.mk.injEq]
      omega
  rcases toInt_cases pos with ⟨hp, hlt⟩ | ⟨hp, hge⟩
  · have hstart : cutStart pos size = ⟨0, pos, size⟩ := if_neg (by rw [slt_iff, hzero]; omega)
    rw [show span = _ from hstart]
    by_cases hboth : both.lo < both.hi
    · refine .inl ⟨hboth, hinside ⟨0, pos, size⟩ ?_ hpos ?_ ?_ ?_⟩
      · show pos.toNat < _
        omega
      · exact zero_add _
      · show (0 : U32).toInt = pos.toInt - pos.toInt
        omega
      · show pos.toInt = _
        omega
    · refine .inr ⟨hboth, .inl ?_⟩
      rw [Span.Outside, slt_iff, slt_iff]
      dsimp only
      omega
  have hstart : cutStart pos size = ⟨-pos, 0, size + pos⟩ := if_pos (by rw [slt_iff, hzero]; omega)
  have hneg : (-pos).toNat = 2 ^ 32 - pos.toNat := by
    rw [toNat_neg]
    omega
  have hadd : (size + pos).toNat = (size.toNat + pos.toNat) % 2 ^ 32 := toNat_add ..
  rw [show span = _ from hstart]
  by_cases hboth : both.lo < both.hi
  · refine .inl ⟨hboth, hinside ⟨-pos, 0, size + pos⟩ ?_ ?_ ?_ ?_ ?_⟩
    · show 0 < fb.toNat
      omega
    · show 0 < (size + pos).toNat
      omega
    · show (-pos).toNat + (size + pos).toNat = _
      omega
    · show (-pos).toInt = (0 : U32).toInt - pos.toInt
      rw [toInt_of_lt (by omega)]
      omega
    · show (0 : U32).toInt = _
      omega
  · refine .inr ⟨hboth, ?_⟩
    by_cases hmin : pos.toNat = 2 ^ 31
    · -- the least number is its own negative, and the length stays negative
      right
      have hlen : (Span.cutEnd ⟨-pos, 0, size + pos⟩ fb size) = size + pos := by
        have hfirst : ¬fb.slt (0 + (size + pos)) = true := by
          rw [BitVec.ofNat_eq_ofNat, BitVec.zero_add, slt_iff]
          rcases toInt_cases (size + pos) with h | h <;> omega
        rw [Span.cutEnd]
        dsimp only
        rw [if_neg hfirst, if_neg]
        rw [lt_def, toNat_add]
        omega
      rw [hlen, slt_iff]
      rcases toInt_cases (size + pos) with h | h <;> omega
    · left
      rw [Span.Outside, slt_iff, slt_iff]
      dsimp only
      rw [toInt_of_lt (show (-pos).toNat < 2 ^ 31 by omega)]
      omega

/-- **Clipping.**  What is painted is the intersection with the framebuffer, from the place of the
surface that lies there. -/
lemma clip_spec {fbWidth fbHeight x y width height : U32} (hfw : fbWidth.toNat < 2 ^ 30)
    (hfh : fbHeight.toNat < 2 ^ 30) (hw : 0 < width.toNat) (hw' : width.toNat < 2 ^ 30)
    (hh : 0 < height.toNat) (hh' : height.toNat < 2 ^ 30) :
    let both := (rectAt x.toInt y.toInt width.toNat height.toNat).inter
      (rectAt 0 0 fbWidth.toNat fbHeight.toNat)
    (¬both.HasPixels ∧ clip fbWidth fbHeight x y width height = none) ∨
      both.HasPixels ∧ ∃ b, clip fbWidth fbHeight x y width height = some b ∧ b.target = both ∧
        b.sx.toInt = b.dx.toInt - x.toInt ∧ b.sy.toInt = b.dy.toInt - y.toInt := by
  intro both
  have hsize : ¬(width = 0 ∨ height = 0) := by
    rintro (rfl | rfl)
    · exact absurd hw (by decide)
    · exact absurd hh (by decide)
  rw [clip, if_neg hsize]
  dsimp only
  rcases @span_spec fbWidth x width hfw hw hw' with ⟨hpix, hout, hlen, htarget, hsrc⟩ | ⟨hpix, hH⟩
  · rcases @span_spec fbHeight y height hfh hh hh' with
      ⟨hpix', hout', hlen', htarget', hsrc'⟩ | ⟨hpix', hV⟩
    · rw [if_neg (not_or.mpr ⟨hout, hout'⟩), if_pos ⟨hlen, hlen'⟩]
      refine .inr ⟨⟨hpix, hpix'⟩, _, rfl, ?_, hsrc, hsrc'⟩
      exact congrArg₂ Rect.mk htarget htarget'
    · refine .inl ⟨fun h => hpix' h.2, ?_⟩
      split_ifs with hskip hpaint
      · rfl
      · exact absurd hpaint.2 (hV.resolve_left fun h => hskip (.inr h))
      · rfl
  · refine .inl ⟨fun h => hpix h.1, ?_⟩
    split_ifs with hskip hpaint
    · rfl
    · exact absurd hpaint.1 (hH.resolve_left fun h => hskip (.inl h))
    · rfl

/-- **What is handed to the blitter**, for sizes up to 32767: the intersection of the surface with
the framebuffer, or nothing when they are disjoint. -/
theorem composite_clipping (fbWidth fbHeight x y width height : U32)
    (hfw : fbWidth.toNat ≤ 32767) (hfh : fbHeight.toNat ≤ 32767)
    (hw : 1 ≤ width.toNat ∧ width.toNat ≤ 32767) (hh : 1 ≤ height.toNat ∧ height.toNat ≤ 32767) :
    let both := (rectAt x.toInt y.toInt width.toNat height.toNat).inter
      (rectAt 0 0 fbWidth.toNat fbHeight.toNat)
    (¬both.HasPixels ∧ clip fbWidth fbHeight x y width height = none) ∨
      both.HasPixels ∧ ∃ b, clip fbWidth fbHeight x y width height = some b ∧ b.target = both ∧
        b.sx.toInt = b.dx.toInt - x.toInt ∧ b.sy.toInt = b.dy.toInt - y.toInt :=
  clip_spec (by omega) (by omega) (by omega) (by omega) (by omega) (by omega)

/-- A surface whose corner is at the least number, and one that hangs over two edges. -/
theorem composite_clipping_edges :
    clip 640 480 0x80000000 0 32767 32767 = none ∧
    ((rectAt (-3) 470 10 20).inter (rectAt 0 0 640 480)).HasPixels ∧
    ∃ b, clip 640 480 (-3) 470 10 20 = some b ∧
      b.target = (rectAt (-3) 470 10 20).inter (rectAt 0 0 640 480) ∧
      b.sx.toInt = b.dx.toInt + 3 ∧ b.sy.toInt = b.dy.toInt - 470 := by
  have hfar := composite_clipping 640 480 0x80000000 0 32767 32767 (by decide) (by decide)
    (by decide) (by decide)
  have hedge := composite_clipping 640 480 (-3) 470 10 20 (by decide) (by decide) (by decide)
    (by decide)
  refine ⟨?_, ?_⟩
  · rcases hfar with ⟨-, hnone⟩ | ⟨hpixels, -⟩
    · exact hnone
    · exact absurd hpixels (by simp only [Rect.HasPixels]; decide)
  · rcases hedge with ⟨hempty, -⟩ | ⟨hpixels, b, hb⟩
    · exact absurd (by simp only [Rect.HasPixels]; decide) hempty
    · exact ⟨hpixels, b, hb⟩

end OpenHobbyOS.Xnx
