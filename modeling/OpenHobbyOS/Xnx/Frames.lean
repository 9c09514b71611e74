/-
# Frames

`composite_surfaces` paints the surfaces over a copy of the hardware buffer and copies the result
back.  The copy takes the rows of the hardware buffer to be as long as those of the picture, and
brings the frame before, with the surfaces where they were then.

`fb_pixels` is written before it is read, so it is a value inside a frame here; the copy that
`remove_client` makes is not seen.
-/
import OpenHobbyOS.Xnx.Painting

namespace OpenHobbyOS.Xnx

open Lib Option List Nat

/-! ## The source -/

/-- The size of the picture, and the bytes of a row of the hardware buffer. -/
structure Display where
  width : U32
  height : U32
  pitch : ℕ
  width_lt : width.toNat < 2 ^ 30
  height_lt : height.toNat < 2 ^ 30
  pitch_ge : 4 * width.toNat ≤ pitch

/-- `framebuffer`, the image whose bits are `fb_pixels`. -/
def Display.framebuffer (disp : Display) (fb : ℕ → U32) : Image :=
  ⟨disp.width, disp.height, disp.width * 4, fb⟩

/-- One round of `composite_surfaces`. -/
def paintSurface (px : Pixman) (disp : Display) (fb : ℕ → U32) (surface : Surface) : ℕ → U32 :=
  match surface.image with
  | none => fb
  | some image =>
    (clip disp.width disp.height surface.x surface.y surface.width surface.height).elim fb
      fun b => (px.composite .opOver image (disp.framebuffer fb) b).data

/-- One round of `flush_fb`. -/
def flushRow (disp : Display) (fb : ℕ → U32) (hw : ℕ → U8) (y : ℕ) : ℕ → U8 :=
  let rowBytes := disp.width.toNat * 4
  splice hw (y * disp.pitch)
    (window (bytesOf fb) (y * rowBytes) (if rowBytes < disp.pitch then rowBytes else disp.pitch))

/-- `flush_fb`. -/
def flushFb (disp : Display) (fb : ℕ → U32) (hw : ℕ → U8) : ℕ → U8 :=
  (List.range disp.height.toNat).foldl (flushRow disp fb) hw

/-- The pixels after `memcpy(fb_pixels, fb_hw_pixels, fb_size)`. -/
def loadPixels (hw : ℕ → U8) (i : ℕ) : U32 := BitVec.ofNat 32 (le32 hw (4 * i))

/-- `composite_surfaces`, if its loop ends. -/
def compositeSurfaces (px : Pixman) (disp : Display) (surfaces : List Surface) (hw : ℕ → U8) :
    Option (ℕ → U8) :=
  if surfaces.isEmpty then some hw else
  (paintOrder surfaces).map fun order =>
    flushFb disp (order.foldl (paintSurface px disp) (loadPixels hw)) hw

/-- An event and the frame after it. -/
def frameStep (px : Pixman) (disp : Display) (st : Compositor × (ℕ → U8)) (e : Event) :
    Option (Compositor × (ℕ → U8)) :=
  (compositorStep st.1 e).bind fun s =>
    (compositeSurfaces px disp s.surfaces st.2).map fun hw => (s, hw)

/-! ## What should be seen -/

/-- The pixel of a surface at a place of the screen. -/
def Surface.pixelAt (surface : Surface) (x y : ℕ) : Option U32 :=
  if surface.x.toInt ≤ x ∧ x < surface.x.toInt + surface.width.toNat ∧
      surface.y.toInt ≤ y ∧ y < surface.y.toInt + surface.height.toNat then
    surface.image.map (·.pixel (x - surface.x.toInt).toNat (y - surface.y.toInt).toNat)
  else none

/-- The surface has a pixel there that is not empty. -/
abbrev Surface.Marks (surface : Surface) (x y : ℕ) : Prop :=
  (surface.pixelAt x y).any (· ≠ 0) = true

/-- The surface has a pixel there that hides what is below. -/
abbrev Surface.Hides (surface : Surface) (x y : ℕ) : Prop :=
  (surface.pixelAt x y).any (Solid ·) = true

/-- What the surfaces make of a pixel below them. -/
def look (px : Pixman) (surfaces : List Surface) (x y : ℕ) (below : U32) : U32 :=
  (((paintOrder surfaces).getD []).filterMap (·.pixelAt x y)).foldl
    (fun below p => px.overPixel p below) below

/-- The pixel on the screen. -/
def Display.pixel (disp : Display) (hw : ℕ → U8) (x y : ℕ) : U32 :=
  BitVec.ofNat 32 (le32 hw (y * disp.pitch + 4 * x))

/-- The screen shows the surfaces over the background. -/
def Shows (px : Pixman) (disp : Display) (background : ℕ → U8) (st : Compositor × (ℕ → U8)) :
    Prop :=
  ∀ x < disp.width.toNat, ∀ y < disp.height.toNat,
    disp.pixel st.2 x y = look px st.1.surfaces x y (disp.pixel background x y)

/-- The hardware buffer when it shows the surfaces over the background. -/
def picture (px : Pixman) (disp : Display) (background : ℕ → U8) (surfaces : List Surface) :
    ℕ → U8 :=
  flushFb disp (fun i => look px surfaces (i % disp.width.toNat) (i / disp.width.toNat)
    (disp.pixel background (i % disp.width.toNat) (i / disp.width.toNat))) background

/-- The byte of the hardware buffer belongs to a pixel that a surface marks. -/
def MarkedByte (disp : Display) (surfaces : List Surface) (a : ℕ) : Prop :=
  (a / disp.pitch < disp.height.toNat ∧ a % disp.pitch < 4 * disp.width.toNat) ∧
    ∃ surface ∈ surfaces, surface.Marks (a % disp.pitch / 4) (a / disp.pitch)

instance decidableMarkedByte (disp : Display) (surfaces : List Surface) (a : ℕ) :
    Decidable (MarkedByte disp surfaces a) := inferInstanceAs (Decidable (_ ∧ _))

/-- A surface hides what was painted before at a pixel; or the bytes copied there, `4 * (y * width +
x)` bytes from the start, were marked by no surface before and are those of the background.  Without
surfaces nothing is copied, and no surface may have marked the pixel. -/
def CleanAt (disp : Display) (background : ℕ → U8) (before after : List Surface) (x y : ℕ) : Prop :=
  (after = [] → ∀ surface ∈ before, ¬surface.Marks x y) ∧
    (after ≠ [] → (∃ surface ∈ after, surface.Hides x y) ∨
      loadPixels background (y * disp.width.toNat + x) = disp.pixel background x y ∧
        ∀ j < 4, ¬MarkedByte disp before (4 * (y * disp.width.toNat + x) + j))

instance decidableCleanAt (disp : Display) (background : ℕ → U8) (before after : List Surface)
    (x y : ℕ) : Decidable (CleanAt disp background before after x y) :=
  inferInstanceAs (Decidable (_ ∧ _))

/-- The counter of heights has not come round, and every pixel of the next frame is clean. -/
def Clean (disp : Display) (background : ℕ → U8) (s : Compositor) (e : Event) : Prop :=
  s.nextZOrder.toNat < 2 ^ 31 - 1 ∧ ∀ s' ∈ compositorStep s e,
    ∀ x < disp.width.toNat, ∀ y < disp.height.toNat,
      CleanAt disp background s.surfaces s'.surfaces x y

instance decidableClean (disp : Display) (background : ℕ → U8) (s : Compositor) (e : Event) :
    Decidable (Clean disp background s e) := inferInstanceAs (Decidable (_ ∧ _))

variable {px : Pixman} {disp : Display} {background hw : ℕ → U8} {fb fb' : ℕ → U32}
  {surfaces : List Surface}

/-! ## Copying to the hardware buffer -/

lemma flushFb_eq (fb : ℕ → U32) (hw : ℕ → U8) (a : ℕ) :
    flushFb disp fb hw a =
      if a / disp.pitch < disp.height.toNat ∧ a % disp.pitch < 4 * disp.width.toNat then
        bytesOf fb (a / disp.pitch * (4 * disp.width.toNat) + a % disp.pitch)
      else hw a := by
  have hpitch := disp.pitch_ge
  have hrow : (if disp.width.toNat * 4 < disp.pitch then disp.width.toNat * 4 else disp.pitch) =
      4 * disp.width.toNat := by
    split_ifs <;> omega
  have hdiv := div_add_mod' a disp.pitch
  rw [flushFb]
  -- on the number of rows copied
  induction disp.height.toNat with
  | zero => simp
  | succ n ih =>
    rw [range_succ, foldl_concat, flushRow, hrow, splice, ih]
    rcases Nat.eq_zero_or_pos disp.pitch with hzero | hpos
    · have hempty : 4 * disp.width.toNat = 0 := by omega
      simp [hempty]
    have hmod := mod_lt a hpos
    rcases lt_trichotomy (a / disp.pitch) n with hlt | heq | hgt
    · have hbefore : ¬n * disp.pitch ≤ a := by
        rw [← le_div_iff_mul_le hpos]
        omega
      rw [if_neg hbefore]
      simp only [hlt, hlt.trans (lt_succ_self n)]
    · subst heq
      rw [if_pos (by omega), show a - a / disp.pitch * disp.pitch = a % disp.pitch by omega]
      simp only [lt_irrefl, false_and, if_false, lt_succ_self, true_and]
      split_ifs with hin
      · rw [getD_window hin, mul_comm disp.width.toNat 4]
      · rw [getD_eq_default _ _ (by rw [length_window]; omega)]
    · have hbehind : (n + 1) * disp.pitch ≤ a := by
        rw [← le_div_iff_mul_le hpos]
        omega
      rw [add_mul, one_mul] at hbehind
      rw [if_pos (by omega), getD_eq_default _ _ (by rw [length_window]; omega)]
      rw [if_neg (by omega), if_neg (by omega)]

lemma byte_of_row (y w k : ℕ) :
    (y * (4 * w) + k) / 4 = y * w + k / 4 ∧ (y * (4 * w) + k) % 4 = k % 4 := by
  rw [mul_left_comm]
  omega

lemma pixel_flushFb {x y : ℕ} (hx : x < disp.width.toNat) (hy : y < disp.height.toNat) :
    disp.pixel (flushFb disp fb hw) x y = fb (y * disp.width.toNat + x) := by
  have hpitch := disp.pitch_ge
  have hbyte : ∀ j < 4, flushFb disp fb hw (y * disp.pitch + 4 * x + j) =
      (le32Bytes (fb (y * disp.width.toNat + x)).toNat).getD j 0 := by
    intro j hj
    have hdiv : (y * disp.pitch + 4 * x + j) / disp.pitch = y := by
      rw [add_assoc, add_comm, add_mul_div_right _ _ (by omega), div_eq_of_lt]
      · exact zero_add y
      · omega
    have hmod : (y * disp.pitch + 4 * x + j) % disp.pitch = 4 * x + j := by
      rw [add_assoc, add_comm, add_mul_mod_self_right, mod_eq_of_lt (by omega)]
    obtain ⟨hquot, hrest⟩ := byte_of_row y disp.width.toNat (4 * x + j)
    rw [flushFb_eq, hdiv, hmod, if_pos ⟨hy, by omega⟩, bytesOf, hquot, hrest,
      show (4 * x + j) / 4 = x by omega, show (4 * x + j) % 4 = j by omega]
  rw [Display.pixel, le32_of_holds (BitVec.isLt _) (holds_of_getD hbyte), BitVec.ofNat_toNat,
    BitVec.setWidth_eq]

lemma flushFb_congr (h : ∀ x < disp.width.toNat, ∀ y < disp.height.toNat,
      fb (y * disp.width.toNat + x) = fb' (y * disp.width.toNat + x)) :
    flushFb disp fb hw = flushFb disp fb' hw := by
  funext a
  rw [flushFb_eq, flushFb_eq]
  split_ifs with hin
  · obtain ⟨hquot, -⟩ := byte_of_row (a / disp.pitch) disp.width.toNat (a % disp.pitch)
    rw [bytesOf, bytesOf, hquot, h _ (by omega) _ hin.1]
  · rfl

lemma flushFb_flushFb : flushFb disp fb (flushFb disp fb' hw) = flushFb disp fb hw := by
  funext a
  rw [flushFb_eq, flushFb_eq, flushFb_eq]
  split_ifs <;> rfl

lemma flushFb_byte {a : ℕ} (h : a / disp.pitch < disp.height.toNat ∧
        a % disp.pitch < 4 * disp.width.toNat →
      fb (a / disp.pitch * disp.width.toNat + a % disp.pitch / 4) =
        disp.pixel hw (a % disp.pitch / 4) (a / disp.pitch)) :
    flushFb disp fb hw a = hw a := by
  rw [flushFb_eq]
  split_ifs with hin
  · have hdiv := div_add_mod' a disp.pitch
    obtain ⟨hquot, hrest⟩ := byte_of_row (a / disp.pitch) disp.width.toNat (a % disp.pitch)
    rw [bytesOf, hquot, hrest, h hin, Display.pixel, BitVec.toNat_ofNat,
      mod_eq_of_lt (le32_lt _ _), getD_le32Bytes_le32 _ _ (by omega)]
    congr 1
    omega
  · rfl

/-! ## Painting a pixel -/

variable {x y : ℕ} {surface : Surface}

lemma Display.row_framebuffer (disp : Display) (fb : ℕ → U32) :
    (disp.framebuffer fb).row = disp.width.toNat := by
  have hlt := disp.width_lt
  have hfour : (4 : U32).toNat = 4 := rfl
  show (disp.width * 4).toNat / 4 = _
  rw [BitVec.toNat_mul, hfour, Nat.mod_eq_of_lt (by omega), Nat.mul_div_cancel _ (by decide)]

lemma Surface.Sized.lt (h : surface.Sized) :
    surface.width.toNat < 2 ^ 30 ∧ surface.height.toNat < 2 ^ 30 := by
  obtain ⟨image, -, hwidth, hheight, hfits⟩ := h.image
  obtain ⟨hw, hh⟩ := h.pos
  have hrow := hfits.width_le
  have hlt := hfits.lt
  rw [hheight] at hlt
  rw [hwidth] at hrow
  have h₁ := Nat.le_mul_of_pos_right image.row hh
  have h₂ := Nat.le_mul_of_pos_left surface.height.toNat (hw.trans_le hrow)
  omega

lemma paintSurface_eq (hsized : surface.Sized) (hx : x < disp.width.toNat)
    (hy : y < disp.height.toNat) (fb : ℕ → U32) :
    paintSurface px disp fb surface (y * disp.width.toNat + x) =
      (surface.pixelAt x y).elim (fb (y * disp.width.toNat + x))
        fun p => px.overPixel p (fb (y * disp.width.toNat + x)) := by
  obtain ⟨image, himage, hiw, hih, hfits⟩ := hsized.image
  obtain ⟨hw, hh⟩ := hsized.pos
  obtain ⟨hw', hh'⟩ := hsized.lt
  rw [paintSurface, himage, Surface.pixelAt, himage]
  dsimp only
  rcases @clip_spec disp.width disp.height surface.x surface.y surface.width surface.height
    disp.width_lt disp.height_lt hw hw' hh hh' with
    ⟨hempty, hclip⟩ | ⟨-, b, hclip, htarget, hsx, hsy⟩
  · rw [hclip, elim_none, if_neg, elim_none]
    intro hcover
    refine hempty ⟨?_, ?_⟩
    all_goals
      simp only [Rect.inter, Interval.inter, rectAt, intervalFrom]
      omega
  · simp only [Blit.target, rectAt, Rect.inter, Interval.inter, intervalFrom, Rect.mk.injEq,
      Interval.mk.injEq] at htarget
    obtain ⟨⟨hdx, hwidth⟩, hdy, hheight⟩ := htarget
    have hnat : ∀ {a : U32}, 0 ≤ a.toInt → (a.toNat : ℤ) = a.toInt := by
      intro a ha
      rcases toInt_cases a with h | h <;> omega
    have hdx' := @hnat b.dx (by omega)
    have hdy' := @hnat b.dy (by omega)
    have hsx' := @hnat b.sx (by omega)
    have hsy' := @hnat b.sy (by omega)
    have hinside : b.Inside image (disp.framebuffer fb) := by
      refine ⟨hfits.width_le, (disp.row_framebuffer fb).ge, ?_, ?_, ?_, ?_⟩
      · rw [hiw]
        omega
      · rw [hih]
        omega
      · show _ ≤ disp.width.toNat
        omega
      · show _ ≤ disp.height.toNat
        omega
    have hpixel : (px.composite .opOver image (disp.framebuffer fb) b).data
        (y * disp.width.toNat + x) =
        (px.composite .opOver image (disp.framebuffer fb) b).pixel x y := by
      rw [Image.pixel, Image.row, (px.composite_size _ _ _ _).2.2, ← Image.row,
        disp.row_framebuffer]
    have hbelow : (disp.framebuffer fb).pixel x y = fb (y * disp.width.toNat + x) := by
      rw [Image.pixel, disp.row_framebuffer]
      rfl
    rw [hclip, elim_some, hpixel, px.composite_over hinside hx hy, hbelow]
    by_cases hcover : surface.x.toInt ≤ x ∧ (x : ℤ) < surface.x.toInt + surface.width.toNat ∧
        surface.y.toInt ≤ y ∧ (y : ℤ) < surface.y.toInt + surface.height.toNat
    · have hpainted : b.Covers x y := ⟨by omega, by omega, by omega, by omega⟩
      rw [if_pos hcover, if_pos hpainted, map_some, elim_some,
        show b.sy.toNat + (y - b.dy.toNat) = (y - surface.y.toInt).toNat by omega,
        show b.sx.toNat + (x - b.dx.toNat) = (x - surface.x.toInt).toNat by omega]
    · have hpainted : ¬b.Covers x y := fun h => hcover (by rw [Blit.Covers] at h; omega)
      rw [if_neg hcover, if_neg hpainted, elim_none]

lemma foldl_paintSurface_eq {order : List Surface} (hsized : ∀ surface ∈ order, surface.Sized)
    (hx : x < disp.width.toNat) (hy : y < disp.height.toNat) (fb : ℕ → U32) :
    order.foldl (paintSurface px disp) fb (y * disp.width.toNat + x) =
      (order.filterMap (·.pixelAt x y)).foldl (fun below p => px.overPixel p below)
        (fb (y * disp.width.toNat + x)) := by
  induction order generalizing fb with
  | nil => rfl
  | cons surface order ih =>
    obtain ⟨hfirst, hrest⟩ := forall_mem_cons.mp hsized
    rw [foldl_cons, ih hrest, paintSurface_eq hfirst hx hy, filterMap_cons]
    cases surface.pixelAt x y <;> rfl

lemma paintLoop_mem {rounds : ℕ} {z : U32} {order : List Surface}
    (h : paintLoop surfaces rounds z = some order) : ∀ surface ∈ order, surface ∈ surfaces := by
  induction rounds generalizing z order with
  | zero => cases h
  | succ rounds ih =>
    rw [paintLoop] at h
    cases hnext : nextSurface surfaces z with
    | none =>
      rw [hnext, some.injEq] at h
      rw [← h]
      exact fun surface hsurface => absurd hsurface not_mem_nil
    | some next =>
      simp only [hnext, map_eq_some_iff] at h
      obtain ⟨rest, hrest, rfl⟩ := h
      rw [nextSurface_eq] at hnext
      exact forall_mem_cons.mpr
        ⟨(mem_filter.mp (leastFrom_eq_some hnext).1).1, ih hrest⟩

/-- **A frame**, pixel by pixel. -/
lemma compositeSurfaces_eq {hw' : ℕ → U8} (hsized : ∀ surface ∈ surfaces, surface.Sized)
    (hne : surfaces ≠ []) (h : compositeSurfaces px disp surfaces hw = some hw') :
    ∃ fb, hw' = flushFb disp fb hw ∧ ∀ x < disp.width.toNat, ∀ y < disp.height.toNat,
      fb (y * disp.width.toNat + x) =
        look px surfaces x y (loadPixels hw (y * disp.width.toNat + x)) := by
  rw [compositeSurfaces, if_neg (by rwa [List.isEmpty_iff]), map_eq_some_iff] at h
  obtain ⟨order, horder, rfl⟩ := h
  refine ⟨_, rfl, fun x hx y hy => ?_⟩
  rw [foldl_paintSurface_eq
    (fun surface hs => hsized surface (paintLoop_mem horder surface hs)) hx hy,
    look, horder, getD_some]

/-! ## What is seen of the frame before -/

lemma foldl_overPixel_zero {pixels : List U32} (h : ∀ p ∈ pixels, p = 0) (below : U32) :
    pixels.foldl (fun below p => px.overPixel p below) below = below := by
  induction pixels with
  | nil => rfl
  | cons p pixels ih =>
    obtain ⟨hp, hpixels⟩ := forall_mem_cons.mp h
    rw [foldl_cons, hp, px.overPixel_zero, ih hpixels]

lemma look_unmarked (h : ∀ surface ∈ surfaces, ¬surface.Marks x y) (below : U32) :
    look px surfaces x y below = below := by
  rw [look]
  cases horder : paintOrder surfaces with
  | none => rfl
  | some order =>
    refine foldl_overPixel_zero (fun p hp => ?_) below
    obtain ⟨surface, hsurface, hpixel⟩ := mem_filterMap.mp hp
    by_contra hne
    refine h surface (paintLoop_mem horder surface hsurface) ?_
    rw [Surface.Marks, hpixel]
    exact decide_eq_true hne

lemma foldl_overPixel_solid {pixels : List U32} {p : U32} (hp : p ∈ pixels) (hsolid : Solid p)
    (below below' : U32) :
    pixels.foldl (fun below p => px.overPixel p below) below =
      pixels.foldl (fun below p => px.overPixel p below) below' := by
  induction pixels generalizing below below' with
  | nil => exact absurd hp not_mem_nil
  | cons q pixels ih =>
    rw [foldl_cons, foldl_cons]
    rcases mem_cons.mp hp with rfl | hp
    · rw [px.overPixel_solid hsolid, px.overPixel_solid hsolid]
    · exact ih hp _ _

lemma look_hidden {s : Compositor} {n : ℕ} {top : Option U32} (h : Stacked s n top)
    (hn : n < 2 ^ 31 - 1) (hsurface : surface ∈ s.surfaces)
    (hhides : surface.Hides x y) (below below' : U32) :
    look px s.surfaces x y below = look px s.surfaces x y below' := by
  obtain ⟨p, hp, hsolid⟩ := any_eq_true _ _ |>.mp hhides
  obtain ⟨order, horder, -, hperm⟩ := h.paintOrder_eq hn
  have hmem : surface ∈ order := hperm.symm.subset
    (mem_filter.mpr ⟨hsurface, decide_eq_true (h.sized surface hsurface).shown⟩)
  rw [look, look, horder, getD_some]
  exact foldl_overPixel_solid (mem_filterMap.mpr ⟨surface, hmem, hp⟩)
    (of_decide_eq_true hsolid) _ _

lemma picture_byte {a : ℕ} (h : ¬MarkedByte disp surfaces a) :
    picture px disp background surfaces a = background a := by
  refine flushFb_byte fun hin => ?_
  have hx : a % disp.pitch / 4 < disp.width.toNat := by omega
  obtain ⟨hmod, hdiv⟩ := @place_of_index _ (a / disp.pitch) _ hx
  rw [hmod, hdiv, look_unmarked]
  exact fun surface hsurface hmarks => h ⟨hin, surface, hsurface, hmarks⟩

lemma loadPixels_picture {i : ℕ} (h : ∀ j < 4, ¬MarkedByte disp surfaces (4 * i + j)) :
    loadPixels (picture px disp background surfaces) i = loadPixels background i := by
  rw [loadPixels, loadPixels, le32_congr fun j hj => picture_byte (h j hj)]

/-! ## Runs -/

/-- The state in which all frames so far have been right. -/
structure InPicture (px : Pixman) (disp : Display) (background : ℕ → U8)
    (st : Compositor × (ℕ → U8)) : Prop where
  stacked : ∃ n top, Stacked st.1 n top
  hw_eq : st.2 = picture px disp background st.1.surfaces

lemma pixel_picture (hx : x < disp.width.toNat) (hy : y < disp.height.toNat) :
    disp.pixel (picture px disp background surfaces) x y =
      look px surfaces x y (disp.pixel background x y) := by
  obtain ⟨hmod, hdiv⟩ := @place_of_index x y _ hx
  rw [picture, pixel_flushFb hx hy, hmod, hdiv]

lemma flushFb_eq_picture (h : ∀ x < disp.width.toNat, ∀ y < disp.height.toNat,
      fb (y * disp.width.toNat + x) = look px surfaces x y (disp.pixel background x y)) :
    flushFb disp fb background = picture px disp background surfaces := by
  refine flushFb_congr fun x hx y hy => ?_
  obtain ⟨hmod, hdiv⟩ := @place_of_index x y _ hx
  rw [h x hx y hy, hmod, hdiv]

lemma InPicture.shows {st : Compositor × (ℕ → U8)} (h : InPicture px disp background st) :
    Shows px disp background st := by
  intro x hx y hy
  rw [h.hw_eq, pixel_picture hx hy]

lemma inPicture_start (px : Pixman) (disp : Display) (background : ℕ → U8) :
    InPicture px disp background (compositorStart disp.width disp.height, background) := by
  refine ⟨⟨0, none, stacked_start _ _⟩, ?_⟩
  funext a
  refine (picture_byte ?_).symm
  rintro ⟨-, surface, hsurface, -⟩
  exact absurd hsurface not_mem_nil

/-- **A frame after a right one** is right when nothing of that one comes through. -/
lemma InPicture.step {st st' : Compositor × (ℕ → U8)} {e : Event}
    (h : InPicture px disp background st) (hclean : Clean disp background st.1 e)
    (hstep : frameStep px disp st e = some st') : InPicture px disp background st' := by
  rw [frameStep, bind_eq_some_iff] at hstep
  obtain ⟨s', hs', hframe⟩ := hstep
  obtain ⟨hw', hhw', rfl⟩ := map_eq_some_iff.mp hframe
  obtain ⟨n, top, hstacked⟩ := h.stacked
  obtain ⟨hcount, hpixels⟩ := hclean
  replace hpixels := hpixels s' hs'
  obtain ⟨s₁, hchange, hfewer⟩ := changes_step hs'
  have hone : (e.raises st.1).toList.length ≤ 1 := by cases e.raises st.1 <;> simp
  have hlimit : n + (e.raises st.1).toList.length < 2 ^ 31 - 1 := by
    have hnext := hstacked.next
    omega
  have hafter := (hstacked.changes hchange hlimit).fewer hfewer
  refine ⟨⟨_, _, hafter⟩, ?_⟩
  dsimp only
  by_cases hempty : s'.surfaces = []
  · -- nothing is painted
    rw [compositeSurfaces, hempty, isEmpty_nil, if_pos rfl, some.injEq] at hhw'
    rw [← hhw', h.hw_eq]
    refine flushFb_eq_picture fun x hx y hy => ?_
    have hclean := (hpixels x hx y hy).1 hempty
    obtain ⟨hmod, hdiv⟩ := @place_of_index x y _ hx
    rw [hmod, hdiv, look_unmarked hclean, hempty, look_unmarked]
    exact fun surface hsurface => absurd hsurface not_mem_nil
  · obtain ⟨fb, hflush, hfb⟩ := compositeSurfaces_eq hafter.sized hempty hhw'
    rw [h.hw_eq] at hflush hfb
    rw [picture, flushFb_flushFb] at hflush
    rw [hflush]
    refine flushFb_eq_picture fun x hx y hy => ?_
    rw [hfb x hx y hy]
    rcases (hpixels x hx y hy).2 hempty with ⟨surface, hsurface, hhides⟩ | ⟨hsame, hbytes⟩
    · exact look_hidden hafter hlimit hsurface hhides _ _
    · rw [loadPixels_picture hbytes, hsame]

lemma stepsMeet_frames {s : Compositor} {es : List Event}
    (h : StepsMeet compositorStep (Clean disp background) s es) (hw : ℕ → U8) :
    StepsMeet (frameStep px disp) (fun st e => Clean disp background st.1 e) (s, hw) es := by
  induction es generalizing s hw with
  | nil => trivial
  | cons e es ih =>
    refine ⟨h.1, fun st hstep => ?_⟩
    obtain ⟨s', hs', hframe⟩ := bind_eq_some_iff.mp hstep
    obtain ⟨hw', -, rfl⟩ := map_eq_some_iff.mp hframe
    exact ih (h.2 s' hs') hw'

/-- **No ghosts.**  In a run with a frame after each event, in which nothing of the frame before
comes through, every frame shows the surfaces over the background. -/
theorem frames_right (px : Pixman) (disp : Display) (background : ℕ → U8) {es : List Event}
    {st : Compositor × (ℕ → U8)}
    (hclean : StepsMeet compositorStep (Clean disp background)
      (compositorStart disp.width disp.height) es)
    (hrun : run (frameStep px disp) (compositorStart disp.width disp.height, background) es =
      some st) : Shows px disp background st :=
  (run_invariant_of_meet InPicture.step (inPicture_start px disp background)
    (stepsMeet_frames hclean background) hrun).shows

/-- A screen of two pixels. -/
def twoPixels : Display := ⟨2, 1, 8, by decide, by decide, by decide⟩

/-- `XNX_SET_GEOMETRY`. -/
def geometryMessage (surfaceId x y width height : ℕ) : Message :=
  ⟨0x0004, le32Bytes surfaceId ++ le32Bytes x ++ le32Bytes y ++ le32Bytes width ++ le32Bytes height⟩

/-- `XNX_WRITE_BUFFER` of one pixel. -/
def pixelMessage (surfaceId x y pixel : ℕ) : Message :=
  ⟨0x0005, le32Bytes surfaceId ++ le32Bytes x ++ le32Bytes y ++ le32Bytes 1 ++ le32Bytes 1 ++
    le32Bytes pixel⟩

/-- A surface of one opaque pixel is shown at the left. -/
def shownSurface : List Event :=
  .accept 5 :: ((createMessage 1 1).events 0 ++ (pixelMessage 1 0 0 0xFF0000FF).events 0)

/-- The right pixel stays the background. -/
theorem frames_right_shown :
    ∃ st, run (frameStep plainPixman twoPixels) (compositorStart 2 1, fun _ => 0) shownSurface =
      some st ∧ Shows plainPixman twoPixels (fun _ => 0) st := by
  have hclean : StepsMeet compositorStep (Clean twoPixels fun _ => 0) (compositorStart 2 1)
      shownSurface := by
    decide +kernel
  have hsome : (run (frameStep plainPixman twoPixels) (compositorStart 2 1, fun _ => 0)
      shownSurface).isSome = true := by
    decide +kernel
  obtain ⟨st, hst⟩ := isSome_iff_exists.mp hsome
  exact ⟨st, hst, frames_right plainPixman twoPixels _ hclean hst⟩

/-- The surface is then moved to the right. -/
def movedSurface : List Event := shownSurface ++ (geometryMessage 1 1 0 1 1).events 0

/-- **A ghost.**  After the move no surface covers the left pixel, which shows the surface still. -/
theorem moved_surface_ghost :
    twoPixels.pixel (fun _ => 0) 0 0 = 0 ∧
    (run (frameStep plainPixman twoPixels) (compositorStart 2 1, fun _ => 0) movedSurface).map (fun st =>
      (st.1.surfaces.map (fun surface => (surface.pixelAt 0 0, surface.pixelAt 1 0)),
        twoPixels.pixel st.2 0 0, twoPixels.pixel st.2 1 0)) =
      some ([(none, some 0xFF0000FF)], 0xFF0000FF, 0xFF0000FF) := by
  decide +kernel

end OpenHobbyOS.Xnx
