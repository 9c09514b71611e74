/-
# Uploading pixels

`xnx_write_buffer` cuts a rectangle of pixels into messages of as many rows as fit.  The compositor
does a clipped copy (`clippedCopy`) of the rows of every message, and all together are one clipped
copy of the rectangle (`clippedCopy_append`).
-/
import OpenHobbyOS.Xnx.Painting
import OpenHobbyOS.Xnx.Payload

namespace OpenHobbyOS.Xnx

open Lib Reading Option List Nat

/-! ## The client -/

/-- The size of `struct xnx_write_buffer`. -/
def writeBufferBytes : ℕ := 20

/-- `XNX_WRITE_BUFFER` with the bytes of the pixels. -/
def writeBufferMessage (surfaceId x y width height : U32) (pixels : List U8) : Message :=
  ⟨0x0005, le32Bytes surfaceId.toNat ++ le32Bytes x.toNat ++ le32Bytes y.toNat ++
    le32Bytes width.toNat ++ le32Bytes height.toNat ++ pixels⟩

/-- The loop of `xnx_write_buffer` from `row` on; `height` rounds are enough. -/
def chunkLoop (surfaceId x y width height : U32) (pixels : ℕ → U32) (rowBytes rowsPerChunk : ℕ) :
    ℕ → ℕ → List Message
  | 0, _ => []
  | rounds + 1, row =>
    if height.toNat ≤ row then [] else
    let chunkRows := min (height.toNat - row) rowsPerChunk
    writeBufferMessage surfaceId x (y + BitVec.ofNat 32 row) width (BitVec.ofNat 32 chunkRows)
        (window (bytesOf pixels) (row * rowBytes) (chunkRows * rowBytes)) ::
      chunkLoop surfaceId x y width height pixels rowBytes rowsPerChunk rounds (row + chunkRows)

/-- The messages of `xnx_write_buffer`, nothing for `EMSGSIZE`. -/
def xnxWriteBuffer (surfaceId x y width height : U32) (pixels : ℕ → U32) : Option (List Message) :=
  let maxPixelBytes := xnxMaxMessageBytes - writeBufferBytes
  let rowBytes := width.toNat * 4 % 2 ^ 32
  if width = 0 ∨ height = 0 then some [] else
  if rowBytes = 0 ∨ maxPixelBytes < rowBytes then none else
  let rowsPerChunk := maxPixelBytes / rowBytes
  if rowsPerChunk = 0 then none else
  some (chunkLoop surfaceId x y width height pixels rowBytes rowsPerChunk height.toNat 0)

/-- Messages of a client handled in order; `behind` is what its buffer holds behind each. -/
def handleAll (idx : ℕ) (client : Client) (out : Outside) (behind : ℕ → U8) (s : Compositor)
    (msgs : List Message) : Compositor :=
  msgs.foldl (fun s m => (run (fun i => m.payload.getD i (behind i))
    (handleClientMessage s idx client m.type m.payload.length out)).comp) s

/-! ## The copy -/

/-- The pixel `k` lies in the image and in the rectangle. -/
def InRect (image : Image) (x y width height k : ℕ) : Prop :=
  x ≤ k % image.row ∧ k % image.row < x + width ∧ k % image.row < image.width.toNat ∧
    y ≤ k / image.row ∧ k / image.row < y + height ∧ k / image.row < image.height.toNat

instance decidableInRect (image : Image) (x y width height k : ℕ) :
    Decidable (InRect image x y width height k) := inferInstanceAs (Decidable (_ ∧ _))

/-- A pixel of the image after the copy of a rectangle. -/
def clippedPixel (image : Image) (x y width height : ℕ) (pixels : ℕ → U32) (k : ℕ) : U32 :=
  if InRect image x y width height k then
    pixels ((k / image.row - y) * width + (k % image.row - x))
  else image.data k

/-- The image with a rectangle of pixels copied to a place. -/
def clippedCopy (image : Image) (x y width height : ℕ) (pixels : ℕ → U32) : Image :=
  { image with data := clippedPixel image x y width height pixels }

variable {image : Image} {x y width rows k : ℕ} {pixels : ℕ → U32}

lemma clippedPixel_zero : clippedPixel image x y width 0 pixels = image.data := by
  funext k
  refine if_neg fun h => ?_
  rw [InRect] at h
  omega

lemma clippedPixel_append (image : Image) (x y width row rows : ℕ) (pixels : ℕ → U32) (k : ℕ) :
    clippedPixel image x y width (row + rows) pixels k =
      if InRect image x (y + row) width rows k then
        pixels (row * width + ((k / image.row - (y + row)) * width + (k % image.row - x)))
      else clippedPixel image x y width row pixels k := by
  rw [clippedPixel, clippedPixel]
  by_cases hin : InRect image x (y + row) width rows k
  · have hall : InRect image x y width (row + rows) k := by
      rw [InRect] at hin ⊢
      omega
    have hrow : row + (k / image.row - (y + row)) = k / image.row - y := by
      have := hin.2.2.2.1
      omega
    rw [if_pos hin, if_pos hall, ← add_assoc, ← add_mul, hrow]
  · rw [if_neg hin]
    refine if_congr ?_ rfl rfl
    rw [InRect] at hin
    rw [InRect, InRect]
    omega

lemma clippedCopy_append (image : Image) (x y width row rows : ℕ) (pixels : ℕ → U32) :
    clippedCopy (clippedCopy image x y width row pixels) x (y + row) width rows
        (fun k => pixels (row * width + k)) =
      clippedCopy image x y width (row + rows) pixels := by
  have hdata : clippedPixel (clippedCopy image x y width row pixels) x (y + row) width rows
      (fun k => pixels (row * width + k)) = clippedPixel image x y width (row + rows) pixels := by
    funext k
    rw [clippedPixel_append]
    rfl
  rw [clippedCopy, hdata]
  rfl

/-! ## One message -/

variable {f : ℕ → U8} {s : Compositor} {fd : ℤ} {i : ℕ} {surface : Surface}

lemma run_readPixels {offset start n : ℕ} (hoffset : offset + 4 * n ≤ 2 ^ 32)
    (h : ∀ k < 4 * n, f (offset + k) = bytesOf pixels (4 * start + k)) :
    run f (readPixels offset n) = (range n).map fun k => pixels (start + k) := by
  rw [readPixels, run_bind, run_pure, run_getAll]
  refine map_congr_left fun k hk => ?_
  rw [mem_range] at hk
  have hbytes : ∀ j < 4 * n,
      (((range (4 * n)).map fun k => (offset + k) % 2 ^ 32).map f).getD j 0 =
      bytesOf pixels (4 * start + j) := by
    intro j hj
    rw [getD_eq_getElem?_getD, getElem?_map, getElem?_map, getElem?_range hj,
      map_some, map_some, getD_some, mod_eq_of_lt (by omega), h j hj]
  have hle : le32 ((((range (4 * n)).map fun k => (offset + k) % 2 ^ 32).map f).getD · 0)
      (4 * k) = le32 (bytesOf pixels) (4 * (start + k)) := by
    refine le32_congr fun j hj => ?_
    rw [hbytes (4 * k + j) (by omega)]
    congr 1
    omega
  rw [hle, le32_bytesOf, BitVec.ofNat_toNat, BitVec.setWidth_eq]

lemma run_copyRows {n bufferWidth cut : ℕ} (hcut : cut = min bufferWidth (image.width.toNat - x))
    (hx : x < image.width.toNat) (hn : y + n ≤ image.height.toNat)
    (hfits : image.Fits)
    (hsize : 20 + n * bufferWidth * 4 ≤ 2 ^ 16)
    (h : ∀ k < n * bufferWidth * 4, f (20 + k) = bytesOf pixels k) :
    run f ((range n).foldlM (copyRow image x y bufferWidth cut) image.data) =
      clippedPixel image x y bufferWidth n pixels := by
  rw [run_foldlM]
  -- on the number of rows
  induction n with
  | zero =>
    rw [clippedPixel_zero]
    rfl
  | succ n ih =>
    have hrows : n * bufferWidth * 4 + bufferWidth * 4 = (n + 1) * bufferWidth * 4 := by ring
    have hpix := @run_readPixels pixels f (20 + n * bufferWidth * 4) (n * bufferWidth) cut
      (by omega) fun k hk => by
        rw [add_assoc, h _ (by omega), mul_comm 4]
    have hwidth := hfits.width_le
    have hdst : (y + n) * image.row + x < 2 ^ 32 := by
      have hlt := hfits.lt
      have := mul_le_mul_right image.row (show y + n + 1 ≤ image.height.toNat by omega)
      rw [add_mul, one_mul, mul_comm image.height.toNat] at this
      omega
    rw [range_succ, foldl_concat, ih (by omega) (by omega) fun k hk => h k (by omega),
      copyRow, run_bind, run_pure, mod_eq_of_lt hdst, mod_eq_of_lt (by omega), hpix]
    funext k
    rw [clippedPixel_append, splice, getD_eq_getElem?_getD, getElem?_map]
    have hdiv := div_add_mod' k image.row
    have hmod := mod_lt k (show 0 < image.row by omega)
    by_cases hin : InRect image x (y + n) bufferWidth 1 k
    · -- the pixel lies in the row
      obtain ⟨h₁, h₂, h₃, h₄, h₅, -⟩ := id hin
      have hrow : k / image.row = y + n := by omega
      rw [hrow] at hdiv
      have hk : k - ((y + n) * image.row + x) = k % image.row - x := by omega
      rw [if_pos hin, if_pos (by omega), hk, getElem?_range (by omega), map_some,
        getD_some, hrow, Nat.sub_self, Nat.zero_mul, Nat.zero_add]
    · rw [if_neg hin]
      split_ifs with hle
      · rw [getElem?_eq_none, map_none, getD_none]
        rw [length_range]
        by_contra hlt
        -- otherwise the index would lie in the row
        refine hin ?_
        have hrow : k / image.row = y + n := by
          rw [Nat.div_eq_iff (by omega)]
          omega
        rw [hrow] at hdiv
        rw [InRect, hrow]
        omega
      · rfl

/-- The compositor with another image of the surface at an index. -/
def putImage (s : Compositor) (i : ℕ) (surface : Surface) (image : Image) : Compositor :=
  { s with surfaces := s.surfaces.set i { surface with image := some image } }

lemma field_of_holds {i : ℕ} {v : U32} (h : Holds f i (le32Bytes v.toNat)) : field f i = v := by
  rw [field, le32_of_holds v.isLt h, BitVec.ofNat_toNat, BitVec.setWidth_eq]

lemma clippedCopy_nothing {height : ℕ} (h : ∀ k, ¬InRect image x y width height k) :
    clippedCopy image x y width height pixels = image := by
  have hdata : clippedPixel image x y width height pixels = image.data := by
    funext k
    exact if_neg (h k)
  rw [clippedCopy, hdata]

lemma putImage_self (hi : s.surfaces[i]? = some surface) (himage : surface.image = some image) :
    putImage s i surface image = s := by
  obtain ⟨hlt, hget⟩ := List.getElem?_eq_some_iff.mp hi
  have hset : ({ surface with image := some image } : Surface) = s.surfaces[i] := by
    rw [← himage, hget]
  rw [putImage, hset, set_getElem_self hlt]

lemma clippedPixel_min {height : ℕ} :
    clippedPixel image x y width (min height (image.height.toNat - y)) pixels =
      clippedPixel image x y width height pixels := by
  funext k
  refine if_congr ?_ rfl rfl
  rw [InRect, InRect]
  omega

/-- **One message**: the image of the surface gets a clipped copy of its rows. -/
lemma handle_writeBuffer {idx : ℕ} {client : Client} {out : Outside} {id px py w h : U32} {size : ℕ}
    (hown : ownSurface s client.fd id = some (i, surface)) (hsized : surface.Sized)
    (himage : surface.image = some image) (hw0 : 0 < w.toNat) (hh0 : 0 < h.toNat)
    (hsize : size = 20 + h.toNat * w.toNat * 4) (hlimit : size ≤ 2 ^ 16)
    (hid : Holds f 0 (le32Bytes id.toNat)) (hx : Holds f 4 (le32Bytes px.toNat))
    (hy : Holds f 8 (le32Bytes py.toNat)) (hw : Holds f 12 (le32Bytes w.toNat))
    (hh : Holds f 16 (le32Bytes h.toNat))
    (hpixels : ∀ k < h.toNat * w.toNat * 4, f (20 + k) = bytesOf pixels k) :
    (run f (handleClientMessage s idx client 0x0005 size out)).comp =
      putImage s i surface (clippedCopy image px.toNat py.toNat w.toNat h.toNat pixels) := by
  obtain ⟨old, hold, hiw, hih, hfits⟩ := hsized.image
  rw [himage, some.injEq] at hold
  subst hold
  have hpos := hsized.pos
  have hwidth := hfits.width_le
  rw [← hiw, ← hih] at hpos
  have hne : ∀ {v : U32}, 0 < v.toNat → v ≠ 0 := by
    rintro v hv rfl
    exact absurd hv (by decide)
  have hbytes : ¬size - 20 < w.toNat * h.toNat * 4 % 2 ^ 32 := by
    rw [mul_comm w.toNat, mod_eq_of_lt (by omega)]
    omega
  rw [handleClientMessage, show Request.ofType 0x0005 = some .writeBuffer from rfl]
  dsimp only
  rw [if_neg (by omega)]
  simp only [run_bind, run_payloadU32, field_of_holds hw, field_of_holds hh, if_neg hbytes]
  rw [run_pure]
  show run f (handleWriteBuffer s client.fd) = _
  simp only [handleWriteBuffer, run_bind, run_payloadU32, field_of_holds hid, hown, himage,
    field_of_holds hw, field_of_holds hh, field_of_holds hx, field_of_holds hy,
    if_neg (not_or.mpr ⟨hne hw0, hne hh0⟩)]
  by_cases hout : surface.width ≤ px ∨ surface.height ≤ py
  · rw [if_pos hout, run_pure, clippedCopy_nothing, putImage_self (ownSurface_some hown).1 himage]
    intro k hin
    rw [← hiw, ← hih, BitVec.le_def, BitVec.le_def] at hout
    rw [InRect] at hin
    omega
  · rw [if_neg hout, if_neg (by omega), run_bind, run_pure]
    rw [← hiw, ← hih, not_or, BitVec.not_le, BitVec.not_le] at hout
    have hx' : px.toNat < image.width.toNat := hout.1
    have hy' : py.toNat < image.height.toNat := hout.2
    have hcut : (surface.width - px).toNat = image.width.toNat - px.toNat := by
      rw [← hiw, BitVec.toNat_sub_of_le hx'.le]
    have hrows : (surface.height - py).toNat = image.height.toNat - py.toNat := by
      rw [← hih, BitVec.toNat_sub_of_le hy'.le]
    have hless : min h.toNat (image.height.toNat - py.toNat) * w.toNat * 4 ≤
        h.toNat * w.toNat * 4 :=
      mul_le_mul_right _ (mul_le_mul_right _ (min_le_left _ _))
    have hcopy := @run_copyRows image px.toNat py.toNat pixels f
      (min h.toNat (image.height.toNat - py.toNat)) w.toNat _ rfl hx' (by omega) hfits
      (by omega) fun k hk => hpixels k (by omega)
    rw [hcut, hrows, hcopy, clippedPixel_min]
    rfl

/-! ## All messages -/

lemma putImage_putImage {old image : Image} :
    putImage (putImage s i surface old) i { surface with image := some old } image =
      putImage s i surface image := by
  rw [putImage, putImage, set_set]
  rfl

lemma ownSurface_putImage {id : U32} (hown : ownSurface s fd id = some (i, surface)) :
    ownSurface (putImage s i surface image) fd id =
      some (i, { surface with image := some image }) := by
  obtain ⟨hfind, hi, hfd⟩ := ownSurface_eq_some.mp hown
  have hids : ∀ s : Compositor, findSurface s id = (s.surfaces.map (·.id)).findIdx? (· = id) := by
    intro s
    rw [findSurface, findIdx?_map]
    rfl
  have hsame : (putImage s i surface image).surfaces.map (·.id) = s.surfaces.map (·.id) :=
    map_set_same _ hi rfl
  refine ownSurface_eq_some.mpr ⟨?_, ?_, hfd⟩
  · rw [hids, hsame, ← hids, hfind]
  · exact List.getElem?_set_self (List.getElem?_eq_some_iff.mp hi).1

lemma holds_payload (xs : List U8) (behind : ℕ → U8) :
    Holds (fun i => xs.getD i (behind i)) 0 xs := by
  refine ext_getElem length_window fun i _ hi => ?_
  simp only [window, getElem_map, getElem_range', zero_add, one_mul,
    getD_eq_getElem _ _ hi]

lemma bytesOf_shift (pixels : ℕ → U32) (a k : ℕ) :
    bytesOf pixels (a * 4 + k) = bytesOf (fun k => pixels (a + k)) k := by
  rw [bytesOf, bytesOf, mul_comm, mul_add_div (by decide), mul_add_mod]

lemma handle_writeBufferMessage {idx : ℕ} {client : Client} {out : Outside} {behind : ℕ → U8}
    {id px py w h : U32} {row : ℕ} {bytes : List U8}
    (hbytes : bytes = window (bytesOf pixels) (row * (w.toNat * 4)) (h.toNat * (w.toNat * 4)))
    (hown : ownSurface s client.fd id = some (i, surface)) (hsized : surface.Sized)
    (himage : surface.image = some image) (hw0 : 0 < w.toNat) (hh0 : 0 < h.toNat)
    (hlimit : 20 + h.toNat * (w.toNat * 4) ≤ 2 ^ 16) :
    handleAll idx client out behind s [writeBufferMessage id px py w h bytes] =
      putImage s i surface (clippedCopy image px.toNat py.toNat w.toNat h.toNat
        fun k => pixels (row * w.toNat + k)) := by
  have hholds := holds_payload (writeBufferMessage id px py w h bytes).payload behind
  rw [handleAll, foldl_cons, foldl_nil]
  generalize (fun i => (writeBufferMessage id px py w h bytes).payload.getD i (behind i)) = f
    at hholds ⊢
  subst hbytes
  rw [writeBufferMessage, holds_append, holds_append, holds_append, holds_append,
    holds_append] at hholds
  obtain ⟨⟨⟨⟨⟨hid, hx⟩, hy⟩, hw⟩, hh⟩, hpixels⟩ := hholds
  rw [Holds, length_window, window_eq_iff] at hpixels
  refine handle_writeBuffer hown hsized himage hw0 hh0 ?_ ?_ hid hx hy hw hh fun k hk => ?_
  · simp only [writeBufferMessage, length_append, length_le32Bytes, length_window]
    rw [mul_assoc]
  · simp only [writeBufferMessage, length_append, length_le32Bytes, length_window]
    exact hlimit
  · rw [← bytesOf_shift, mul_assoc]
    exact hpixels k (by rwa [← mul_assoc])

/-- **The loop of the client.**  What is left of it copies the rows from `row` on. -/
lemma handleAll_chunkLoop {idx : ℕ} {client : Client} {out : Outside} {behind : ℕ → U8}
    {id x y width height : U32} {rounds row n : ℕ}
    (hown : ownSurface s client.fd id = some (i, surface)) (hsized : surface.Sized)
    (himage : surface.image = some image) (hy : y.toNat + height.toNat < 2 ^ 32)
    (hw : 0 < width.toNat) (hn : 0 < n) (hlimit : 20 + n * (width.toNat * 4) ≤ 2 ^ 16)
    (hrow : row ≤ height.toNat) (hrounds : height.toNat ≤ row + rounds) :
    handleAll idx client out behind
        (putImage s i surface (clippedCopy image x.toNat y.toNat width.toNat row pixels))
        (chunkLoop id x y width height pixels (width.toNat * 4) n rounds row) =
      putImage s i surface (clippedCopy image x.toNat y.toNat width.toNat height.toNat pixels) := by
  -- on the rounds; between two messages the rows above `row` have been copied
  induction rounds generalizing row with
  | zero =>
    obtain rfl : row = height.toNat := by omega
    rfl
  | succ rounds ih =>
    rw [chunkLoop]
    split_ifs with hend
    · obtain rfl : row = height.toNat := by omega
      rfl
    · dsimp only
      generalize hrows : min (height.toNat - row) n = rows
      have hless : rows * (width.toNat * 4) ≤ n * (width.toNat * 4) :=
        mul_le_mul_right _ (by omega)
      have hyrow : (y + BitVec.ofNat 32 row).toNat = y.toNat + row := by
        rw [BitVec.toNat_add, BitVec.toNat_ofNat]
        omega
      have hrows' : (BitVec.ofNat 32 rows).toNat = rows := by
        rw [BitVec.toNat_ofNat]
        omega
      obtain ⟨old, hold, hiw, hih, hfits⟩ := hsized.image
      rw [himage, some.injEq] at hold
      subst hold
      have hone := @handle_writeBufferMessage
        (clippedCopy image x.toNat y.toNat width.toNat row pixels) pixels
        (putImage s i surface (clippedCopy image x.toNat y.toNat width.toNat row pixels)) i
        { surface with image := some (clippedCopy image x.toNat y.toNat width.toNat row pixels) }
        idx client out behind id x (y + BitVec.ofNat 32 row) width (BitVec.ofNat 32 rows) row _ rfl
        (ownSurface_putImage hown)
        ⟨hsized.visible, ⟨_, rfl, hiw, hih, hfits.width_le, hfits.lt⟩, hsized.pos⟩ rfl hw (by rw [hrows']; omega) (by rw [hrows']; omega)
      rw [hrows', hyrow, clippedCopy_append, putImage_putImage] at hone
      rw [handleAll, foldl_cons]
      rw [handleAll, foldl_cons, foldl_nil] at hone
      rw [hone]
      exact ih (by omega) (by omega)

/-- **Uploading pixels.**  The messages of `xnx_write_buffer` handled in order are one copy of the
rectangle to its place, cut to the surface: nothing else changes. -/
theorem upload_right {fbWidth fbHeight : U32} {es : List Event} {s : Compositor} {client : Client}
    {id : U32} {i : ℕ} {surface : Surface}
    (hrun : Lib.run compositorStep (compositorStart fbWidth fbHeight) es = some s)
    (hown : ownSurface s client.fd id = some (i, surface)) (x y width height : U32)
    (pixels : ℕ → U32) (hy : y.toNat + height.toNat < 2 ^ 32)
    (hrow : width.toNat * 4 ≤ xnxMaxMessageBytes - writeBufferBytes) (idx : ℕ) (out : Outside)
    (behind : ℕ → U8) :
    ∃ msgs image, xnxWriteBuffer id x y width height pixels = some msgs ∧
      surface.image = some image ∧
      handleAll idx client out behind s msgs = putImage s i surface
        (clippedCopy image x.toNat y.toNat width.toNat height.toNat pixels) := by
  have hall : ∀ x ∈ s.surfaces, x.Sized :=
    run_invariant (P := fun s => ∀ x ∈ s.surfaces, x.Sized) sized_step
      (fun x hx => absurd hx not_mem_nil) hrun
  have hi := (ownSurface_some hown).1
  have hsized := hall surface (mem_of_getElem? hi)
  obtain ⟨image, himage, -⟩ := hsized.image
  have hmax : xnxMaxMessageBytes - writeBufferBytes = 65516 := rfl
  rw [xnxWriteBuffer, hmax, mod_eq_of_lt (by omega)]
  rw [hmax] at hrow
  have hzero : ∀ v : U32, v = 0 ↔ v.toNat = 0 := fun v => BitVec.toNat_inj.symm
  by_cases hempty : width = 0 ∨ height = 0
  · refine ⟨[], image, if_pos hempty, himage, ?_⟩
    rw [hzero, hzero] at hempty
    rw [clippedCopy_nothing, putImage_self hi himage]
    · rfl
    · intro k hin
      rw [InRect] at hin
      omega
  · rw [if_neg hempty]
    rw [hzero, hzero] at hempty
    have hchunk : 65516 / (width.toNat * 4) ≠ 0 := (div_pos hrow (by omega)).ne'
    rw [if_neg (by omega), if_neg hchunk]
    refine ⟨_, image, rfl, himage, ?_⟩
    have hloop := @handleAll_chunkLoop image pixels s i surface idx client out behind id x y width
      height height.toNat 0 (65516 / (width.toNat * 4)) hown hsized himage hy (by omega)
      (pos_of_ne_zero hchunk) (by have := div_mul_le_self 65516 (width.toNat * 4); omega)
      (zero_le _) (by omega)
    rwa [clippedCopy, clippedPixel_zero, putImage_self hi himage] at hloop

/-- A client with a surface of 3 by 2 pixels. -/
def oneSurface : List Event := .accept 5 :: (createMessage 3 2).events 0

/-- Two rows of two pixels at the lower right corner of the surface. -/
theorem upload_corner :
    ∃ s client surface msgs image,
      Lib.run compositorStep (compositorStart 640 480) oneSurface = some s ∧
      ownSurface s client.fd 1 = some (0, surface) ∧
      xnxWriteBuffer 1 2 1 2 2 (fun _ => 7) = some msgs ∧ surface.image = some image ∧
      handleAll 0 client plainOutside (fun _ => 0) s msgs =
        putImage s 0 surface (clippedCopy image 2 1 2 2 fun _ => 7) := by
  have hfound : ((Lib.run compositorStep (compositorStart 640 480) oneSurface).bind fun s =>
      s.clients[0]?.bind fun client => (ownSurface s client.fd 1).map (·.1)) = some 0 := by
    decide +kernel
  obtain ⟨s, hs, hfound⟩ := bind_eq_some_iff.mp hfound
  obtain ⟨client, -, hfound⟩ := bind_eq_some_iff.mp hfound
  obtain ⟨⟨-, surface⟩, hown, rfl⟩ := map_eq_some_iff.mp hfound
  obtain ⟨msgs, image, hmsgs, himage, hall⟩ := upload_right hs hown 2 1 2 2 (fun _ => 7)
    (by decide) (by decide) 0 plainOutside fun _ => 0
  exact ⟨s, client, surface, msgs, image, hs, hown, hmsgs, himage, hall⟩

/-- **Surfaces can be drawn**, after any events. -/
theorem sized_of_run {fbWidth fbHeight : U32} {es : List Event} {s : Compositor}
    (hrun : Lib.run compositorStep (compositorStart fbWidth fbHeight) es = some s) :
    ∀ x ∈ s.surfaces, x.Sized :=
  run_invariant (P := fun s => ∀ x ∈ s.surfaces, x.Sized) sized_step
    (fun _ hx => absurd hx not_mem_nil) hrun

theorem sized_oneSurface :
    ∃ s, Lib.run compositorStep (compositorStart 640 480) oneSurface = some s ∧
      s.surfaces.length = 1 ∧ ∀ x ∈ s.surfaces, x.Sized := by
  have hone : (Lib.run compositorStep (compositorStart 640 480) oneSurface).map
      (·.surfaces.length) = some 1 := by decide +kernel
  obtain ⟨s, hs, hone⟩ := map_eq_some_iff.mp hone
  exact ⟨s, hs, hone, sized_of_run hs⟩

end OpenHobbyOS.Xnx
