/-
# What the handlers read of a message

Behind the bytes of a message the client's buffer holds what is left from earlier messages, and
behind the buffer lies other memory.  Two handlers copy data of a length that the fields give: a
title up to a zero byte, and rows of pixels whose total size is computed modulo `2 ^ 32`.
-/
import OpenHobbyOS.Xnx.Compositor

namespace OpenHobbyOS.Xnx

open Lib Reading List

variable {f g : ℕ → U8} {n : ℕ}

/-- The computation is a function of the first `n` bytes of the buffer `f`. -/
def OfMessage {α : Type} (n : ℕ) (f : ℕ → U8) (m : Payload α) : Prop :=
  (∀ i ∈ m.touched f, i < n) ∧ ∀ g : ℕ → U8, (∀ i < n, f i = g i) → m.run f = m.run g

lemma ofMessage_iff {α : Type} {m : Payload α} :
    OfMessage n f m ↔ ∀ i ∈ m.touched f, i < n :=
  ⟨fun h => h.1, fun h => ⟨h, fun _ hfg => (run_congr fun i hi => hfg i (h i hi)).1⟩⟩

/-! ## Fields, strings and pixels -/

/-- A field of the message. -/
def field (f : ℕ → U8) (i : ℕ) : U32 := BitVec.ofNat 32 (le32 f i)

@[simp] lemma touched_payloadU32 (i : ℕ) : touched f (payloadU32 i) = [i, i + 1, i + 2, i + 3] := by
  rw [payloadU32, touched_bind, touched_getAll, touched_pure, append_nil]

@[simp] lemma run_payloadU32 (i : ℕ) : run f (payloadU32 i) = field f i := by
  rw [payloadU32, run_bind, run_getAll, run_pure, field]
  rfl

lemma strncpy_inside {i k : ℕ} (hk : 0 < k) :
    (∀ j ∈ touched f (strncpy i k), j < n) ↔ i + k ≤ n ∨ ∃ j, i ≤ j ∧ j < n ∧ f j = 0 := by
  induction k generalizing i with
  | zero => exact absurd hk (Nat.lt_irrefl 0)
  | succ k ih =>
    rw [strncpy, touched_bind, touched_get, run_get, singleton_append, forall_mem_cons]
    by_cases hzero : f i = 0
    · rw [if_pos hzero, touched_pure]
      constructor
      · rintro ⟨hi, -⟩
        exact .inr ⟨i, le_rfl, hi, hzero⟩
      · rintro (hle | ⟨j, hij, hj, -⟩)
        · exact ⟨by omega, by simp⟩
        · exact ⟨by omega, by simp⟩
    · rw [if_neg hzero, touched_bind, touched_pure, append_nil]
      rcases Nat.eq_zero_or_pos k with rfl | hk'
      · -- the last byte
        rw [strncpy, touched_pure]
        constructor
        · rintro ⟨hi, -⟩
          exact .inl hi
        · rintro (hle | ⟨j, hij, hj, -⟩)
          · exact ⟨hle, by simp⟩
          · exact ⟨by omega, by simp⟩
      · rw [ih hk']
        constructor
        · rintro ⟨hi, hle | ⟨j, hij, hj, hz⟩⟩
          · exact .inl (by omega)
          · exact .inr ⟨j, by omega, hj, hz⟩
        · rintro (hle | ⟨j, hij, hj, hz⟩)
          · exact ⟨by omega, .inl (by omega)⟩
          · have hne : i ≠ j := fun h => hzero (h ▸ hz)
            exact ⟨by omega, .inr ⟨j, by omega, hj, hz⟩⟩

/-- The offsets of the bytes of a row. -/
def rowOffsets (bufferWidth width row : ℕ) : List ℕ :=
  (List.range (4 * width)).map fun k => (20 + row * bufferWidth * 4 % 2 ^ 32 + k) % 2 ^ 32

lemma touched_copyRow (image : Image) (x y bufferWidth width : ℕ) (data : ℕ → U32) (row : ℕ) :
    touched f (copyRow image x y bufferWidth width data row) = rowOffsets bufferWidth width row := by
  rw [copyRow, touched_bind, touched_pure, append_nil, readPixels, touched_bind, touched_getAll,
    touched_pure, append_nil, rowOffsets]

/-! ## The handlers -/

variable {s : Compositor} {fd : ℤ}

lemma handleSetGeometry_inside (px : Pixman) {j : ℕ}
    (hj : j ∈ touched f (handleSetGeometry s fd px)) : j < 20 := by
  rw [handleSetGeometry, touched_bind, touched_payloadU32, run_payloadU32] at hj
  cases hown : ownSurface s fd (field f 0) with
  | none =>
    simp only [hown, touched_pure, append_nil, mem_cons, not_mem_nil, or_false] at hj
    omega
  | some own =>
    simp only [hown, touched_bind, touched_payloadU32, touched_pure, append_nil,
      mem_append, mem_cons, not_mem_nil, or_false] at hj
    omega

/-- The title ends inside the message, or fills the title. -/
def TitleInside (s : Compositor) (fd : ℤ) (n : ℕ) (f : ℕ → U8) : Prop :=
  (ownSurface s fd (field f 0)).isSome → 67 ≤ n ∨ ∃ j, 4 ≤ j ∧ j < n ∧ f j = 0

lemma first_inside {is : List ℕ} (hn : 4 ≤ n) :
    (∀ j ∈ [0, 0 + 1, 0 + 2, 0 + 3] ++ is, j < n) ↔ ∀ j ∈ is, j < n := by
  simp only [forall_mem_append, forall_mem_cons, not_mem_nil, false_imp_iff,
    implies_true, and_true]
  constructor
  · exact And.right
  · exact fun h => ⟨⟨by omega, by omega, by omega, by omega⟩, h⟩

lemma handleSetTitle_inside (hn : 4 ≤ n) :
    (∀ j ∈ touched f (handleSetTitle s fd), j < n) ↔ TitleInside s fd n f := by
  rw [handleSetTitle, touched_bind, touched_payloadU32, run_payloadU32, first_inside hn, TitleInside]
  cases hown : ownSurface s fd (field f 0) with
  | none => simp
  | some own =>
    rw [← strncpy_inside (f := f) (show 0 < 63 by decide)]
    simp

/-- The rows of pixels that are copied lie inside the message. -/
def PixelsInside (s : Compositor) (fd : ℤ) (n : ℕ) (f : ℕ → U8) : Prop :=
  ∀ i surface image, ownSurface s fd (field f 0) = some (i, surface) →
    surface.image = some image → image.row ≠ 0 →
    field f 12 ≠ 0 → field f 16 ≠ 0 → field f 4 < surface.width → field f 8 < surface.height →
    ∀ row < min (field f 16).toNat (surface.height - field f 8).toNat,
    ∀ k < 4 * min (field f 12).toNat (surface.width - field f 4).toNat,
      (20 + row * (field f 12).toNat * 4 % 2 ^ 32 + k) % 2 ^ 32 < n

lemma touched_handleWriteBuffer {i : ℕ} {surface : Surface} {image : Image}
    (hown : ownSurface s fd (field f 0) = some (i, surface)) (himage : surface.image = some image)
    (hstride : image.row ≠ 0) (hw : field f 12 ≠ 0) (hh : field f 16 ≠ 0)
    (hx : field f 4 < surface.width) (hy : field f 8 < surface.height) :
    touched f (handleWriteBuffer s fd) = [0, 0 + 1, 0 + 2, 0 + 3] ++
      ([12, 12 + 1, 12 + 2, 12 + 3] ++ ([16, 16 + 1, 16 + 2, 16 + 3] ++
      ([4, 4 + 1, 4 + 2, 4 + 3] ++ ([8, 8 + 1, 8 + 2, 8 + 3] ++
      (List.range (min (field f 16).toNat (surface.height - field f 8).toNat)).flatMap
        (rowOffsets (field f 12).toNat
          (min (field f 12).toNat (surface.width - field f 4).toNat)))))) := by
  have hsize : ¬(field f 12 = 0 ∨ field f 16 = 0) := not_or.mpr ⟨hw, hh⟩
  have hplace : ¬(surface.width ≤ field f 4 ∨ surface.height ≤ field f 8) :=
    not_or.mpr ⟨BitVec.not_le.mpr hx, BitVec.not_le.mpr hy⟩
  simp only [handleWriteBuffer, touched_bind, touched_payloadU32, run_payloadU32, hown, himage,
    if_neg hsize, if_neg hplace, if_neg hstride, touched_pure, append_nil,
    touched_foldlM (touched_copyRow _ _ _ _ _)]

lemma handleWriteBuffer_inside (hn : 20 ≤ n) :
    (∀ j ∈ touched f (handleWriteBuffer s fd), j < n) ↔ PixelsInside s fd n f := by
  constructor
  · intro h i surface image hown himage hstride hw hh hx hy row hrow k hk
    rw [touched_handleWriteBuffer hown himage hstride hw hh hx hy] at h
    refine h _ ?_
    simp only [mem_append, mem_flatMap, mem_range]
    exact .inr (.inr (.inr (.inr (.inr ⟨row, hrow,
      mem_map.mpr ⟨k, mem_range.mpr hk, rfl⟩⟩))))
  · intro h j hj
    cases hown : ownSurface s fd (field f 0) with
    | none =>
      simp only [handleWriteBuffer, touched_bind, touched_payloadU32, run_payloadU32, hown,
        touched_pure, append_nil, mem_cons, not_mem_nil, or_false] at hj
      omega
    | some own =>
      obtain ⟨i, surface⟩ := own
      cases himage : surface.image with
      | none =>
        simp only [handleWriteBuffer, touched_bind, touched_payloadU32, run_payloadU32, hown,
          himage, touched_pure, append_nil, mem_cons, not_mem_nil, or_false] at hj
        omega
      | some image =>
        by_cases hsize : field f 12 = 0 ∨ field f 16 = 0
        · simp only [handleWriteBuffer, touched_bind, touched_payloadU32, run_payloadU32, hown,
            himage, if_pos hsize, touched_pure, append_nil, mem_append, mem_cons,
            not_mem_nil, or_false] at hj
          omega
        by_cases hplace : surface.width ≤ field f 4 ∨ surface.height ≤ field f 8
        · simp only [handleWriteBuffer, touched_bind, touched_payloadU32, run_payloadU32, hown,
            himage, if_neg hsize, if_pos hplace, touched_pure, append_nil, mem_append,
            mem_cons, not_mem_nil, or_false] at hj
          omega
        by_cases hstride : image.row = 0
        · simp only [handleWriteBuffer, touched_bind, touched_payloadU32, run_payloadU32, hown,
            himage, if_neg hsize, if_neg hplace, if_pos hstride, touched_pure, append_nil,
            mem_append, mem_cons, not_mem_nil, or_false] at hj
          omega
        obtain ⟨hw, hh⟩ := not_or.mp hsize
        obtain ⟨hx, hy⟩ := not_or.mp hplace
        rw [BitVec.not_le] at hx hy
        rw [touched_handleWriteBuffer hown himage hstride hw hh hx hy] at hj
        simp only [mem_append, mem_cons, not_mem_nil, or_false, mem_flatMap,
          mem_range, rowOffsets, mem_map] at hj
        rcases hj with hj | hj | hj | hj | hj | ⟨row, hrow, k, hk, rfl⟩
        all_goals first
          | omega
          | exact h i surface image hown himage hstride hw hh hx hy row hrow k hk

/-! ## The dispatch -/

variable {idx : ℕ} {client : Client} {type : U32} {out : Outside}

lemma fields_inside (htitle : Request.ofType type ≠ some .setTitle)
    (hbuffer : Request.ofType type ≠ some .writeBuffer) :
    ∀ j ∈ touched f (handleClientMessage s idx client type n out), j < n := by
  intro j hj
  rw [handleClientMessage] at hj
  cases htype : Request.ofType type with
  | none =>
    rw [htype] at hj
    simp at hj
  | some request =>
    rw [htype] at hj
    cases request with
    | createSurface =>
      dsimp only at hj
      split_ifs at hj with hn
      · simp at hj
      · cases hc : createSurface s idx (field f 0) (field f 4) out.pixman <;>
        · simp only [touched_bind, touched_payloadU32, run_payloadU32, hc, touched_pure,
            append_nil, mem_append, mem_cons, not_mem_nil, or_false] at hj
          omega
    | destroySurface =>
      dsimp only at hj
      split_ifs at hj with hn
      · simp at hj
      · cases hc : ownSurface s client.fd (field f 0) <;>
          cases hi : client.surfaceIds.findIdx? (· = field f 0) <;>
        · simp only [touched_bind, touched_payloadU32, run_payloadU32, hc, hi, touched_pure,
            append_nil, mem_cons, not_mem_nil, or_false] at hj
          omega
    | setTitle => exact absurd htype htitle
    | setGeometry =>
      dsimp only at hj
      split_ifs at hj with hn
      · simp at hj
      · simp only [touched_bind, touched_pure, append_nil] at hj
        exact (handleSetGeometry_inside out.pixman hj).trans_le (by omega)
    | writeBuffer => exact absurd htype hbuffer
    | commit =>
      dsimp only at hj
      split_ifs at hj with hn
      · simp at hj
      · cases hc : ownSurface s client.fd (field f 0) <;>
        · simp only [touched_bind, touched_payloadU32, run_payloadU32, hc, touched_pure,
            append_nil, mem_cons, not_mem_nil, or_false] at hj
          omega
    | getDisplayInfo => simp at hj

lemma setTitle_inside (htype : Request.ofType type = some .setTitle) :
    (∀ j ∈ touched f (handleClientMessage s idx client type n out), j < n) ↔
      (5 ≤ n → TitleInside s client.fd n f) := by
  rw [handleClientMessage, htype]
  dsimp only
  split_ifs with hn
  · exact ⟨fun _ h => absurd hn (by omega), fun _ => by simp⟩
  · rw [touched_bind, touched_pure, append_nil,
      handleSetTitle_inside (show 4 ≤ n by omega)]
    exact ⟨fun h _ => h, fun h => h (by omega)⟩

lemma writeBuffer_inside (htype : Request.ofType type = some .writeBuffer) :
    (∀ j ∈ touched f (handleClientMessage s idx client type n out), j < n) ↔
      (20 ≤ n → (field f 12).toNat * (field f 16).toNat * 4 % 2 ^ 32 ≤ n - 20 →
        PixelsInside s client.fd n f) := by
  rw [handleClientMessage, htype]
  dsimp only
  split_ifs with hn
  · exact ⟨fun _ h => absurd hn (by omega), fun _ => by simp⟩
  rw [touched_bind, touched_bind, touched_payloadU32, touched_payloadU32, run_payloadU32,
    run_payloadU32]
  have hfields : ∀ is : List ℕ, (∀ j ∈ [12, 12 + 1, 12 + 2, 12 + 3] ++
      ([16, 16 + 1, 16 + 2, 16 + 3] ++ is), j < n) ↔ ∀ j ∈ is, j < n := by
    intro is
    simp only [forall_mem_append, forall_mem_cons, not_mem_nil, false_imp_iff,
      implies_true, and_true]
    exact ⟨fun h => h.2.2, fun h => ⟨by omega, by omega, h⟩⟩
  rw [hfields]
  split_ifs with hbig
  · exact ⟨fun _ _ h => absurd hbig (by omega), fun _ => by simp⟩
  · rw [touched_bind, touched_pure, append_nil,
      handleWriteBuffer_inside (show 20 ≤ n by omega)]
    exact ⟨fun h _ _ => h, fun h => h (by omega) (by omega)⟩

/-- What a message must be for its handler to stay inside it. -/
def Inside (s : Compositor) (fd : ℤ) (type : U32) (n : ℕ) (f : ℕ → U8) : Prop :=
  (Request.ofType type = some .setTitle → 5 ≤ n → TitleInside s fd n f) ∧
    (Request.ofType type = some .writeBuffer → 20 ≤ n →
      (field f 12).toNat * (field f 16).toNat * 4 % 2 ^ 32 ≤ n - 20 → PixelsInside s fd n f)

/-- **Messages.**  The handler is a function of the bytes of its message exactly if a title ends
inside it and all rows of pixels lie inside it. -/
theorem handler_of_message_iff (s : Compositor) (idx : ℕ) (client : Client) (type : U32) (n : ℕ)
    (out : Outside) (f : ℕ → U8) :
    OfMessage n f (handleClientMessage s idx client type n out) ↔ Inside s client.fd type n f := by
  rw [ofMessage_iff, Inside]
  by_cases htitle : Request.ofType type = some .setTitle
  · rw [setTitle_inside htitle, htitle]
    exact ⟨fun h => ⟨fun _ => h, fun h => absurd h (by decide)⟩, fun h => h.1 rfl⟩
  by_cases hbuffer : Request.ofType type = some .writeBuffer
  · rw [writeBuffer_inside hbuffer, hbuffer]
    exact ⟨fun h => ⟨fun h => absurd h (by decide), fun _ => h⟩, fun h => h.2 rfl⟩
  · exact ⟨fun _ => ⟨fun h => absurd h htitle, fun h => absurd h hbuffer⟩,
      fun _ => fields_inside htitle hbuffer⟩

/-- A client on descriptor 5 with one surface of four by four pixels. -/
def sampleClient : Client := ⟨5, 1, [1], ⟨fun _ => 0, fun _ => 0, 0, .header⟩, true⟩

/-- A compositor with that client. -/
def sampleCompositor : Compositor :=
  ⟨[⟨1, 5, some ⟨4, 4, 16, fun _ => 0⟩, 0, 0, 4, 4, List.replicate 64 0, 1, true⟩], 1, 2,
    [sampleClient], 1, 640, 480, 1⟩

/-- A message in front and the same byte everywhere behind it. -/
def sampleBuffer (message : List U8) (behind : U8) (i : ℕ) : U8 := message.getD i behind

/-- A title without a zero byte, and a rectangle of `2 ^ 30` by one pixels without any pixel in the
message. -/
theorem handler_reads_behind_message :
    (∃ f g : ℕ → U8, (∀ i < 5, f i = g i) ∧
      ((handleClientMessage sampleCompositor 0 sampleClient 3 5 plainOutside).run f).comp.surfaces.map
        (·.title) ≠
      ((handleClientMessage sampleCompositor 0 sampleClient 3 5 plainOutside).run g).comp.surfaces.map
        (·.title)) ∧
    ∃ f g : ℕ → U8, (∀ i < 20, f i = g i) ∧
      ((handleClientMessage sampleCompositor 0 sampleClient 5 20 plainOutside).run f).comp.surfaces.map
        (fun x => x.image.map (·.data 0)) ≠
      ((handleClientMessage sampleCompositor 0 sampleClient 5 20 plainOutside).run g).comp.surfaces.map
        (fun x => x.image.map (·.data 0)) := by
  refine ⟨⟨sampleBuffer [1, 0, 0, 0, 0x61] 0x62, sampleBuffer [1, 0, 0, 0, 0x61] 0x63, ?_, ?_⟩,
    sampleBuffer [1, 0, 0, 0, 0, 0, 0, 0, 0, 0, 0, 0, 0, 0, 0, 0x40, 1, 0, 0, 0] 1,
    sampleBuffer [1, 0, 0, 0, 0, 0, 0, 0, 0, 0, 0, 0, 0, 0, 0, 0x40, 1, 0, 0, 0] 2, ?_, ?_⟩
  · decide
  · decide +kernel
  · decide
  · decide +kernel

end OpenHobbyOS.Xnx
