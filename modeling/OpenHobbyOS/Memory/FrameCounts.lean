/-
# The frame allocator's bitmap and its counter

The bitmap is indexed from the first managed frame on, but the loop of `frame_alloc_init` that marks
"the frames before `first_frame`" counts from the frame 0 of the machine.  So it marks the first
frames of the region, and leaves the bitmap of a small one.  `frame_free` counts `used_frames` down
without looking at the bit.
-/
import OpenHobbyOS.Memory.Boot

namespace OpenHobbyOS.Memory

open Paging Lib FrameAllocator BitVec List

/-! ## Initialisation -/

/-- The number of frames of a region. -/
def regionFrames (memoryStart memoryEnd : U32) : ℕ := (memoryEnd - memoryStart).toNat / pageSize

/-- The words of the bitmap that `frame_alloc_init` allocates. -/
def bitmapWords (memoryStart memoryEnd : U32) : ℕ := (regionFrames memoryStart memoryEnd + 31) / 32

/-- The words that `memset` and the loop touch. -/
def wordsTouched (memoryStart memoryEnd : U32) (firstFrame : ℕ) : List ℕ :=
  List.range (bitmapWords memoryStart memoryEnd) ++ (List.range firstFrame).map (· / 32)

/-- The allocator as `paging_init` sets it up for a region. -/
def initialised (memoryStart memoryEnd : U32) : FrameAllocator :=
  frameAllocInit memoryStart memoryEnd (memoryStart.toNat / pageSize)

/-- What `n` calls of `frame_alloc` return, and the allocator after them. -/
def allocMany (a : FrameAllocator) : ℕ → FrameAllocator × List U32
  | 0 => (a, [])
  | n + 1 =>
    let r := allocMany a n
    ((frameAlloc r.1).1, r.2 ++ [(frameAlloc r.1).2])

/-- The initialisation stays in its bitmap, and then `frame_alloc` returns every frame of the region
once, then 0, with `frame_free_count` the number to come. -/
structure InitCorrect (memoryStart memoryEnd : U32) : Prop where
  inside : ∀ w ∈ wordsTouched memoryStart memoryEnd (memoryStart.toNat / pageSize),
    w < bitmapWords memoryStart memoryEnd
  frames : (allocMany (initialised memoryStart memoryEnd) (regionFrames memoryStart memoryEnd)).2.Perm
    ((List.range (regionFrames memoryStart memoryEnd)).map fun i =>
      memoryStart + BitVec.ofNat 32 (i * pageSize))
  proper : 0 ∉
    (allocMany (initialised memoryStart memoryEnd) (regionFrames memoryStart memoryEnd)).2
  exhausted : (frameAlloc (allocMany (initialised memoryStart memoryEnd)
    (regionFrames memoryStart memoryEnd)).1).2 = 0
  counted : ∀ n ≤ regionFrames memoryStart memoryEnd,
    (frameFreeCount (allocMany (initialised memoryStart memoryEnd) n).1).toNat =
      regionFrames memoryStart memoryEnd - n

section Init

variable {memoryStart memoryEnd : U32}

lemma usedFrames_frameAllocInit (memoryStart memoryEnd : U32) (first : ℕ) :
    (frameAllocInit memoryStart memoryEnd first).usedFrames = BitVec.ofNat 32 first := by
  have hloop : ∀ (a : FrameAllocator) (n : ℕ),
      ((List.range n).foldl setBit a).usedFrames = a.usedFrames + BitVec.ofNat 32 n := by
    intro a n
    induction n with
    | zero => simp
    | succ n ih =>
      rw [range_succ, foldl_append, foldl_cons, foldl_nil]
      change ((List.range n).foldl setBit a).usedFrames + BitVec.ofNat 32 1 = _
      rw [ih, BitVec.add_assoc, ← BitVec.ofNat_add]
  rw [frameAllocInit, hloop]
  exact BitVec.zero_add _

/-- Every address that `frame_alloc` returns is null or that of a frame above the first ones. -/
lemma mem_allocMany {a : FrameAllocator} {m : ℕ} (hlow : ∀ i < m, a.bit i = true) (n : ℕ) :
    (allocMany a n).1.firstFrame = a.firstFrame ∧ (allocMany a n).1.totalFrames = a.totalFrames ∧
      (∀ i < m, (allocMany a n).1.bit i = true) ∧
      ∀ x ∈ (allocMany a n).2, x = 0 ∨ ∃ i, m ≤ i ∧ i < a.totalFrames ∧ x = a.frameAddr i := by
  induction n with
  | zero => exact ⟨rfl, rfl, hlow, by simp [allocMany]⟩
  | succ n ih =>
    obtain ⟨hfirst, htotal, hbits, hmem⟩ := ih
    simp only [allocMany]
    rcases frameAlloc_cases (allocMany a n).1 with ⟨heq, -⟩ | ⟨i, hi, -, heq⟩
    · rw [heq]
      refine ⟨hfirst, htotal, hbits, fun x hx => ?_⟩
      rcases mem_append.mp hx with hx | hx
      · exact hmem x hx
      · exact .inl (by simpa using hx)
    · obtain ⟨hlt, hbit⟩ := mem_freeSet.mp hi
      rw [heq]
      refine ⟨hfirst, htotal, fun j hj => ?_, fun x hx => ?_⟩
      · rw [bit_setBit, hbits j hj, Bool.true_or]
      · rcases mem_append.mp hx with hx | hx
        · exact hmem x hx
        · refine .inr ⟨i, ?_, htotal ▸ hlt, ?_⟩
          · by_contra hlow'
            rw [hbits i (by omega)] at hbit
            cases hbit
          · obtain rfl : x = _ := by simpa using hx
            rw [frameAddr, frameAddr, hfirst]

end Init

/-- **Initialisation.**  For no region does `frame_alloc` return every frame once before it returns
0. -/
theorem frame_init_never_correct (memoryStart memoryEnd : U32)
    (hstart : isPageAligned memoryStart = true) (hend : isPageAligned memoryEnd = true)
    (hlt : memoryStart < memoryEnd) : ¬ InitCorrect memoryStart memoryEnd := by
  intro h
  have hlt' : memoryStart.toNat < memoryEnd.toNat := hlt
  have hstart' := isPageAligned_iff.mp hstart
  have hend' := isPageAligned_iff.mp hend
  have hsub : (memoryEnd - memoryStart).toNat = memoryEnd.toNat - memoryStart.toNat :=
    BitVec.toNat_sub_of_le (BitVec.le_of_lt hlt)
  have hpos : 0 < regionFrames memoryStart memoryEnd := by
    rw [regionFrames, hsub, pageSize]
    omega
  -- the first frame of the region is among those returned
  have hfirst : memoryStart ∈ (allocMany (initialised memoryStart memoryEnd)
      (regionFrames memoryStart memoryEnd)).2 := by
    refine h.frames.mem_iff.mpr (mem_map.mpr ⟨0, mem_range.mpr hpos, ?_⟩)
    simp
  by_cases hzero : memoryStart = 0
  · exact h.proper (hzero ▸ hfirst)
  · obtain ⟨hfilled, hff, htotal⟩ :=
      filled_frameAllocInit memoryStart memoryEnd (memoryStart.toNat / pageSize)
    have hlow : ∀ i < memoryStart.toNat / pageSize,
        (initialised memoryStart memoryEnd).bit i = true := by
      intro i hi
      rw [initialised, hfilled i]
      simpa using hi
    rcases (mem_allocMany hlow _).2.2.2 memoryStart hfirst with h0 | ⟨i, hi, hi', heq⟩
    · exact hzero h0
    · -- the frames have different addresses, and the first one is marked
      have hne : memoryStart.toNat ≠ 0 := fun h0 => hzero (eq_of_toNat_eq h0)
      have hnat := frameAddr_toNat_mod (initialised memoryStart memoryEnd) i
      rw [initialised, htotal] at hi'
      have hbound := (memoryEnd - memoryStart).isLt
      rw [← heq, initialised, hff] at hnat
      simp only [pageSize] at hnat hi hi'
      omega

/-- A machine with 64 MiB. -/
theorem frame_init_incorrect_large : ¬ InitCorrect 0x1FF0000 0x4000000 :=
  frame_init_never_correct 0x1FF0000 0x4000000 (by decide) (by decide) (by decide)

/-- 48 MiB of memory and no modules. -/
def smallRegionBoot : Multiboot where
  mem := some (640, 0xBC00)
  mods := none
  mmap := some [⟨0, 0, 0xA0000, 0, 1⟩, ⟨0x100000, 0, 0x2F00000, 0, 1⟩]

/-- Its heap. -/
def smallRegionHeap : Heap where
  blocks := [⟨0x200000, 0x1DEFFF4, true⟩]
  heapStartAddr := 0x200000
  heapEndAddr := 0x1FF0000
  detectedMemoryBytes := 0x3000000

/-- 4112 frames and a bitmap of 129 words: the loop runs up to the word 255, no frame is ever
returned, and the number of free frames is below zero. -/
theorem frame_init_leaves_bitmap :
    memoryInit smallRegionBoot 0x200000 = some smallRegionHeap ∧
      userMemory smallRegionBoot smallRegionHeap 0x200000 = some (0x1FF0000, 0x3000000) ∧
      bitmapWords 0x1FF0000 0x3000000 = 129 ∧
      255 ∈ wordsTouched 0x1FF0000 0x3000000 0x1FF0 ∧
      (frameAlloc (initialised 0x1FF0000 0x3000000)).2 = 0 ∧
      frameFreeCount (initialised 0x1FF0000 0x3000000) = 0xFFFFF020 ∧
      ¬ InitCorrect 0x1FF0000 0x3000000 := by
  have hwords : bitmapWords 0x1FF0000 0x3000000 = 129 := by decide
  have htouched : 255 ∈ wordsTouched 0x1FF0000 0x3000000 0x1FF0 :=
    mem_append_right _ (mem_map.mpr ⟨8175, by simp, rfl⟩)
  obtain ⟨hfilled, -, htotal⟩ := filled_frameAllocInit 0x1FF0000 0x3000000 0x1FF0
  have htotal' : (initialised 0x1FF0000 0x3000000).totalFrames = 4112 := htotal
  refine ⟨by decide, by decide, hwords, htouched, ?_, ?_, fun h => ?_⟩
  · rcases frameAlloc_cases (initialised 0x1FF0000 0x3000000) with ⟨heq, -⟩ | ⟨i, hi, -, -⟩
    · rw [heq]
    · -- a frame of the region has a number below 8176, so it is marked
      obtain ⟨hlt, hbit⟩ := mem_freeSet.mp hi
      rw [htotal'] at hlt
      have hmarked : (initialised 0x1FF0000 0x3000000).bit i = decide (i < 0x1FF0) := hfilled i
      rw [hmarked, decide_eq_false_iff_not] at hbit
      omega
  · rw [frameFreeCount, htotal', initialised, usedFrames_frameAllocInit]
    decide
  · exact absurd (h.inside 255 htouched) (by rw [hwords]; decide)

/-! ## The counter -/

/-- How many frames of the region are marked. -/
def markedCount (a : FrameAllocator) : ℕ :=
  ((Finset.range a.totalFrames).filter fun i => a.bit i = true).card

/-- Any address can be freed. -/
def frameStep (a : FrameAllocator) : FrameCall → Option FrameAllocator
  | .alloc => some (frameAlloc a).1
  | .free phys => some (frameFree a phys)

/-- The counter has moved from that of `a₀` by the marks gained. -/
def Accurate (a₀ a : FrameAllocator) : Prop :=
  a.usedFrames.toNat + markedCount a₀ = a₀.usedFrames.toNat + markedCount a

/-- Freeing a frame that is not allocated changes nothing. -/
def FreeHarmless (a : FrameAllocator) : FrameCall → Prop
  | .alloc => True
  | .free phys => ¬ a.Marked phys → frameFree a phys = a

/-- The address freed is null, outside the region or that of a marked frame. -/
def FreesMarked (a : FrameAllocator) : FrameCall → Prop
  | .alloc => True
  | .free phys => phys = 0 ∨ ¬ a.Managed phys ∨ a.Marked phys

section Counter

variable {a a₀ : FrameAllocator} {i : ℕ} {x : U32}

lemma markedCount_setBit (hi : i ∈ a.freeSet) : markedCount (a.setBit i) = markedCount a + 1 := by
  obtain ⟨hlt, hbit⟩ := mem_freeSet.mp hi
  have hset : ((Finset.range (a.setBit i).totalFrames).filter fun j => (a.setBit i).bit j = true) =
      insert i ((Finset.range a.totalFrames).filter fun j => a.bit j = true) := by
    ext j
    simp only [setBit_totalFrames, bit_setBit, Finset.mem_filter, Finset.mem_range,
      Bool.or_eq_true, decide_eq_true_eq, Finset.mem_insert]
    constructor
    · rintro ⟨hj, hj' | rfl⟩
      · exact .inr ⟨hj, hj'⟩
      · exact .inl rfl
    · rintro (rfl | ⟨hj, hj'⟩)
      · exact ⟨hlt, .inr rfl⟩
      · exact ⟨hj, .inl hj'⟩
  rw [markedCount, hset, Finset.card_insert_of_notMem (by simp [hbit]), markedCount]

lemma markedCount_clearBit (hi : i < a.totalFrames) (hbit : a.bit i = true) :
    markedCount (a.clearBit i) + 1 = markedCount a := by
  have hset : ((Finset.range (a.clearBit i).totalFrames).filter
      fun j => (a.clearBit i).bit j = true) =
      ((Finset.range a.totalFrames).filter fun j => a.bit j = true).erase i := by
    ext j
    simp only [clearBit_totalFrames, bit_clearBit, Finset.mem_filter, Finset.mem_range,
      Bool.and_eq_true, Bool.not_eq_true', decide_eq_false_iff_not, Finset.mem_erase]
    tauto
  have hmem : i ∈ (Finset.range a.totalFrames).filter fun j => a.bit j = true := by
    simp [hi, hbit]
  rw [markedCount, hset, Finset.card_erase_of_mem hmem, markedCount]
  have := Finset.card_pos.mpr ⟨i, hmem⟩
  omega

lemma markedCount_clearBit_clear (hbit : a.bit i = false) :
    markedCount (a.clearBit i) = markedCount a := by
  rw [markedCount, markedCount]
  congr 1
  ext j
  simp only [clearBit_totalFrames, bit_clearBit, Finset.mem_filter, Finset.mem_range,
    Bool.and_eq_true, Bool.not_eq_true', decide_eq_false_iff_not]
  constructor
  · rintro ⟨hj, hj', -⟩
    exact ⟨hj, hj'⟩
  · rintro ⟨hj, hj'⟩
    refine ⟨hj, hj', ?_⟩
    rintro rfl
    rw [hj'] at hbit
    cases hbit

lemma markedCount_le (a : FrameAllocator) : markedCount a ≤ a.totalFrames := by
  simpa [markedCount] using Finset.card_filter_le (Finset.range a.totalFrames) _

/-- What keeps the counter from wrapping around on the way. -/
structure CounterInv (a₀ a : FrameAllocator) : Prop where
  total : a.totalFrames = a₀.totalFrames
  accurate : Accurate a₀ a

lemma accurate_frameFree_iff (hmarks : markedCount a₀ ≤ a₀.usedFrames.toNat)
    (h : Accurate a₀ a) :
    Accurate a₀ (frameFree a x) ↔ x = 0 ∨ ¬ a.Managed x ∨ a.Marked x := by
  rw [Accurate] at h ⊢
  rw [frameFree_eq]
  by_cases hin : x ≠ 0 ∧ a.Managed x
  · rw [if_pos hin]
    have hused : (a.clearBit (x.toNat / pageSize - a.firstFrame)).usedFrames.toNat =
        (2 ^ 32 - 1 + a.usedFrames.toNat) % 2 ^ 32 := toNat_sub _ _
    have hlt := a.usedFrames.isLt
    rw [hused]
    cases hbit : a.bit (x.toNat / pageSize - a.firstFrame) with
    | true =>
      have hcount := markedCount_clearBit (by have := hin.2.1; have := hin.2.2; omega) hbit
      refine iff_of_true ?_ (.inr (.inr ⟨hin.2, hbit⟩))
      omega
    | false =>
      rw [markedCount_clearBit_clear hbit]
      refine iff_of_false ?_ ?_
      · omega
      · rintro (h0 | hm | hm)
        · exact hin.1 h0
        · exact hm hin.2
        · rw [hm.2] at hbit
          cases hbit
  · rw [if_neg hin]
    exact iff_of_true h (by tauto)

lemma CounterInv.frameAlloc (h : CounterInv a₀ a)
    (hroom : a₀.usedFrames.toNat + a₀.totalFrames < 2 ^ 32) :
    CounterInv a₀ (Paging.frameAlloc a).1 := by
  refine ⟨by rw [frameAlloc_totalFrames, h.total], ?_⟩
  have haccurate := h.accurate
  rw [Accurate] at haccurate ⊢
  rcases frameAlloc_cases a with ⟨heq, -⟩ | ⟨i, hi, -, heq⟩
  · rwa [heq]
  · have hle := markedCount_le (a.setBit i)
    have hused : (a.setBit i).usedFrames.toNat = (a.usedFrames.toNat + 1) % 2 ^ 32 :=
      toNat_add _ _
    rw [setBit_totalFrames, h.total, markedCount_setBit hi] at hle
    rw [heq, hused, markedCount_setBit hi]
    omega

/-- What initialisation has counted: the frames it has marked, and rounds of the loop beyond the
region. -/
lemma initialised_counts (memoryStart memoryEnd : U32) :
    markedCount (initialised memoryStart memoryEnd) ≤
        (initialised memoryStart memoryEnd).usedFrames.toNat ∧
      (initialised memoryStart memoryEnd).usedFrames.toNat +
        (initialised memoryStart memoryEnd).totalFrames < 2 ^ 32 := by
  obtain ⟨hfilled, -, htotal⟩ :=
    filled_frameAllocInit memoryStart memoryEnd (memoryStart.toNat / pageSize)
  have hstart := memoryStart.isLt
  have hsize := (memoryEnd - memoryStart).isLt
  have hused : (initialised memoryStart memoryEnd).usedFrames.toNat =
      memoryStart.toNat / pageSize := by
    rw [initialised, usedFrames_frameAllocInit, toNat_ofNat, pageSize]
    omega
  constructor
  · rw [hused, ← Finset.card_range (memoryStart.toNat / pageSize)]
    refine Finset.card_le_card fun i hi => ?_
    have hbit := (Finset.mem_filter.mp hi).2
    rw [initialised, hfilled i] at hbit
    simpa using hbit
  · rw [hused, initialised, htotal, pageSize]
    omega

end Counter

/-- **The counter.**  `used_frames` is what it was plus the marks gained, and no free of an unmarked
frame changes anything, exactly if no unmarked frame of the region is freed. -/
theorem frame_counter_accurate_iff (memoryStart memoryEnd : U32) (calls : List FrameCall) :
    ((∀ calls₁, calls₁ <+: calls → ∀ a,
        run frameStep (initialised memoryStart memoryEnd) calls₁ = some a →
          Accurate (initialised memoryStart memoryEnd) a) ∧
      StepsMeet frameStep FreeHarmless (initialised memoryStart memoryEnd) calls) ↔
      StepsMeet frameStep FreesMarked (initialised memoryStart memoryEnd) calls := by
  obtain ⟨hmarks, hroom⟩ := initialised_counts memoryStart memoryEnd
  generalize initialised memoryStart memoryEnd = a₀ at *
  have hkeep : ∀ {a call a'}, CounterInv a₀ a → FreesMarked a call →
      frameStep a call = some a' → CounterInv a₀ a' := by
    intro a call a' h hfree hstep
    cases call with
    | alloc =>
      cases hstep
      exact h.frameAlloc hroom
    | free phys =>
      cases hstep
      exact ⟨by rw [frameFree_totalFrames, h.total],
        (accurate_frameFree_iff hmarks h.accurate).mpr hfree⟩
  have hiff : _ ↔ StepsMeet frameStep FreesMarked a₀ calls :=
    forall_prefix_iff_stepsMeet (P := CounterInv a₀) hkeep CounterInv.accurate ?_ ⟨rfl, rfl⟩
  · rw [hiff]
    refine ⟨And.left, fun h => ⟨h, stepsMeet_imp hkeep ?_ ⟨rfl, rfl⟩ h⟩⟩
    intro a call _ hfree
    cases call with
    | alloc => trivial
    | free phys =>
      intro hunmarked
      rw [frameFree_eq, if_neg]
      rintro ⟨hne, hmanaged⟩
      rcases hfree with h0 | hm | hm
      · exact hne h0
      · exact hm hmanaged
      · exact hunmarked hm
  · intro a call h hall
    cases call with
    | alloc => trivial
    | free phys => exact (accurate_frameFree_iff hmarks h.accurate).mp (hall _ rfl)

lemma markedCount_filled {a : FrameAllocator} {n : ℕ} (h : a.Filled n) (hn : n ≤ a.totalFrames) :
    markedCount a = n := by
  have hset : ((Finset.range a.totalFrames).filter fun i => a.bit i = true) = Finset.range n := by
    ext i
    simp only [h i, Finset.mem_filter, Finset.mem_range, decide_eq_true_eq]
    omega
  rw [markedCount, hset, Finset.card_range]

lemma double_free {a : FrameAllocator} {n : ℕ} (h : a.Filled n) (hn : n < a.totalFrames)
    (haddr : a.frameAddr n ≠ 0) (hframe : (a.frameAddr n).toNat / pageSize = a.firstFrame + n) :
    ∃ a', run frameStep a [.alloc, .free (a.frameAddr n), .free (a.frameAddr n)] = some a' ∧
      a'.usedFrames = a.usedFrames - 1 ∧ markedCount a' = markedCount a := by
  have hfree : ∀ a' : FrameAllocator, a'.firstFrame = a.firstFrame →
      a'.totalFrames = a.totalFrames →
      frameStep a' (.free (a.frameAddr n)) = some (a'.clearBit n) := by
    intro a' hfirst htotal
    have hmanaged : a'.Managed (a.frameAddr n) := by
      rw [Managed, hframe, hfirst, htotal]
      omega
    rw [frameStep, frameFree_eq, if_pos ⟨haddr, hmanaged⟩, hframe, hfirst,
      Nat.add_sub_cancel_left]
  have halloc : frameStep a .alloc = some (a.setBit n) := by
    rw [frameStep, (h.frameAlloc hn).1]
  have hbit : a.bit n = false := by simp [h n]
  refine ⟨((a.setBit n).clearBit n).clearBit n, ?_, ?_, ?_⟩
  · rw [run_cons_of_eq halloc, run_cons_of_eq (hfree (a.setBit n) rfl rfl),
      run_cons_of_eq (hfree ((a.setBit n).clearBit n) rfl rfl), run_nil]
  · change a.usedFrames + 1 - 1 - 1 = a.usedFrames - 1
    rw [add_sub_cancel]
  · have hset := markedCount_setBit (mem_freeSet.mpr ⟨hn, hbit⟩)
    have hclear := markedCount_clearBit (a := a.setBit n) (i := n) hn (by simp)
    rw [markedCount_clearBit_clear (by simp)]
    omega

/-- On a machine with 64 MiB the first frame returned lies at `0x3FE0000`. -/
theorem double_free_counted :
    ∃ a, run frameStep (initialised 0x1FF0000 0x4000000)
        [.alloc, .free 0x3FE0000, .free 0x3FE0000] = some a ∧
      a.usedFrames = 0x1FEF ∧ markedCount a = 0x1FF0 ∧
      ¬ Accurate (initialised 0x1FF0000 0x4000000) a := by
  obtain ⟨hfilled, hfirst, htotal⟩ := filled_frameAllocInit 0x1FF0000 0x4000000 0x1FF0
  have hused := usedFrames_frameAllocInit 0x1FF0000 0x4000000 0x1FF0
  have htotal' := htotal.trans (show _ = 0x2010 by decide)
  have hinit : initialised 0x1FF0000 0x4000000 = frameAllocInit 0x1FF0000 0x4000000 0x1FF0 :=
    congrArg (frameAllocInit 0x1FF0000 0x4000000)
      (show (0x1FF0000 : U32).toNat / pageSize = 0x1FF0 by decide)
  rw [← hinit] at hfilled hfirst hused htotal'
  have haddr : (initialised 0x1FF0000 0x4000000).frameAddr 0x1FF0 = 0x3FE0000 := by
    rw [frameAddr, hfirst]
    decide
  have hmarks := markedCount_filled hfilled (by rw [htotal']; decide)
  obtain ⟨a, hrun, hused', hmarks'⟩ := double_free hfilled (by rw [htotal']; decide)
    (by rw [haddr]; decide) (by rw [haddr, hfirst]; decide)
  rw [haddr] at hrun
  have hused'' : a.usedFrames = 0x1FEF := by
    rw [hused', hused]
    decide
  refine ⟨a, hrun, hused'', hmarks'.trans hmarks, ?_⟩
  rw [Accurate, hused'', hused, hmarks', hmarks]
  decide

end OpenHobbyOS.Memory
