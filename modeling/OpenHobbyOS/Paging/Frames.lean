/-
# The physical frame allocator

`frame_alloc_init`, `frame_alloc` and `frame_free` of `src/paging.c`: a bitmap of 32-bit words over
the frames from `firstFrame` on, searched first-fit.
-/
import OpenHobbyOS.Paging.Entry

namespace OpenHobbyOS.Paging

open BitVec hiding not_and
open Function List

/-- `g_frame_allocator`.  The two frame counts stay far below the word size and are plain numbers;
`usedFrames` is decremented without a check and is a word. -/
structure FrameAllocator where
  bitmap : ℕ → U32
  totalFrames : ℕ
  firstFrame : ℕ
  usedFrames : U32

namespace FrameAllocator

variable (a : FrameAllocator)

/-- The bit of the `i`-th managed frame. -/
def bit (i : ℕ) : Bool := hasFlag (a.bitmap (i / 32)) (1#32 <<< (i % 32))

/-- A bit of the bitmap is set. -/
def setBit (i : ℕ) : FrameAllocator :=
  { a with bitmap := update a.bitmap (i / 32) (a.bitmap (i / 32) ||| 1#32 <<< (i % 32))
           usedFrames := a.usedFrames + 1 }

/-- A bit of the bitmap is cleared. -/
def clearBit (i : ℕ) : FrameAllocator :=
  { a with bitmap := update a.bitmap (i / 32) (a.bitmap (i / 32) &&& ~~~(1#32 <<< (i % 32)))
           usedFrames := a.usedFrames - 1 }

/-- The physical address of the `i`-th managed frame. -/
def frameAddr (i : ℕ) : U32 := BitVec.ofNat 32 ((a.firstFrame + i) * pageSize)

end FrameAllocator

open FrameAllocator

/-- `frame_alloc_init`. -/
def frameAllocInit (memoryStart memoryEnd : U32) (firstFrame : ℕ) : FrameAllocator :=
  (range firstFrame).foldl setBit
    { bitmap := fun _ => 0, totalFrames := (memoryEnd - memoryStart).toNat / pageSize,
      firstFrame := firstFrame, usedFrames := 0 }

/-- First fit; the address `0` reports that no frame is left. -/
def frameAlloc (a : FrameAllocator) : FrameAllocator × U32 :=
  match (range a.totalFrames).find? (fun i => !a.bit i) with
  | some i => (a.setBit i, a.frameAddr i)
  | none => (a, 0)

/-- `frame_free`. -/
def frameFree (a : FrameAllocator) (phys : U32) : FrameAllocator :=
  if phys = 0 then a
  else
    let frame := phys.toNat / pageSize
    if frame < a.firstFrame ∨ a.firstFrame + a.totalFrames ≤ frame then a
    else a.clearBit (frame - a.firstFrame)

/-- `frame_free_count`. -/
def frameFreeCount (a : FrameAllocator) : U32 := BitVec.ofNat 32 a.totalFrames - a.usedFrames

namespace FrameAllocator

variable {a : FrameAllocator} {i j : ℕ} {x y : U32}

/-! ## Bits -/

lemma one_shl_eq_twoPow (i : ℕ) : 1#32 <<< (i % 32) = twoPow 32 (i % 32) :=
  (twoPow_eq 32 (i % 32)).symm

lemma bit_eq (a : FrameAllocator) (i : ℕ) : a.bit i = (a.bitmap (i / 32)).getLsbD (i % 32) :=
  hasFlag_bit _ (one_shl_eq_twoPow i) (by omega)

@[simp] lemma bit_setBit (a : FrameAllocator) (i j : ℕ) :
    (a.setBit i).bit j = (a.bit j || decide (j = i)) := by
  rw [bit_eq, bit_eq, setBit, one_shl_eq_twoPow]
  by_cases h : j / 32 = i / 32
  · simp only [h, update_self, getLsbD_or, getLsbD_twoPow]
    congr 1
    rw [Bool.eq_iff_iff]
    simp only [Bool.and_eq_true, decide_eq_true_eq]
    omega
  · have hji : j ≠ i := by
      rintro rfl
      exact h rfl
    simp [h, hji]

@[simp] lemma bit_clearBit (a : FrameAllocator) (i j : ℕ) :
    (a.clearBit i).bit j = (a.bit j && !decide (j = i)) := by
  rw [bit_eq, bit_eq, clearBit, one_shl_eq_twoPow]
  by_cases h : j / 32 = i / 32
  · have hlt : j % 32 < 32 := by omega
    simp only [h, update_self, getLsbD_and, getLsbD_not,
      getLsbD_twoPow, hlt, decide_true, Bool.true_and]
    congr 2
    rw [Bool.eq_iff_iff]
    simp only [Bool.and_eq_true, decide_eq_true_eq]
    omega
  · have hji : j ≠ i := by
      rintro rfl
      exact h rfl
    simp [h, hji]

@[simp] lemma setBit_totalFrames : (a.setBit i).totalFrames = a.totalFrames := rfl
@[simp] lemma setBit_firstFrame : (a.setBit i).firstFrame = a.firstFrame := rfl
@[simp] lemma clearBit_totalFrames : (a.clearBit i).totalFrames = a.totalFrames := rfl
@[simp] lemma clearBit_firstFrame : (a.clearBit i).firstFrame = a.firstFrame := rfl

/-! ## Managed, marked and free frames -/

/-- The page of `x` is one of the frames the allocator manages. -/
def Managed (a : FrameAllocator) (x : U32) : Prop :=
  a.firstFrame ≤ x.toNat / pageSize ∧ x.toNat / pageSize < a.firstFrame + a.totalFrames

instance (a : FrameAllocator) (x : U32) : Decidable (a.Managed x) :=
  inferInstanceAs (Decidable (_ ∧ _))

/-- The frame of `x` is managed and marked used in the bitmap. -/
def Marked (a : FrameAllocator) (x : U32) : Prop :=
  a.Managed x ∧ a.bit (x.toNat / pageSize - a.firstFrame) = true

/-- The region does not start at address zero and ends below 4 GiB. -/
structure WellFormed (a : FrameAllocator) : Prop where
  first_pos : 0 < a.firstFrame
  end_le : a.firstFrame + a.totalFrames ≤ 0x100000

/-- The region ends at or below 1 GiB, so that `KERNEL_VIRTUAL_BASE + phys` is a frame's own
mapping. -/
def Low (a : FrameAllocator) : Prop := a.firstFrame + a.totalFrames ≤ 0x40000

/-- The frame `frame_alloc` would hand out next, if any, lies below 1 GiB. -/
def NextLow (a : FrameAllocator) : Prop := (frameAlloc a).2.toNat < 0x40000000

/-- Indices of the frames whose bit is clear. -/
def freeSet (a : FrameAllocator) : Finset ℕ :=
  (Finset.range a.totalFrames).filter fun i => a.bit i = false

/-- How many frames `frame_alloc` can still hand out. -/
def freeCount (a : FrameAllocator) : ℕ := a.freeSet.card

lemma mem_freeSet : i ∈ a.freeSet ↔ i < a.totalFrames ∧ a.bit i = false := by
  simp [freeSet]

lemma frameAddr_toNat (hwf : a.WellFormed) (hi : i < a.totalFrames) :
    (a.frameAddr i).toNat = (a.firstFrame + i) * 4096 := by
  have := hwf.end_le
  rw [frameAddr, BitVec.toNat_ofNat, pageSize]
  omega

lemma frameAddr_ne_zero (hwf : a.WellFormed) (hi : i < a.totalFrames) : a.frameAddr i ≠ 0 := by
  intro h
  have htoNat := frameAddr_toNat hwf hi
  rw [h] at htoNat
  have := hwf.first_pos
  simp at htoNat
  omega

lemma managed_frameAddr (hwf : a.WellFormed) (hi : i < a.totalFrames) : a.Managed (a.frameAddr i) := by
  rw [Managed, frameAddr_toNat hwf hi, pageSize]
  omega

lemma frame_index_frameAddr (hwf : a.WellFormed) (hi : i < a.totalFrames) :
    (a.frameAddr i).toNat / pageSize - a.firstFrame = i := by
  rw [frameAddr_toNat hwf hi, pageSize]
  omega

lemma aligned_frameAddr (hwf : a.WellFormed) (hi : i < a.totalFrames) :
    isPageAligned (a.frameAddr i) = true := by
  rw [isPageAligned_iff, frameAddr_toNat hwf hi]
  omega

lemma frameAddr_index (hwf : a.WellFormed) (hx : isPageAligned x = true) (hm : a.Managed x) :
    a.frameAddr (x.toNat / pageSize - a.firstFrame) = x := by
  rw [isPageAligned_iff] at hx
  rw [Managed, pageSize] at hm
  rw [pageSize]
  apply BitVec.eq_of_toNat_eq
  rw [frameAddr_toNat hwf (by omega)]
  omega

lemma Managed.ne_zero (hwf : a.WellFormed) (h : a.Managed x) : x ≠ 0 := by
  rintro rfl
  have := hwf.first_pos
  have := h.1
  simp at this
  omega

/-! ## `frame_alloc` -/

lemma frameAlloc_cases (a : FrameAllocator) :
    (frameAlloc a = (a, 0) ∧ a.freeSet = ∅) ∨
      ∃ i ∈ a.freeSet, (∀ j < i, a.bit j = true) ∧ frameAlloc a = (a.setBit i, a.frameAddr i) := by
  cases h : (range a.totalFrames).find? (fun i => !a.bit i) with
  | none =>
    left
    refine ⟨by simp [frameAlloc, h], ?_⟩
    rw [find?_eq_none] at h
    ext i
    simp only [mem_freeSet, Finset.notMem_empty, iff_false, not_and]
    intro hi
    simpa using h i (mem_range.mpr hi)
  | some i =>
    right
    refine ⟨i, ?_, ?_, by simp [frameAlloc, h]⟩
    · have hclear := find?_some h
      have hmem := mem_of_find?_eq_some h
      rw [mem_freeSet]
      exact ⟨mem_range.mp hmem, by simpa using hclear⟩
    · rw [find?_range_eq_some] at h
      intro j hj
      simpa using h.2.2 j hj

@[simp] lemma frameAlloc_totalFrames (a : FrameAllocator) :
    (frameAlloc a).1.totalFrames = a.totalFrames := by
  rcases frameAlloc_cases a with ⟨h, -⟩ | ⟨i, -, -, h⟩ <;> simp [h]

@[simp] lemma frameAlloc_firstFrame (a : FrameAllocator) :
    (frameAlloc a).1.firstFrame = a.firstFrame := by
  rcases frameAlloc_cases a with ⟨h, -⟩ | ⟨i, -, -, h⟩ <;> simp [h]

lemma WellFormed.frameAlloc (hwf : a.WellFormed) : (frameAlloc a).1.WellFormed :=
  ⟨by simpa using hwf.first_pos, by simpa using hwf.end_le⟩

@[simp] lemma low_frameAlloc : (frameAlloc a).1.Low ↔ a.Low := by
  simp [Low]

@[simp] lemma managed_frameAlloc : (frameAlloc a).1.Managed x ↔ a.Managed x := by
  simp [Managed]

lemma frameAlloc_eq_of_zero (hwf : a.WellFormed) (h : (Paging.frameAlloc a).2 = 0) :
    (Paging.frameAlloc a).1 = a := by
  rcases frameAlloc_cases a with ⟨heq, -⟩ | ⟨i, hi, -, heq⟩
  · rw [heq]
  · rw [heq] at h
    exact absurd h (frameAddr_ne_zero hwf (mem_freeSet.mp hi).1)

lemma frameAlloc_fresh (hwf : a.WellFormed) (h : (Paging.frameAlloc a).2 ≠ 0) :
    isPageAligned (Paging.frameAlloc a).2 = true ∧ a.Managed (Paging.frameAlloc a).2 ∧
      ¬ a.Marked (Paging.frameAlloc a).2 := by
  rcases frameAlloc_cases a with ⟨heq, -⟩ | ⟨i, hi, -, heq⟩
  · exact absurd (by rw [heq]) h
  · have hlt := (mem_freeSet.mp hi).1
    rw [heq]
    refine ⟨aligned_frameAddr hwf hlt, managed_frameAddr hwf hlt, ?_⟩
    rintro ⟨-, hbit⟩
    rw [frame_index_frameAddr hwf hlt] at hbit
    simp [(mem_freeSet.mp hi).2] at hbit

lemma marked_frameAlloc (hwf : a.WellFormed) (h : (Paging.frameAlloc a).2 ≠ 0)
    (hy : isPageAligned y = true) :
    (Paging.frameAlloc a).1.Marked y ↔ a.Marked y ∨ y = (Paging.frameAlloc a).2 := by
  rcases frameAlloc_cases a with ⟨heq, -⟩ | ⟨i, hi, -, heq⟩
  · exact absurd (by rw [heq]) h
  · have hlt := (mem_freeSet.mp hi).1
    rw [heq]
    simp only [Marked, Managed, setBit_firstFrame, setBit_totalFrames, bit_setBit,
      Bool.or_eq_true, decide_eq_true_eq]
    constructor
    · rintro ⟨hm, hb | hidx⟩
      · exact Or.inl ⟨hm, hb⟩
      · right
        rw [← frameAddr_index hwf hy hm, hidx]
    · rintro (⟨hm, hb⟩ | rfl)
      · exact ⟨hm, Or.inl hb⟩
      · exact ⟨managed_frameAddr hwf hlt, Or.inr (frame_index_frameAddr hwf hlt)⟩

lemma Marked.frameAlloc (h : a.Marked x) : (frameAlloc a).1.Marked x := by
  rcases frameAlloc_cases a with ⟨heq, -⟩ | ⟨i, -, -, heq⟩
  · rwa [heq]
  · rw [heq]
    exact ⟨h.1, by simp [h.2]⟩

lemma frameAlloc_ne_zero_iff (hwf : a.WellFormed) :
    (Paging.frameAlloc a).2 ≠ 0 ↔ 0 < a.freeCount := by
  rw [freeCount, Finset.card_pos]
  rcases frameAlloc_cases a with ⟨heq, hempty⟩ | ⟨i, hi, -, heq⟩
  · simp [heq, hempty]
  · have hne := frameAddr_ne_zero hwf (mem_freeSet.mp hi).1
    rw [heq]
    exact ⟨fun _ => ⟨i, hi⟩, fun _ => hne⟩

lemma freeCount_frameAlloc (a : FrameAllocator) :
    (Paging.frameAlloc a).1.freeCount = a.freeCount - 1 := by
  rcases frameAlloc_cases a with ⟨heq, hempty⟩ | ⟨i, hi, -, heq⟩
  · simp [heq, freeCount, hempty]
  · have hset : (a.setBit i).freeSet = a.freeSet.erase i := by
      ext j
      simp only [mem_freeSet, setBit_totalFrames, bit_setBit, Bool.or_eq_false_iff,
        decide_eq_false_iff_not, Finset.mem_erase]
      tauto
    rw [heq, freeCount, hset, Finset.card_erase_of_mem hi, freeCount]

lemma Low.nextLow (hlow : a.Low) (hwf : a.WellFormed) : a.NextLow := by
  rw [NextLow]
  by_cases hx : (Paging.frameAlloc a).2 = 0
  · simp [hx]
  · have hm := (frameAlloc_fresh hwf hx).2.1.2
    rw [Low] at hlow
    rw [pageSize] at hm
    omega

/-- A successful `frame_alloc`: `x` was not marked, and `a'` marks it in addition. -/
structure AllocEffect (a a' : FrameAllocator) (x : U32) : Prop where
  eq : frameAlloc a = (a', x)
  ne_zero : x ≠ 0
  aligned : isPageAligned x = true
  managed : a.Managed x
  unmarked : ¬ a.Marked x
  marked_iff : ∀ {y}, isPageAligned y = true → (a'.Marked y ↔ a.Marked y ∨ y = x)
  managed_iff : ∀ {y}, a'.Managed y ↔ a.Managed y
  low_iff : a'.Low ↔ a.Low
  wf : a'.WellFormed
  count : a'.freeCount + 1 = a.freeCount

/-- **`frame_alloc`** hands out an unmarked frame, or changes nothing exactly when none is left. -/
lemma frameAlloc_spec (hwf : a.WellFormed) :
    (Paging.frameAlloc a = (a, 0) ∧ a.freeCount = 0) ∨ ∃ a' x, AllocEffect a a' x := by
  by_cases hx : (Paging.frameAlloc a).2 = 0
  · left
    have hcount := mt (frameAlloc_ne_zero_iff hwf).mpr (not_not.mpr hx)
    exact ⟨Prod.ext (frameAlloc_eq_of_zero hwf hx) hx, by omega⟩
  · right
    obtain ⟨haligned, hmanaged, hunmarked⟩ := frameAlloc_fresh hwf hx
    have hcount := (frameAlloc_ne_zero_iff hwf).mp hx
    refine ⟨(Paging.frameAlloc a).1, (Paging.frameAlloc a).2, ?_⟩
    exact
      { eq := rfl
        ne_zero := hx
        aligned := haligned
        managed := hmanaged
        unmarked := hunmarked
        marked_iff := marked_frameAlloc hwf hx
        managed_iff := managed_frameAlloc
        low_iff := low_frameAlloc
        wf := hwf.frameAlloc
        count := by rw [freeCount_frameAlloc]; omega }

lemma AllocEffect.lt_oneGiB {a' : FrameAllocator} (A : AllocEffect a a' x) (h : a.NextLow) :
    x.toNat < 0x40000000 := by
  rw [NextLow, A.eq] at h
  exact h

/-! ## Before anything is freed -/

/-- Exactly the frames with an index below `n` are marked. -/
def Filled (a : FrameAllocator) (n : ℕ) : Prop := ∀ i, a.bit i = decide (i < n)

lemma filled_frameAllocInit (memoryStart memoryEnd : U32) (first : ℕ) :
    (frameAllocInit memoryStart memoryEnd first).Filled first ∧
      (frameAllocInit memoryStart memoryEnd first).firstFrame = first ∧
      (frameAllocInit memoryStart memoryEnd first).totalFrames =
        (memoryEnd - memoryStart).toNat / pageSize := by
  have hloop : ∀ (a : FrameAllocator) (n : ℕ), a.Filled 0 →
      ((range n).foldl setBit a).Filled n ∧
        ((range n).foldl setBit a).firstFrame = a.firstFrame ∧
        ((range n).foldl setBit a).totalFrames = a.totalFrames := by
    intro a n ha
    induction n with
    | zero => exact ⟨ha, rfl, rfl⟩
    | succ n ih =>
      rw [range_succ, foldl_append, foldl_cons, foldl_nil]
      refine ⟨fun i => ?_, ih.2.1, ih.2.2⟩
      rw [bit_setBit, ih.1 i, Bool.eq_iff_iff]
      simp only [Bool.or_eq_true, decide_eq_true_eq]
      omega
  exact hloop _ first (by intro i; simp [bit])

lemma Filled.frameAlloc {n : ℕ} (h : a.Filled n) (hn : n < a.totalFrames) :
    Paging.frameAlloc a = (a.setBit n, a.frameAddr n) ∧ (a.setBit n).Filled (n + 1) := by
  constructor
  · rcases frameAlloc_cases a with ⟨-, hempty⟩ | ⟨i, hi, hbelow, heq⟩
    · have hmem : n ∈ a.freeSet := mem_freeSet.mpr ⟨hn, by simp [h n]⟩
      simp [hempty] at hmem
    · have hge : ¬ i < n := by simpa [h i] using (mem_freeSet.mp hi).2
      have hle : ¬ n < i := by
        intro hlt
        simpa [h n] using hbelow n hlt
      rw [heq, show i = n by omega]
  · intro i
    rw [bit_setBit, h i, Bool.eq_iff_iff]
    simp only [Bool.or_eq_true, decide_eq_true_eq]
    omega

lemma Filled.nextLow {n : ℕ} (h : a.Filled n) (hwf : a.WellFormed) (hn : n < a.totalFrames)
    (hlt : a.firstFrame + n < 0x40000) : a.NextLow := by
  rw [NextLow, (h.frameAlloc hn).1, frameAddr_toNat hwf hn]
  omega

lemma Filled.freeCount {n : ℕ} (h : a.Filled n) : a.freeCount = a.totalFrames - n := by
  have hset : a.freeSet = Finset.Ico n a.totalFrames := by
    ext i
    simp only [mem_freeSet, h i, decide_eq_false_iff_not, Finset.mem_Ico]
    omega
  rw [FrameAllocator.freeCount, hset, Nat.card_Ico]

/-! ## `frame_free` -/

lemma frameFree_eq (a : FrameAllocator) (x : U32) :
    frameFree a x =
      if x ≠ 0 ∧ a.Managed x then a.clearBit (x.toNat / pageSize - a.firstFrame) else a := by
  rw [frameFree]
  by_cases h0 : x = 0
  · simp [h0]
  · by_cases hm : a.Managed x
    · have hin : ¬ (x.toNat / pageSize < a.firstFrame ∨
          a.firstFrame + a.totalFrames ≤ x.toNat / pageSize) := by
        have := hm.1
        have := hm.2
        omega
      simp [hm, hin]
    · have hout : x.toNat / pageSize < a.firstFrame ∨
          a.firstFrame + a.totalFrames ≤ x.toNat / pageSize := by
        rw [Managed] at hm
        omega
      simp [hm, hout]

@[simp] lemma frameFree_totalFrames (a : FrameAllocator) (x : U32) :
    (frameFree a x).totalFrames = a.totalFrames := by
  rw [frameFree_eq]
  split_ifs <;> rfl

@[simp] lemma frameFree_firstFrame (a : FrameAllocator) (x : U32) :
    (frameFree a x).firstFrame = a.firstFrame := by
  rw [frameFree_eq]
  split_ifs <;> rfl

lemma WellFormed.frameFree (hwf : a.WellFormed) (x : U32) : (frameFree a x).WellFormed :=
  ⟨by simpa using hwf.first_pos, by simpa using hwf.end_le⟩

@[simp] lemma low_frameFree : (frameFree a x).Low ↔ a.Low := by
  simp [Low]

@[simp] lemma managed_frameFree : (frameFree a x).Managed y ↔ a.Managed y := by
  simp [Managed]

lemma marked_frameFree (hwf : a.WellFormed) (hx : isPageAligned x = true)
    (hy : isPageAligned y = true) :
    (Paging.frameFree a x).Marked y ↔ a.Marked y ∧ y ≠ x := by
  rw [frameFree_eq]
  by_cases hm : a.Managed x
  · rw [if_pos ⟨hm.ne_zero hwf, hm⟩]
    simp only [Marked, Managed, clearBit_firstFrame, clearBit_totalFrames, bit_clearBit,
      Bool.and_eq_true, Bool.not_eq_true', decide_eq_false_iff_not]
    constructor
    · rintro ⟨hmy, hb, hne⟩
      refine ⟨⟨hmy, hb⟩, ?_⟩
      rintro rfl
      exact hne rfl
    · rintro ⟨⟨hmy, hb⟩, hne⟩
      refine ⟨hmy, hb, fun hidx => hne ?_⟩
      rw [← frameAddr_index hwf hy hmy, hidx, frameAddr_index hwf hx hm]
  · rw [if_neg (fun h => hm h.2)]
    refine ⟨fun h => ⟨h, ?_⟩, And.left⟩
    rintro rfl
    exact hm h.1

end FrameAllocator

end OpenHobbyOS.Paging
