/-
# Which memory the frame allocator gets

`find_best_memory_region` and the first half of `paging_init`: the frame allocator is given one
region of the memory map, from the end of the kernel heap on.  Modules may lie behind the heap, and
without a large region in the memory map the bounds are guessed.
-/
import OpenHobbyOS.Memory.Heap
import OpenHobbyOS.Paging.Init

namespace OpenHobbyOS.Memory

open Paging Lib FrameAllocator List Nat

/-- The loop of `find_best_memory_region`; `best` is the largest region so far. -/
def bestRegion (kernelEndPhys : U32) (best : U32 × U32) (e : MmapEntry) : U32 × U32 :=
  if e.type = 1 ∧ e.addrHigh = 0 then
    let regionEnd := e.addrLow + e.lenLow
    if regionEnd ≤ 0x100000 then best
    else
      let regionStart :=
        if e.addrLow < kernelEndPhys ∧ 0x100000 < regionEnd then kernelEndPhys else e.addrLow
      let regionStart := (regionStart + 4096 - 1) &&& pageMask
      if regionStart < regionEnd ∧ best.2 < regionEnd - regionStart then
        (regionStart, regionEnd - regionStart)
      else best
  else best

/-- `find_best_memory_region`. -/
def findBestMemoryRegion (mbi : Multiboot) (kernelEndPhys : U32) : U32 × U32 :=
  match mbi.mmap with
  | none =>
    let outStart := (kernelEndPhys + 0xFFFFFF) &&& ~~~0xFFFFFF
    (if outStart < 0x1000000 then 0x1000000 else outStart,
      match mbi.mem with
      | some (lower, upper) => (lower + upper) * 1024
      | none => kernelEndPhys + 0x10000000)
  | some entries =>
    let best := entries.foldl (bestRegion kernelEndPhys) (0, 0)
    if 4 * 1024 * 1024 ≤ best.2 then (best.1, best.1 + best.2)
    else
      (0x10000000,
        if kernelEndPhys + 0x10000000 < 0x2000000 then 0x2000000
        else kernelEndPhys + 0x10000000)

/-- The region behind the kernel heap; `none` is a panic. -/
def userMemory (mbi : Multiboot) (heap : Heap) (kernelEndPhys : U32) : Option (U32 × U32) :=
  let region := findBestMemoryRegion mbi kernelEndPhys
  if 0 < heap.heapEndAddr ∧ region.1 < heap.heapEndAddr then
    let userMemStart := (heap.heapEndAddr + 4096 - 1) &&& ~~~(4096 - 1)
    if region.2 ≤ userMemStart then none else some (userMemStart, region.2)
  else some region

/-- `kmalloc_aligned`. -/
def kmallocAligned (blocks : List Block) (size alignment : U32) : Option (List Block × U32) :=
  if alignment ≤ 8 then kmalloc blocks size
  else
    (kmalloc blocks (size + alignment + 4)).map fun r =>
      (r.1, (r.2 + 4 + alignment - 1) &&& ~~~(alignment - 1))

/-- What `paging_init` starts from, the bitmap and the kernel's directory taken from the heap. -/
def bootInfo (mbi : Multiboot) (heap : Heap) (kernelEndPhys : U32)
    (framebuffer : Option (U32 × ℕ)) : Option BootInfo := do
  let region ← userMemory mbi heap kernelEndPhys
  let numFrames := (region.2 - region.1).toNat / pageSize
  let bitmap ← kmalloc heap.blocks (BitVec.ofNat 32 ((numFrames + 31) / 32 * 4))
  let kernelPd ← kmallocAligned bitmap.1 4096 4096
  some ⟨region.1, region.2, kernelPd.2, framebuffer⟩

/-! ## Calls of the allocator -/

/-- A call on the frames. -/
inductive FrameCall where
  | alloc
  | free (phys : U32)

/-- The allocator with the frames it has ever returned. -/
structure FrameCalls where
  alloc : FrameAllocator
  returned : List U32

namespace FrameCalls

/-- The allocator as `paging_init` sets it up. -/
def start (b : BootInfo) : FrameCalls :=
  ⟨frameAllocInit b.userMemStart b.userMemEnd b.firstFrame, []⟩

/-- Only frames that `frame_alloc` has returned are freed. -/
def step (s : FrameCalls) : FrameCall → Option FrameCalls
  | .alloc => some ⟨(frameAlloc s.alloc).1, (frameAlloc s.alloc).2 :: s.returned⟩
  | .free phys => if phys ∈ s.returned then some ⟨frameFree s.alloc phys, s.returned⟩ else none

end FrameCalls

/-- The page touches neither kernel image, heap nor module, and lies below the end of memory. -/
structure PageOutside (mbi : Multiboot) (heap : Heap) (kernelEnd : U32) (page : ℕ) : Prop where
  kernel : Apart page pageSize 0x100000 (kernelEnd.toNat - 0x100000)
  regions : ∀ b ∈ heap.blocks, Apart page pageSize b.start (b.stop - b.start)
  modules : ∀ m ∈ mbi.bootModules,
    Apart page pageSize m.modStart.toNat (m.modEnd.toNat - m.modStart.toNat)
  memory : page + pageSize ≤ heap.detectedMemoryBytes.toNat

/-- No frame that `frame_alloc` ever returns overlaps anything in use. -/
def FramesOutside (mbi : Multiboot) (heap : Heap) (kernelEnd : U32) (b : BootInfo) : Prop :=
  ∀ calls s, run FrameCalls.step (.start b) calls = some s → (frameAlloc s.alloc).2 ≠ 0 →
    PageOutside mbi heap kernelEnd (frameAlloc s.alloc).2.toNat

/-- There is room for a heap region behind the modules. -/
def RoomBehind (mbi : Multiboot) (kernelEnd : U32) : Prop :=
  (heapRegions mbi kernelEnd).heap2Start + headerSize < (heapRegions mbi kernelEnd).heap2End

instance (mbi : Multiboot) (kernelEnd : U32) : Decidable (RoomBehind mbi kernelEnd) := by
  unfold RoomBehind; infer_instance

/-- Where the heap ends: at the user area or the end of memory, or where the modules begin. -/
def heapLimit (mbi : Multiboot) (kernelEnd : U32) : ℕ :=
  if RoomBehind mbi kernelEnd then min 0x1FF0000 mbi.highestAddr.toNat
  else (heapRegions mbi kernelEnd).heap1End.toNat

/-- The start of the region of the memory map, or the first page behind the heap. -/
def frameStart (mbi : Multiboot) (kernelEnd : U32) : ℕ :=
  max (findBestMemoryRegion mbi kernelEnd).1.toNat
    ((heapLimit mbi kernelEnd + 4095) / pageSize * pageSize)

/-- The end of the last whole page of the region. -/
def frameEnd (mbi : Multiboot) (kernelEnd : U32) : ℕ :=
  (findBestMemoryRegion mbi kernelEnd).2.toNat / pageSize * pageSize

/-- The region is not reversed, and it holds no page behind twice its start, or it ends within
memory and the modules, unless there is room for the heap behind them, keep clear of these pages. -/
structure LayoutFits (mbi : Multiboot) (kernelEnd : U32) : Prop where
  ordered : frameStart mbi kernelEnd ≤ (findBestMemoryRegion mbi kernelEnd).2.toNat
  memory : 2 * frameStart mbi kernelEnd < frameEnd mbi kernelEnd →
    frameEnd mbi kernelEnd ≤ mbi.highestAddr.toNat
  modules : 2 * frameStart mbi kernelEnd < frameEnd mbi kernelEnd → ¬ RoomBehind mbi kernelEnd →
    ∀ m ∈ mbi.bootModules, m.modStart < m.modEnd →
      m.modEnd.toNat ≤ 2 * frameStart mbi kernelEnd ∨ frameEnd mbi kernelEnd ≤ m.modStart.toNat

/-! ## The two initialisers -/

section Bounds

variable {mbi : Multiboot} {kernelEnd : U32} {heap : Heap} {b : BootInfo}

lemma bestRegion_sound {best : U32 × U32} (e : MmapEntry)
    (h : best.1.toNat % 4096 = 0 ∧ best.1.toNat + best.2.toNat < 2 ^ 32) :
    (bestRegion kernelEnd best e).1.toNat % 4096 = 0 ∧
      (bestRegion kernelEnd best e).1.toNat + (bestRegion kernelEnd best e).2.toNat < 2 ^ 32 := by
  unfold bestRegion
  by_cases husable : e.type = 1 ∧ e.addrHigh = 0
  · rw [if_pos husable]
    dsimp only
    generalize (if e.addrLow < kernelEnd ∧ 0x100000 < e.addrLow + e.lenLow then kernelEnd
      else e.addrLow) + 4096 - 1 = from'
    have hmask := and_pageMask_toNat from'
    generalize from' &&& pageMask = start at hmask ⊢
    split_ifs with hlow hbest
    · exact h
    · dsimp only
      exact ⟨by omega, by bv_omega⟩
    · exact h
  · rwa [if_neg husable]

lemma bestRegion_foldl_sound (kernelEnd : U32) (entries : List MmapEntry) :
    (entries.foldl (bestRegion kernelEnd) (0, 0)).1.toNat % 4096 = 0 ∧
      (entries.foldl (bestRegion kernelEnd) (0, 0)).1.toNat +
        (entries.foldl (bestRegion kernelEnd) (0, 0)).2.toNat < 2 ^ 32 :=
  List.foldlRecOn (motive := fun best : U32 × U32 =>
    best.1.toNat % 4096 = 0 ∧ best.1.toNat + best.2.toNat < 2 ^ 32) entries _
    (by decide) fun _ h e _ => bestRegion_sound e h

lemma findBestMemoryRegion_spec (mbi : Multiboot) (hkernel : kernelEnd.toNat ≤ 0x1FF0000) :
    (findBestMemoryRegion mbi kernelEnd).1.toNat % 4096 = 0 ∧
      ((findBestMemoryRegion mbi kernelEnd).1.toNat ≤ 0x2000000 ∨
        (findBestMemoryRegion mbi kernelEnd).1.toNat ≤
          (findBestMemoryRegion mbi kernelEnd).2.toNat) := by
  unfold findBestMemoryRegion
  cases mbi.mmap with
  | none =>
    have hmask : ((kernelEnd + 0xFFFFFF) &&& ~~~0xFFFFFF).toNat =
        (kernelEnd + 0xFFFFFF).toNat - (kernelEnd + 0xFFFFFF).toNat % 2 ^ 24 :=
      and_mask_toNat _ (by decide)
    have hsum : (kernelEnd + 0xFFFFFF).toNat = kernelEnd.toNat + 0xFFFFFF := by bv_omega
    dsimp only
    generalize (kernelEnd + 0xFFFFFF) &&& ~~~0xFFFFFF = start at hmask ⊢
    split_ifs
    · exact ⟨by decide, .inl (by decide)⟩
    · exact ⟨by omega, .inl (by omega)⟩
  | some entries =>
    obtain ⟨haligned, hsum⟩ := bestRegion_foldl_sound kernelEnd entries
    dsimp only
    split_ifs
    · refine ⟨haligned, .inr ?_⟩
      rw [BitVec.toNat_add_of_lt hsum]
      exact le_add_right _ _
    all_goals
      dsimp only
      exact ⟨by decide, .inr (by bv_omega)⟩

lemma regionBlock_bounds {lo hi : U32} (h : lo + headerSize < hi) (hlo : lo.toNat ≤ 2 ^ 32 - 16) :
    lo.toNat < hi.toNat ∧ (regionBlock lo hi).stop = hi.toNat := by
  obtain ⟨hstart, hlt, hstop⟩ := (fills_regionBlock h hlo).resolve_left (cons_ne_nil _ _)
  have hhi : (regionBlock lo hi).stop = hi.toNat := hstop
  exact ⟨by omega, hhi⟩

lemma heap2End_toNat (mbi : Multiboot) (kernelEnd : U32) :
    (heapRegions mbi kernelEnd).heap2End.toNat = min 0x1FF0000 mbi.highestAddr.toNat := by
  have hbase : userBase - 0x10000 = 0x1FF0000 := rfl
  simp only [heapRegions, hbase]
  split_ifs with h
  · rw [min_eq_left (by bv_omega)]
    rfl
  · rw [min_eq_right (by bv_omega)]

lemma RoomBehind.modEnd_le (hroom : RoomBehind mbi kernelEnd) (hreg : Regular mbi kernelEnd)
    {m : BootModule} (hm : m ∈ mbi.bootModules) : m.modEnd.toNat ≤ heapLimit mbi kernelEnd := by
  have hbefore := (hreg.module_between hm).2
  have hlt := (regionBlock_bounds hroom (alignUp_sixteen_le _)).1
  rw [heapLimit, if_pos hroom, ← heap2End_toNat mbi kernelEnd]
  omega

/-- **The heap's end** is behind the kernel image and every block of the heap. -/
lemma memoryInit_bounds (hreg : Regular mbi kernelEnd)
    (hinit : memoryInit mbi kernelEnd = some heap) :
    heap.heapEndAddr.toNat = heapLimit mbi kernelEnd ∧ kernelEnd.toNat < heapLimit mbi kernelEnd ∧
      (∀ b ∈ heap.blocks, b.stop ≤ heapLimit mbi kernelEnd) ∧
      heap.detectedMemoryBytes = mbi.highestAddr := by
  have hk : kernelEnd.toNat ≤ (mbi.modsEnd kernelEnd).toNat :=
    (modsEnd_fold mbi.bootModules kernelEnd).1
  have h1start : kernelEnd.toNat ≤ (heapRegions mbi kernelEnd).heap1Start.toNat :=
    (le_alignUp_sixteen hk hreg.modsEnd_le).1
  have hstarts : (heapRegions mbi kernelEnd).heap1Start.toNat ≤
    (heapRegions mbi kernelEnd).heap2Start.toNat := (le_alignUp_sixteen hk hreg.modsEnd_le).2
  have h1end := hreg.heap1End_le
  have h1 : (heapRegions mbi kernelEnd).heap1Start.toNat ≤ 2 ^ 32 - 16 := alignUp_sixteen_le _
  have h2 : (heapRegions mbi kernelEnd).heap2Start.toNat ≤ 2 ^ 32 - 16 := alignUp_sixteen_le _
  rw [heapLimit, ← heap2End_toNat mbi kernelEnd]
  simp only [memoryInit] at hinit
  split_ifs at hinit with hzero hheap1 hheap2 hheap2 <;> cases hinit
  · obtain ⟨-, hstop1⟩ := regionBlock_bounds hheap1 h1
    obtain ⟨hlt, hstop2⟩ := regionBlock_bounds hheap2 h2
    rw [if_pos (show RoomBehind mbi kernelEnd from hheap2)]
    refine ⟨rfl, by omega, fun b hb => ?_, rfl⟩
    rcases mem_cons.mp hb with rfl | hb
    · omega
    · exact (mem_singleton.mp hb ▸ hstop2).le
  · obtain ⟨hlt, hstop⟩ := regionBlock_bounds hheap1 h1
    rw [if_neg (show ¬ RoomBehind mbi kernelEnd from hheap2)]
    exact ⟨rfl, by omega, fun b hb => (mem_singleton.mp hb ▸ hstop).le, rfl⟩
  · obtain ⟨hlt, hstop⟩ := regionBlock_bounds hheap2 h2
    rw [if_pos (show RoomBehind mbi kernelEnd from hheap2)]
    exact ⟨rfl, by omega, fun b hb => (mem_singleton.mp hb ▸ hstop).le, rfl⟩

/-- **The region of the frames** starts at or behind the heap's end. -/
lemma bootInfo_bounds {framebuffer : Option (U32 × ℕ)} (hreg : Regular mbi kernelEnd)
    (hlast : (mbi.modsEnd kernelEnd).toNat ≤ 0xFFFFF000) (hkernel : kernelEnd.toNat ≤ 0x1FF0000)
    (hinit : memoryInit mbi kernelEnd = some heap)
    (hb : bootInfo mbi heap kernelEnd framebuffer = some b) :
    b.userMemStart.toNat = frameStart mbi kernelEnd ∧
      b.userMemEnd = (findBestMemoryRegion mbi kernelEnd).2 ∧
      (frameStart mbi kernelEnd ≤ 0x2000000 ∨
        frameStart mbi kernelEnd ≤ (findBestMemoryRegion mbi kernelEnd).2.toNat) := by
  obtain ⟨hend, hle, -, -⟩ := memoryInit_bounds hreg hinit
  obtain ⟨haligned, hordered⟩ := findBestMemoryRegion_spec mbi hkernel
  have hlimit : heapLimit mbi kernelEnd ≤ 0xFFFFF000 := by
    have hlow := (le_alignUp_sixteen (w := 0xFFFFF000) hlast (by decide)).2
    have h1end := hreg.heap1End_le.trans hlow
    rw [heapLimit]
    split_ifs
    · omega
    · exact h1end
  simp only [bootInfo, Option.bind_eq_bind, Option.bind_eq_some_iff] at hb
  obtain ⟨region, huser, _, -, _, -, heq⟩ := hb
  cases heq
  rw [userMemory] at huser
  dsimp only at huser
  have hround : ((heap.heapEndAddr + 4096 - 1) &&& ~~~(4096 - 1)).toNat =
      (heap.heapEndAddr + 4096 - 1).toNat - (heap.heapEndAddr + 4096 - 1).toNat % 4096 :=
    and_pageMask_toNat _
  have hsum : (heap.heapEndAddr + 4096 - 1).toNat = heapLimit mbi kernelEnd + 4095 := by
    bv_omega
  generalize (heap.heapEndAddr + 4096 - 1) &&& ~~~(4096 - 1) = start at huser hround
  simp only [frameStart, pageSize]
  generalize findBestMemoryRegion mbi kernelEnd = r at *
  split_ifs at huser with hmoves hpast
  · cases huser
    dsimp only
    rw [BitVec.not_le, BitVec.lt_def] at hpast
    rw [BitVec.lt_def, BitVec.lt_def] at hmoves
    exact ⟨by omega, rfl, by omega⟩
  · cases huser
    rw [BitVec.lt_def, BitVec.lt_def, show (0 : U32).toNat = 0 from rfl] at hmoves
    exact ⟨by omega, rfl, by omega⟩

end Bounds

section Frames

variable {b : BootInfo} {s s' : FrameCalls}

/-- The frames below `2 * first_frame` stay marked. -/
structure FramesInv (b : BootInfo) (s : FrameCalls) : Prop where
  first : s.alloc.firstFrame = b.firstFrame
  total : s.alloc.totalFrames = b.totalFrames
  low : ∀ i < b.firstFrame, s.alloc.bit i = true
  returned : ∀ x ∈ s.returned, x = 0 ∨
    ∃ i, b.firstFrame ≤ i ∧ i < b.totalFrames ∧ x = s.alloc.frameAddr i

lemma totalFrames_lt (b : BootInfo) : b.totalFrames < 2 ^ 20 := by
  have := (b.userMemEnd - b.userMemStart).isLt
  rw [BootInfo.totalFrames, pageSize]
  omega

lemma frameAddr_toNat_mod (a : FrameAllocator) (i : ℕ) :
    (a.frameAddr i).toNat = (a.firstFrame + i) % 2 ^ 20 * pageSize := by
  rw [frameAddr, BitVec.toNat_ofNat, pageSize]
  omega

lemma framesInv_start (b : BootInfo) : FramesInv b (.start b) := by
  obtain ⟨hfilled, hfirst, htotal⟩ :=
    filled_frameAllocInit b.userMemStart b.userMemEnd b.firstFrame
  refine ⟨hfirst, htotal, fun i hi => ?_, by simp [FrameCalls.start]⟩
  rw [FrameCalls.start, hfilled i]
  simpa using hi

lemma FramesInv.frameAlloc (h : FramesInv b s) :
    FramesInv b ⟨(Paging.frameAlloc s.alloc).1, (Paging.frameAlloc s.alloc).2 :: s.returned⟩ ∧
      ((Paging.frameAlloc s.alloc).2 = 0 ∨ ∃ i, b.firstFrame ≤ i ∧ i < b.totalFrames ∧
        (Paging.frameAlloc s.alloc).2 = s.alloc.frameAddr i) := by
  rcases frameAlloc_cases s.alloc with ⟨heq, -⟩ | ⟨i, hi, -, heq⟩
  · rw [heq]
    refine ⟨⟨h.first, h.total, h.low, fun x hx => ?_⟩, .inl rfl⟩
    rcases mem_cons.mp hx with rfl | hx
    · exact .inl rfl
    · exact h.returned x hx
  · obtain ⟨hlt, hbit⟩ := mem_freeSet.mp hi
    have hge : b.firstFrame ≤ i := by
      by_contra hlow
      rw [h.low i (by omega)] at hbit
      cases hbit
    rw [heq]
    refine ⟨⟨h.first, h.total, fun j hj => ?_, fun x hx => ?_⟩, .inr ⟨i, hge, h.total ▸ hlt, rfl⟩⟩
    · rw [bit_setBit, h.low j hj, Bool.true_or]
    · rcases mem_cons.mp hx with rfl | hx
      · exact .inr ⟨i, hge, h.total ▸ hlt, rfl⟩
      · exact h.returned x hx

lemma FramesInv.frameFree (h : FramesInv b s) {x : U32} (hx : x ∈ s.returned) :
    FramesInv b ⟨Paging.frameFree s.alloc x, s.returned⟩ := by
  have haddr : ∀ i, (Paging.frameFree s.alloc x).frameAddr i = s.alloc.frameAddr i := by
    intro i
    simp only [frameAddr, frameFree_firstFrame]
  refine ⟨by simpa using h.first, by simpa using h.total, fun j hj => ?_, fun y hy => ?_⟩
  · rw [frameFree_eq]
    split_ifs with hm
    · rcases h.returned x hx with h0 | ⟨i, hge, hlt, rfl⟩
      · exact absurd h0 hm.1
      · have hmanaged := hm.2.1
        have htotal := totalFrames_lt b
        rw [frameAddr_toNat_mod, Nat.mul_div_cancel _ (by decide), h.first] at hmanaged
        rw [bit_clearBit, h.low j hj, frameAddr_toNat_mod, Nat.mul_div_cancel _ (by decide),
          h.first]
        -- the frame's number has not wrapped, so its index is `i`
        have hindex : (b.firstFrame + i) % 2 ^ 20 = b.firstFrame + i := by omega
        rw [hindex]
        simp only [Bool.true_and, Bool.not_eq_true', decide_eq_false_iff_not]
        omega
    · exact h.low j hj
  · simp only [haddr]
    exact h.returned y hy

lemma FramesInv.step (h : FramesInv b s) {call : FrameCall} (hs : s.step call = some s') :
    FramesInv b s' := by
  cases call with
  | alloc =>
    cases hs
    exact h.frameAlloc.1
  | free x =>
    rw [FrameCalls.step] at hs
    split_ifs at hs with hx
    cases hs
    exact h.frameFree hx

lemma run_alloc {s : FrameCalls} {n : ℕ} (hfilled : s.alloc.Filled n) (k : ℕ)
    (hk : n + k ≤ s.alloc.totalFrames) :
    ∃ s', run FrameCalls.step s (List.replicate k .alloc) = some s' ∧ s'.alloc.Filled (n + k) ∧
      s'.alloc.firstFrame = s.alloc.firstFrame ∧ s'.alloc.totalFrames = s.alloc.totalFrames := by
  induction k generalizing s n with
  | zero => exact ⟨s, rfl, hfilled, rfl, rfl⟩
  | succ k ih =>
    obtain ⟨heq, hnext⟩ := hfilled.frameAlloc (by omega)
    obtain ⟨s', hrun, hfilled', hfirst, htotal⟩ :=
      ih (s := ⟨s.alloc.setBit n, s.alloc.frameAddr n :: s.returned⟩) hnext
        (by simp only [setBit_totalFrames]; omega)
    refine ⟨s', ?_, by rwa [add_right_comm, add_assoc] at hfilled', hfirst, htotal⟩
    rw [replicate_succ, run_cons_eq_some]
    exact ⟨_, by rw [FrameCalls.step, heq], hrun⟩

/-- **The pages the allocator can return** are those from twice the start of its region to its end,
modulo the number of pages there are and without the null page. -/
lemma framesOutside_iff_pages {mbi : Multiboot} {heap : Heap} {kernelEnd : U32} :
    FramesOutside mbi heap kernelEnd b ↔
      ∀ n, 2 * b.firstFrame ≤ n → n < b.firstFrame + b.totalFrames → n % 2 ^ 20 ≠ 0 →
        PageOutside mbi heap kernelEnd (n % 2 ^ 20 * pageSize) := by
  constructor
  · intro h n hlo hhi hne
    obtain ⟨hfilled, hfirst, htotal⟩ :=
      filled_frameAllocInit b.userMemStart b.userMemEnd b.firstFrame
    have htotal' : (FrameCalls.start b).alloc.totalFrames = b.totalFrames := htotal
    have hfirst' : (FrameCalls.start b).alloc.firstFrame = b.firstFrame := hfirst
    obtain ⟨s, hrun, hfilled', hf, ht⟩ := run_alloc (s := .start b) hfilled
      (n - 2 * b.firstFrame) (by omega)
    have halloc := (hfilled'.frameAlloc (by omega)).1
    have hnat : (frameAlloc s.alloc).2.toNat = n % 2 ^ 20 * pageSize := by
      rw [halloc, frameAddr_toNat_mod, hf, hfirst']
      congr 2
      omega
    have hpos : (frameAlloc s.alloc).2 ≠ 0 := by
      intro h0
      rw [h0, pageSize] at hnat
      simp at hnat
      omega
    exact hnat ▸ h _ s hrun hpos
  · intro h calls s hrun hne
    have hinv : FramesInv b s :=
      run_invariant (fun hp hs => hp.step hs) (framesInv_start b) hrun
    rcases hinv.frameAlloc.2 with h0 | ⟨i, hge, hlt, heq⟩
    · exact absurd h0 hne
    · have hnat := frameAddr_toNat_mod s.alloc i
      rw [heq, hnat, hinv.first]
      refine h (b.firstFrame + i) (by omega) (by omega) fun h0 => hne ?_
      rw [hinv.first, h0] at hnat
      rw [heq]
      exact BitVec.eq_of_toNat_eq (by simpa using hnat)

end Frames

/-- **What the frame allocator can return.**  Its frames never touch the kernel image or the heap,
and they avoid the modules and what lies behind the end of memory exactly if the layout fits. -/
theorem frames_outside_iff {mbi : Multiboot} {kernelEnd : U32} {heap : Heap} {b : BootInfo}
    {framebuffer : Option (U32 × ℕ)} (hreg : Regular mbi kernelEnd)
    (hlast : (mbi.modsEnd kernelEnd).toNat ≤ 0xFFFFF000) (hkernel : kernelEnd.toNat ≤ 0x1FF0000)
    (hinit : memoryInit mbi kernelEnd = some heap)
    (hb : bootInfo mbi heap kernelEnd framebuffer = some b) :
    FramesOutside mbi heap kernelEnd b ↔ LayoutFits mbi kernelEnd := by
  obtain ⟨hend, hle, hblocks, hdetected⟩ := memoryInit_bounds hreg hinit
  obtain ⟨hstart, hstop, hordered⟩ := bootInfo_bounds hreg hlast hkernel hinit hb
  have hend4096 : frameEnd mbi kernelEnd % 4096 = 0 := by
    rw [frameEnd, pageSize]
    omega
  have haligned : frameStart mbi kernelEnd % 4096 = 0 := by
    have := (findBestMemoryRegion_spec mbi hkernel).1
    rw [frameStart, pageSize]
    omega
  have hheap : heapLimit mbi kernelEnd ≤ frameStart mbi kernelEnd := by
    rw [frameStart, pageSize]
    omega
  have hlt := (findBestMemoryRegion mbi kernelEnd).2.isLt
  have hsize : (b.userMemEnd - b.userMemStart).toNat =
      if b.userMemStart.toNat ≤ b.userMemEnd.toNat then b.userMemEnd.toNat - b.userMemStart.toNat
      else 2 ^ 32 + b.userMemEnd.toNat - b.userMemStart.toNat := by
    split_ifs <;> bv_omega
  rw [framesOutside_iff_pages, BootInfo.firstFrame, BootInfo.totalFrames, hsize, hstop, hstart,
    pageSize]
  constructor
  · intro h
    have hord : frameStart mbi kernelEnd ≤ (findBestMemoryRegion mbi kernelEnd).2.toNat := by
      by_contra hrev
      rw [if_neg hrev] at h
      -- a reversed region reaches the last page there is
      have hlastPage := (h (2 ^ 20 - 1) (by omega) (by omega) (by decide)).memory
      have := heap.detectedMemoryBytes.isLt
      rw [pageSize] at hlastPage
      omega
    rw [if_pos hord] at h
    have hpage (n : ℕ) (hlo : 2 * frameStart mbi kernelEnd ≤ n * 4096)
        (hhi : n * 4096 < frameEnd mbi kernelEnd) : PageOutside mbi heap kernelEnd (n * 4096) := by
      rw [frameEnd, pageSize] at hhi
      have hn := h n (by omega) (by omega) (by omega)
      rwa [mod_eq_of_lt (by omega)] at hn
    refine ⟨hord, fun hsome => ?_, fun hsome _ m hm hlen => ?_⟩
    · have hmem := (hpage (frameEnd mbi kernelEnd / 4096 - 1) (by omega) (by omega)).memory
      rw [hdetected, pageSize] at hmem
      omega
    · -- the first page of the module behind the start, if any
      by_contra hover
      rw [not_or, not_le, not_le] at hover
      have hpart := (hpage (max (2 * frameStart mbi kernelEnd / 4096) (m.modStart.toNat / 4096))
        (by omega) (by omega)).modules m hm
      rw [Apart, pageSize] at hpart
      rw [BitVec.lt_def] at hlen
      omega
  · intro h n hlo hhi hne
    rw [if_pos h.ordered] at hhi
    rw [mod_eq_of_lt (by omega)]
    have hfrom : 2 * frameStart mbi kernelEnd ≤ n * 4096 := by omega
    have hto : (n + 1) * 4096 ≤ frameEnd mbi kernelEnd := by
      rw [frameEnd, pageSize]
      omega
    refine ⟨by unfold Apart pageSize; omega, fun block hblock => .inr (.inl ?_), fun m hm => ?_, ?_⟩
    · have := hblocks block hblock
      have : block.start ≤ block.stop := by simp only [Block.start, Block.stop]; omega
      omega
    · rw [Apart, pageSize]
      by_cases hroom : RoomBehind mbi kernelEnd
      · have := hroom.modEnd_le hreg hm
        omega
      · by_cases hlen : m.modStart < m.modEnd
        · have := h.modules (by omega) hroom m hm hlen
          omega
        · rw [BitVec.not_lt, BitVec.le_def] at hlen
          omega
    · have := h.memory (by omega)
      rw [hdetected, pageSize]
      omega

/-! ## A small and a large initrd -/

/-- 128 MiB of memory and an initrd from 4 to 6 MiB. -/
def smallInitrdBoot : Multiboot where
  mem := some (640, 0x1FC00)
  mods := some [⟨0x400000, 0x600000⟩]
  mmap := some [⟨0, 0, 0xA0000, 0, 1⟩, ⟨0x100000, 0, 0x7F00000, 0, 1⟩]

/-- Its heap. -/
def smallInitrdHeap : Heap where
  blocks := [⟨0x200000, 0x1FFFF4, true⟩, ⟨0x600000, 0x19EFFF4, true⟩]
  heapStartAddr := 0x200000
  heapEndAddr := 0x1FF0000
  detectedMemoryBytes := 0x8000000

/-- The frames there start at 64 MiB and keep clear of everything. -/
theorem frames_behind_initrd :
    memoryInit smallInitrdBoot 0x200000 = some smallInitrdHeap ∧
      ∃ b, bootInfo smallInitrdBoot smallInitrdHeap 0x200000 none = some b ∧
        FramesOutside smallInitrdBoot smallInitrdHeap 0x200000 b := by
  have hinit : memoryInit smallInitrdBoot 0x200000 = some smallInitrdHeap := by decide
  refine ⟨hinit, ⟨0x1FF0000, 0x8000000, 0x201000, none⟩, rfl, ?_⟩
  refine (frames_outside_iff ⟨by decide, by decide⟩ (by decide) (by decide) hinit rfl).mpr ?_
  exact ⟨by decide, fun _ => by decide, fun _ hno => absurd (by decide) hno⟩

/-- 64 MiB of memory and an initrd from 4 to 40 MiB, where the heap ends. -/
def largeInitrdBoot : Multiboot where
  mem := some (640, 0xFC00)
  mods := some [⟨0x400000, 0x2800000⟩]
  mmap := some [⟨0, 0, 0xA0000, 0, 1⟩, ⟨0x100000, 0, 0x3F00000, 0, 1⟩]

/-- Its heap. -/
def largeInitrdHeap : Heap where
  blocks := [⟨0x200000, 0x1FFFF4, true⟩]
  heapStartAddr := 0x200000
  heapEndAddr := 0x400000
  detectedMemoryBytes := 0x4000000

/-- Its region. -/
def largeInitrdInfo : BootInfo where
  userMemStart := 0x400000
  userMemEnd := 0x4000000
  kernelPd := 0x201000
  framebuffer := none

/-- The first frame the allocator returns there lies in the initrd. -/
theorem frame_in_initrd :
    memoryInit largeInitrdBoot 0x200000 = some largeInitrdHeap ∧
      bootInfo largeInitrdBoot largeInitrdHeap 0x200000 none = some largeInitrdInfo ∧
      (frameAlloc (FrameCalls.start largeInitrdInfo).alloc).2 = 0x800000 ∧
      ¬ PageOutside largeInitrdBoot largeInitrdHeap 0x200000 0x800000 := by
  refine ⟨by decide, rfl, ?_, fun h => ?_⟩
  · obtain ⟨hfilled, hfirst, htotal⟩ := filled_frameAllocInit largeInitrdInfo.userMemStart
      largeInitrdInfo.userMemEnd largeInitrdInfo.firstFrame
    have hf : largeInitrdInfo.firstFrame = 0x400 := rfl
    have ht : (largeInitrdInfo.userMemEnd - largeInitrdInfo.userMemStart).toNat / pageSize =
        0x3C00 := rfl
    rw [FrameCalls.start, (hfilled.frameAlloc (by omega)).1, frameAddr, hfirst, hf]
    rfl
  · exact absurd (h.modules ⟨0x400000, 0x2800000⟩ (by decide)) (by decide)

end OpenHobbyOS.Memory
