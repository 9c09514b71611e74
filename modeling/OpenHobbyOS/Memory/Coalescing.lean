/-
# Conservation and coalescing in one region

Where `memory_init` finds room for a single region, the blocks lie end to end from its start to its
end, no two neighbours are free, and when all pointers have been given back there is one free block
again.
-/
import OpenHobbyOS.Memory.Heap

namespace OpenHobbyOS.Memory

open Paging Lib List

/-- Two neighbours that `merge_blocks` would leave alone. -/
def Separate (b c : Block) : Prop := ¬ (b.free = true ∧ c.free = true)

/-- What the heap's users can rely on in the region from `lo` to `hi`. -/
structure Conserved (lo hi : U32) (s : HeapState) : Prop where
  tiles : Tiles Block.start Block.stop lo.toNat hi.toNat s.blocks
  /-- The sum over the blocks of size and header. -/
  total : (s.blocks.map fun b => b.size.toNat + headerSize.toNat).sum = hi.toNat - lo.toNat
  coalesced : s.blocks.IsChain Separate
  /-- `kmalloc` returns the null pointer only for the size 0 or if no free block is large
  enough. -/
  refused : ∀ size, kmalloc s.blocks size = none →
    size = 0 ∨ ∀ b ∈ s.blocks, b.free = true → b.size < alignUp size 8
  released : s.live = [] → s.blocks = [regionBlock lo hi]

/-! ## Merging -/

section Merging

variable {b d : Block} {l : List Block}

/-- The first block keeps its address and its flag, so the block before it stays separate. -/
lemma head_mergeFrom (d : Block) (l : List Block) :
    ∃ e l', mergeFrom d l = e :: l' ∧ e.addr = d.addr ∧ e.free = d.free := by
  induction l generalizing d with
  | nil => exact ⟨d, [], rfl, rfl, rfl⟩
  | cons c l ih =>
    rw [mergeFrom]
    split_ifs with hfree
    · obtain ⟨e, l', heq, haddr, hflag⟩ := ih { d with size := d.size + (headerSize + c.size) }
      exact ⟨e, l', heq, haddr, hflag⟩
    · exact ⟨d, mergeFrom c l, rfl, rfl, rfl⟩

lemma isChain_mergeFrom (d : Block) (l : List Block) : (mergeFrom d l).IsChain Separate := by
  induction l generalizing d with
  | nil => exact .singleton d
  | cons c l ih =>
    rw [mergeFrom]
    split_ifs with hfree
    · exact ih _
    · obtain ⟨e, l', heq, -, hflag⟩ := head_mergeFrom c l
      have hrest := ih c
      rw [heq] at hrest ⊢
      refine .cons_cons ?_ hrest
      rintro ⟨hd, he⟩
      exact hfree ⟨hd, hflag ▸ he⟩

/-- **One pass is enough.**  After `merge_blocks` no two neighbours are free. -/
theorem isChain_mergeBlocks (l : List Block) : (mergeBlocks l).IsChain Separate := by
  cases l with
  | nil => exact .nil
  | cons d l => exact isChain_mergeFrom d l

lemma mem_of_mem_mergeFrom (hb : b ∈ mergeFrom d l) (hused : b.free = false) : b ∈ d :: l := by
  induction l generalizing d with
  | nil => exact hb
  | cons c l ih =>
    rw [mergeFrom] at hb
    split_ifs at hb with hfree
    · rcases mem_cons.mp (ih hb) with rfl | hb
      · -- the joined block is free
        rw [hfree.1] at hused
        cases hused
      · exact mem_cons_of_mem _ (mem_cons_of_mem _ hb)
    · rcases mem_cons.mp hb with rfl | hb
      · exact mem_cons_self
      · exact mem_cons_of_mem _ (ih hb)

lemma mem_of_mem_mergeBlocks (hb : b ∈ mergeBlocks l) (hused : b.free = false) : b ∈ l := by
  cases l with
  | nil => exact hb
  | cons d l => exact mem_of_mem_mergeFrom hb hused

end Merging

/-! ## Requests -/

section Requests

variable {needed : U32} {b : Block} {l l₁ l₂ : List Block}

lemma firstFit_none (h : firstFit needed l = none) :
    ∀ b ∈ l, b.free = true → b.size < needed := by
  induction l with
  | nil => simp
  | cons b l ih =>
    rw [firstFit] at h
    split_ifs at h with hfit
    intro c hc hfree
    rcases mem_cons.mp hc with rfl | hc
    · exact BitVec.not_le.mp fun hle => hfit ⟨hfree, hle⟩
    · exact ih (Option.map_eq_none_iff.mp h) c hc hfree

lemma isChain_takeBlock (hfree : b.free = true) (h : (l₁ ++ b :: l₂).IsChain Separate) :
    (l₁ ++ (takeBlock needed b ++ l₂)).IsChain Separate := by
  rw [isChain_append] at h
  obtain ⟨hleft, hright, -⟩ := h
  rw [isChain_cons] at hright
  obtain ⟨hnext, hrest⟩ := hright
  rw [takeBlock]
  split_ifs with hcut
  · refine isChain_append.mpr ⟨hleft, ?_, ?_⟩
    · refine isChain_cons.mpr ⟨?_, isChain_cons.mpr ⟨fun c hc hboth => ?_, hrest⟩⟩
      · rintro c - ⟨hused, -⟩
        cases hused
      · exact hnext c hc ⟨hfree, hboth.2⟩
    · rintro c - d hd ⟨-, hused⟩
      obtain rfl : _ = d := by simpa using hd
      cases hused
  · refine isChain_append.mpr ⟨hleft, isChain_cons.mpr ⟨?_, hrest⟩, ?_⟩
    · rintro c - ⟨hused, -⟩
      cases hused
    · rintro c - d hd ⟨-, hused⟩
      obtain rfl : _ = d := by simpa using hd
      cases hused

end Requests

/-! ## The invariant -/

/-- The blocks fill the region without free neighbours; those in use are the pointers' in use. -/
structure RegionInv (lo hi : U32) (s : HeapState) : Prop where
  tiles : Tiles Block.start Block.stop lo.toNat hi.toNat s.blocks
  coalesced : s.blocks.IsChain Separate
  owners : ∀ b ∈ s.blocks, b.free = false → ∃ e ∈ s.live, e.1 = b.payload
  live : ∀ e ∈ s.live, ∃ b ∈ s.blocks, b.free = false ∧ e.1 = b.payload

namespace RegionInv

variable {lo hi : U32} {s s' : HeapState}

lemma stop_lt (h : RegionInv lo hi s) {b : Block} (hb : b ∈ s.blocks) : b.stop < 2 ^ 32 :=
  (h.tiles.mem hb).2.2.trans_lt hi.isLt

lemma kmalloc (h : RegionInv lo hi s) {size p : U32} {blocks : List Block}
    (hsize : size ≤ HeapState.maxRequest)
    (hk : Memory.kmalloc s.blocks size = some (blocks, p)) :
    RegionInv lo hi ⟨blocks, (p, size) :: s.live⟩ := by
  rw [Memory.kmalloc] at hk
  split_ifs at hk with hzero
  obtain ⟨l₁, b, l₂, heq, hfree, hneed, hres⟩ := firstFit_some hk
  cases hres
  have hb : b ∈ s.blocks := by simp [heq]
  have hup := (alignUp_eight hsize).2
  have hmax : size.toNat ≤ 2 ^ 31 := hsize
  have htiles := h.tiles
  have hchain := h.coalesced
  rw [heq] at htiles hchain
  refine ⟨htiles.replace (tiles_takeBlock hneed (by omega) (h.stop_lt hb)),
    isChain_takeBlock hfree hchain, ?_, ?_⟩
  · intro c hc hused
    simp only [mem_append] at hc
    rcases hc with hc | hc | hc
    · obtain ⟨e, he, hec⟩ := h.owners c (by simp [heq, hc]) hused
      exact ⟨e, mem_cons_of_mem _ he, hec⟩
    · -- of the cut block only the front part is in use
      refine ⟨_, mem_cons_self, ?_⟩
      rw [takeBlock] at hc
      split_ifs at hc with hcut
      · rcases mem_cons.mp hc with rfl | hc
        · rfl
        · obtain rfl : c = _ := by simpa using hc
          cases hused
      · obtain rfl : c = _ := by simpa using hc
        rfl
    · obtain ⟨e, he, hec⟩ := h.owners c (by simp [heq, hc]) hused
      exact ⟨e, mem_cons_of_mem _ he, hec⟩
  · intro e he
    rcases mem_cons.mp he with rfl | he
    · rw [takeBlock]
      split_ifs with hcut
      · exact ⟨{ b with size := alignUp size 8, free := false }, by simp, rfl, rfl⟩
      · exact ⟨{ b with free := false }, by simp, rfl, rfl⟩
    · obtain ⟨c, hc, hused, hec⟩ := h.live e he
      refine ⟨c, ?_, hused, hec⟩
      rw [heq] at hc
      simp only [mem_append, mem_cons] at hc ⊢
      rcases hc with hc | rfl | hc
      · exact .inl hc
      · rw [hused] at hfree
        cases hfree
      · exact .inr (.inr hc)

lemma kfree (h : RegionInv lo hi s) {ptr : U32} (hptr : ptr ∈ s.live.map Prod.fst) :
    RegionInv lo hi ⟨Memory.kfree s.blocks ptr, s.live.filter fun e => e.1 ≠ ptr⟩ := by
  obtain ⟨e, he, rfl⟩ := mem_map.mp hptr
  obtain ⟨b, hb, -, hpb⟩ := h.live e he
  have hne : e.1 ≠ 0 := by
    intro h0
    have hnat := payload_toNat (h.stop_lt hb)
    rw [← hpb, h0] at hnat
    simp at hnat
  rw [Memory.kfree, if_neg hne]
  refine ⟨tiles_mergeBlocks (h.tiles.map (fun _ _ => markFree_start) fun _ _ => markFree_stop)
    hi.isLt, isChain_mergeBlocks _, ?_, ?_⟩
  · intro c hc hused
    obtain ⟨d, hd, hdc⟩ := mem_map.mp (mem_of_mem_mergeBlocks hc hused)
    by_cases hpay : d.payload = e.1
    · have haddr : d.addr = e.1 - headerSize := by
        rw [← hpay, Block.payload]
        bv_omega
      rw [markFree, if_pos haddr] at hdc
      rw [← hdc] at hused
      cases hused
    · rw [markFree_eq_self hpay] at hdc
      subst hdc
      obtain ⟨f, hf, hfd⟩ := h.owners d hd hused
      refine ⟨f, mem_filter.mpr ⟨hf, ?_⟩, hfd⟩
      simpa [hfd] using hpay
  · intro f hf
    obtain ⟨hf, hfe⟩ := mem_filter.mp hf
    obtain ⟨c, hc, hused, hfc⟩ := h.live f hf
    have hpay : c.payload ≠ e.1 := by simpa [hfc] using hfe
    exact ⟨c, mem_mergeBlocks (mem_map.mpr ⟨c, hc, markFree_eq_self hpay⟩) hused, hused, hfc⟩

lemma step (h : RegionInv lo hi s) {call : HeapCall} (hstep : s.step call = some s') :
    RegionInv lo hi s' := by
  cases call with
  | kmalloc size =>
    rw [HeapState.step] at hstep
    split_ifs at hstep with hmax
    cases hk : Memory.kmalloc s.blocks size with
    | none =>
      rw [hk] at hstep
      cases hstep
      exact h
    | some res =>
      rw [hk] at hstep
      cases hstep
      exact h.kmalloc (BitVec.not_lt.mp hmax) hk
  | kfree ptr =>
    rw [HeapState.step] at hstep
    split_ifs at hstep with hptr
    cases hstep
    exact h.kfree hptr

end RegionInv

/-! ## What the invariant gives -/

lemma sum_of_tiles {l : List Block} {a c : ℕ} (h : Tiles Block.start Block.stop a c l) :
    (l.map fun b => b.size.toNat + headerSize.toNat).sum = c - a := by
  induction l generalizing a with
  | nil => simp [tiles_nil.mp h]
  | cons b l ih =>
    obtain ⟨hstart, hlt, hrest⟩ := h
    have hle := hrest.le
    rw [map_cons, sum_cons, ih hrest]
    simp only [Block.start, Block.stop, headerSize_toNat] at hstart hlt hle ⊢
    omega

lemma eq_regionBlock_of_free {lo hi : U32} {l : List Block}
    (h : Tiles Block.start Block.stop lo.toNat hi.toNat l) (hlt : lo.toNat < hi.toNat)
    (hchain : l.IsChain Separate) (hfree : ∀ b ∈ l, b.free = true) : l = [regionBlock lo hi] := by
  cases l with
  | nil => exact absurd (tiles_nil.mp h) hlt.ne
  | cons b l =>
    cases l with
    | nil =>
      obtain ⟨hstart, -, hstop⟩ := h
      rw [tiles_nil] at hstop
      simp only [Block.start, Block.stop, headerSize_toNat] at hstart hstop
      have haddr : b.addr = lo := BitVec.eq_of_toNat_eq hstart
      have hsize : b.size = hi - lo - headerSize := by
        rw [headerSize]
        bv_omega
      have hb := hfree b (by simp)
      obtain ⟨addr, size, free⟩ := b
      simp only at haddr hsize hb
      rw [regionBlock, haddr, hsize, hb]
    | cons c l =>
      rw [isChain_cons_cons] at hchain
      exact absurd ⟨hfree b (by simp), hfree c (by simp)⟩ hchain.1

lemma RegionInv.conserved {lo hi : U32} {s : HeapState} (h : RegionInv lo hi s)
    (hlt : lo.toNat < hi.toNat) : Conserved lo hi s where
  tiles := h.tiles
  total := sum_of_tiles h.tiles
  coalesced := h.coalesced
  refused := by
    intro size hnone
    rw [Memory.kmalloc] at hnone
    split_ifs at hnone with hzero
    · exact .inl hzero
    · exact .inr (firstFit_none hnone)
  released := by
    intro hlive
    refine eq_regionBlock_of_free h.tiles hlt h.coalesced fun b hb => ?_
    by_contra hused
    obtain ⟨e, he, -⟩ := h.owners b hb (by simpa using hused)
    rw [hlive] at he
    cases he

lemma regionInv_start {mbi : Multiboot} {kernelEnd : U32} {heap : Heap} {b : Block}
    (hinit : memoryInit mbi kernelEnd = some heap) (hone : heap.blocks = [b]) :
    RegionInv heap.heapStartAddr heap.heapEndAddr (.start heap) ∧
      heap.heapStartAddr.toNat < heap.heapEndAddr.toNat := by
  -- both regions are cut out in the same way
  have hregion : ∀ {lo hi total : U32}, lo + headerSize < hi → lo.toNat ≤ 2 ^ 32 - 16 →
      RegionInv lo hi (.start ⟨[regionBlock lo hi], lo, hi, total⟩) ∧ lo.toNat < hi.toNat := by
    intro lo hi total hlt hlo
    rcases fills_regionBlock hlt hlo with hnil | htiles
    · cases hnil
    · refine ⟨⟨htiles, .singleton _, ?_, by simp [HeapState.start]⟩, ?_⟩
      · intro c hc hused
        obtain rfl : c = _ := by simpa [HeapState.start] using hc
        cases hused
      · exact htiles.2.1.trans_le htiles.2.2.le
  have h1 : (heapRegions mbi kernelEnd).heap1Start.toNat ≤ 2 ^ 32 - 16 := alignUp_sixteen_le _
  have h2 : (heapRegions mbi kernelEnd).heap2Start.toNat ≤ 2 ^ 32 - 16 := alignUp_sixteen_le _
  simp only [memoryInit] at hinit
  split_ifs at hinit with hzero hheap1 hheap2 hheap2 <;> cases hinit
  · simp at hone
  · exact hregion hheap1 h1
  · exact hregion hheap2 h2

/-- **Conservation.**  After every sequence of calls the blocks tile the region, no two neighbours
are free, a request is refused only if it is for no bytes or no free block has the rounded size, and
without pointers in use the heap is the block it was at the start. -/
theorem heap_conserved (mbi : Multiboot) (kernelEnd : U32) (heap : Heap) (b : Block)
    (calls : List HeapCall) (s : HeapState) (hinit : memoryInit mbi kernelEnd = some heap)
    (hone : heap.blocks = [b]) (hrun : run HeapState.step (.start heap) calls = some s) :
    b = regionBlock heap.heapStartAddr heap.heapEndAddr ∧
      Conserved heap.heapStartAddr heap.heapEndAddr s := by
  obtain ⟨hstart, hlt⟩ := regionInv_start hinit hone
  constructor
  · have hblocks := (hstart.conserved hlt).released rfl
    rw [HeapState.start, hone] at hblocks
    exact singleton_injective hblocks
  · exact (run_invariant (fun h hs => h.step hs) hstart hrun).conserved hlt

/-! ## A machine without modules -/

/-- 32 MiB of memory and no modules. -/
def plainBoot : Multiboot where
  mem := some (640, 0x7C00)
  mods := none
  mmap := none

/-- The heap without modules. -/
def plainHeap : Heap where
  blocks := [⟨0x200000, 0x1DEFFF4, true⟩]
  heapStartAddr := 0x200000
  heapEndAddr := 0x1FF0000
  detectedMemoryBytes := 0x2000000

lemma memoryInit_plainBoot : memoryInit plainBoot 0x200000 = some plainHeap := by decide

/-- Two requests, given back in the order they were made. -/
theorem heap_conserved_plainBoot :
    Conserved 0x200000 0x1FF0000 ⟨[⟨0x200000, 0x1DEFFF4, true⟩], []⟩ :=
  (heap_conserved plainBoot 0x200000 plainHeap _
    [.kmalloc 100, .kmalloc 20, .kfree 0x20000C, .kfree 0x200080] _ memoryInit_plainBoot rfl
    (by decide)).2

/-- A request for no bytes is refused although there is a free block. -/
theorem kmalloc_zero_refused :
    memoryInit plainBoot 0x200000 = some plainHeap ∧
      run HeapState.step (.start plainHeap) [.kmalloc 0] = some (.start plainHeap) ∧
      kmalloc plainHeap.blocks 0 = none ∧
      ¬ ∀ b ∈ plainHeap.blocks, b.free = true → b.size < alignUp 0 8 := by
  refine ⟨memoryInit_plainBoot, by decide, by decide, fun h => ?_⟩
  exact absurd (h ⟨0x200000, 0x1DEFFF4, true⟩ (by simp [plainHeap]) rfl) (by decide)

end OpenHobbyOS.Memory
