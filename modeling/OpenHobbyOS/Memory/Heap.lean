/-
# The kernel heap

`src/memory.c`: `memory_init` places the heap in two regions, before and after the boot modules.
The list of blocks links the last block of the first region to the first of the second, and
`merge_blocks` joins free blocks that follow each other in the list: across the regions the joined
block covers the modules.
-/
import OpenHobbyOS.Lib.Run
import OpenHobbyOS.Lib.Tiling
import OpenHobbyOS.Paging.Entry

namespace OpenHobbyOS.Memory

open Paging Lib List

/-! ## What the boot loader reports -/

/-- An entry of the memory map. -/
structure MmapEntry where
  addrLow : U32
  addrHigh : U32
  lenLow : U32
  lenHigh : U32
  type : U32

/-- A boot module. -/
structure BootModule where
  modStart : U32
  modEnd : U32
  deriving DecidableEq

/-- The fields of `multiboot_info_t` that describe memory, each present if its flag is
set. -/
structure Multiboot where
  /-- `mem_lower` and `mem_upper`, in KiB. -/
  mem : Option (U32 × U32)
  mods : Option (List BootModule)
  mmap : Option (List MmapEntry)

namespace Multiboot

variable (mbi : Multiboot)

/-- The boot modules. -/
def bootModules : List BootModule := mbi.mods.getD []

/-- The end of the highest usable entry of the memory map. -/
def mmapHighest : U32 :=
  (mbi.mmap.getD []).foldl (fun highest e =>
    if e.type = 1 ∧ e.addrHigh = 0 ∧ e.lenHigh = 0 then
      if highest < e.addrLow + e.lenLow then e.addrLow + e.lenLow else highest
    else highest) 0

/-- The detected end of memory. -/
def highestAddr : U32 :=
  match mbi.mem with
  | some (_, upper) => 0x100000 + upper * 1024
  | none => mbi.mmapHighest

/-- `mods_start`, where `0` stands for "none yet". -/
def modsStart : U32 :=
  mbi.bootModules.foldl (fun start m =>
    if m.modStart < start ∨ start = 0 then m.modStart else start) 0

/-- `mods_end`. -/
def modsEnd (kernelEnd : U32) : U32 :=
  mbi.bootModules.foldl (fun stop m => if stop < m.modEnd then m.modEnd else stop) kernelEnd

end Multiboot

/-- `align_up`. -/
def alignUp (value alignment : U32) : U32 := (value + alignment - 1) &&& ~~~(alignment - 1)

/-! ## The heap -/

/-- `sizeof(block_header_t)`. -/
def headerSize : U32 := 12

/-- A block: its header lies at `addr`, its payload of `size` bytes behind it. -/
structure Block where
  addr : U32
  size : U32
  free : Bool
  deriving DecidableEq

namespace Block

/-- The pointer `block + 1` that `kmalloc` returns. -/
def payload (b : Block) : U32 := b.addr + headerSize

/-- The first byte behind the block. -/
def stop (b : Block) : ℕ := b.addr.toNat + headerSize.toNat + b.size.toNat

/-- The address as a number. -/
def start (b : Block) : ℕ := b.addr.toNat

end Block

/-- The bounds of the two heap regions. -/
structure HeapRegions where
  heap1Start : U32
  heap1End : U32
  heap2Start : U32
  heap2End : U32

/-- The regions `memory_init` computes. -/
def heapRegions (mbi : Multiboot) (kernelEnd : U32) : HeapRegions :=
  let heap1Start := alignUp kernelEnd 16
  { heap1Start
    heap1End := if heap1Start < mbi.modsStart then mbi.modsStart else heap1Start
    heap2Start := alignUp (mbi.modsEnd kernelEnd) 16
    heap2End := if userBase - 0x10000 < mbi.highestAddr then userBase - 0x10000
      else mbi.highestAddr }

/-- What `memory_init` leaves behind; `blocks` is the list at `heap_head`. -/
structure Heap where
  blocks : List Block
  heapStartAddr : U32
  heapEndAddr : U32
  detectedMemoryBytes : U32
  deriving DecidableEq

/-- The block that fills a region. -/
def regionBlock (lo hi : U32) : Block := ⟨lo, hi - lo - headerSize, true⟩

/-- `none` where the kernel panics. -/
def memoryInit (mbi : Multiboot) (kernelEnd : U32) : Option Heap :=
  let r := heapRegions mbi kernelEnd
  if mbi.highestAddr = 0 then none
  else if r.heap1Start + headerSize < r.heap1End then
    if r.heap2Start + headerSize < r.heap2End then
      some ⟨[regionBlock r.heap1Start r.heap1End, regionBlock r.heap2Start r.heap2End],
        r.heap1Start, r.heap2End, mbi.highestAddr⟩
    else some ⟨[regionBlock r.heap1Start r.heap1End], r.heap1Start, r.heap1End, mbi.highestAddr⟩
  else if r.heap2Start + headerSize < r.heap2End then
    some ⟨[regionBlock r.heap2Start r.heap2End], r.heap2Start, r.heap2End, mbi.highestAddr⟩
  else none

/-- The loop of `merge_blocks` at `b`: a block that has swallowed its successor is compared
again. -/
def mergeFrom : Block → List Block → List Block
  | b, [] => [b]
  | b, c :: l =>
    if b.free ∧ c.free then mergeFrom { b with size := b.size + (headerSize + c.size) } l
    else b :: mergeFrom c l

/-- `merge_blocks`. -/
def mergeBlocks : List Block → List Block
  | [] => []
  | b :: l => mergeFrom b l

/-- The block of a request, cut if enough is left over. -/
def takeBlock (needed : U32) (b : Block) : List Block :=
  if needed + headerSize + 8 < b.size then
    [{ b with size := needed, free := false },
      ⟨b.payload + needed, b.size - needed - headerSize, true⟩]
  else [{ b with free := false }]

/-- First fit. -/
def firstFit (needed : U32) : List Block → Option (List Block × U32)
  | [] => none
  | b :: l =>
    if b.free ∧ needed ≤ b.size then some (takeBlock needed b ++ l, b.payload)
    else (firstFit needed l).map fun r => (b :: r.1, r.2)

/-- `none` is the null pointer. -/
def kmalloc (blocks : List Block) (size : U32) : Option (List Block × U32) :=
  if size = 0 then none else firstFit (alignUp size 8) blocks

/-- `block->free = true` for the block a pointer belongs to. -/
def markFree (ptr : U32) (b : Block) : Block :=
  if b.addr = ptr - headerSize then { b with free := true } else b

/-- `kfree`. -/
def kfree (blocks : List Block) (ptr : U32) : List Block :=
  if ptr = 0 then blocks else mergeBlocks (blocks.map (markFree ptr))

/-! ## Calls of the heap's users -/

/-- A call on the heap. -/
inductive HeapCall where
  | kmalloc (size : U32)
  | kfree (ptr : U32)

/-- The heap's blocks with the pointers that are in use and the sizes they were asked
for. -/
structure HeapState where
  blocks : List Block
  live : List (U32 × U32)
  deriving DecidableEq

namespace HeapState

/-- The heap with no pointer in use. -/
def start (h : Heap) : HeapState := ⟨h.blocks, []⟩

/-- The largest request considered, `2^31`. -/
def maxRequest : U32 := 0x80000000

/-- Only requests up to `maxRequest` and pointers in use are considered. -/
def step (s : HeapState) : HeapCall → Option HeapState
  | .kmalloc size =>
    if maxRequest < size then none
    else
      match Memory.kmalloc s.blocks size with
      | some (blocks, p) => some ⟨blocks, (p, size) :: s.live⟩
      | none => some s
  | .kfree ptr =>
    if ptr ∈ s.live.map Prod.fst then
      some ⟨Memory.kfree s.blocks ptr, s.live.filter fun e => e.1 ≠ ptr⟩
    else none

end HeapState

/-- The payloads in use lie in the regions and touch no module, no header and no other payload. -/
structure HeapSafe (mbi : Multiboot) (kernelEnd : U32) (s : HeapState) : Prop where
  region : ∀ e ∈ s.live,
    ((heapRegions mbi kernelEnd).heap1Start.toNat ≤ e.1.toNat ∧
      e.1.toNat + e.2.toNat ≤ (heapRegions mbi kernelEnd).heap1End.toNat) ∨
    ((heapRegions mbi kernelEnd).heap2Start.toNat ≤ e.1.toNat ∧
      e.1.toNat + e.2.toNat ≤ (heapRegions mbi kernelEnd).heap2End.toNat)
  modules : ∀ e ∈ s.live, ∀ m ∈ mbi.bootModules,
    Apart e.1.toNat e.2.toNat m.modStart.toNat (m.modEnd.toNat - m.modStart.toNat)
  headers : ∀ e ∈ s.live, ∀ b ∈ s.blocks,
    Apart e.1.toNat e.2.toNat b.addr.toNat headerSize.toNat
  payloads : s.live.Pairwise fun e e' => Apart e.1.toNat e.2.toNat e'.1.toNat e'.2.toNat

/-! ## Alignment -/

@[simp] lemma headerSize_toNat : headerSize.toNat = 12 := rfl

lemma mask_eight : ∀ i < 32, (~~~(8 - 1) : U32).getLsbD i = decide (3 ≤ i) := by decide

lemma mask_sixteen : ∀ i < 32, (~~~(16 - 1) : U32).getLsbD i = decide (4 ≤ i) := by decide

lemma alignUp_eight {size : U32} (h : size ≤ HeapState.maxRequest) :
    size.toNat ≤ (alignUp size 8).toNat ∧ (alignUp size 8).toNat ≤ size.toNat + 7 := by
  have hle : size.toNat ≤ 2147483648 := h
  rw [alignUp, and_mask_toNat _ mask_eight]
  have hadd : (size + 8 - 1).toNat = size.toNat + 7 := by bv_omega
  omega

lemma alignUp_sixteen_le (v : U32) : (alignUp v 16).toNat ≤ 2 ^ 32 - 16 := by
  have := (v + 16 - 1).isLt
  rw [alignUp, and_mask_toNat _ mask_sixteen]
  omega

lemma le_alignUp_sixteen {v w : U32} (hv : v.toNat ≤ w.toNat) (hw : w.toNat ≤ 2 ^ 32 - 16) :
    v.toNat ≤ (alignUp v 16).toNat ∧ (alignUp v 16).toNat ≤ (alignUp w 16).toNat := by
  have hvadd : (v + 16 - 1).toNat = v.toNat + 15 := by bv_omega
  have hwadd : (w + 16 - 1).toNat = w.toNat + 15 := by bv_omega
  rw [alignUp, alignUp, and_mask_toNat _ mask_sixteen, and_mask_toNat _ mask_sixteen]
  omega

/-! ## The module range -/

/-- The modules are proper intervals, not at the null address, and leave room for rounding up. -/
structure Regular (mbi : Multiboot) (kernelEnd : U32) : Prop where
  modules : ∀ m ∈ mbi.bootModules, m.modStart ≠ 0 ∧ m.modStart ≤ m.modEnd
  modsEnd : mbi.modsEnd kernelEnd ≤ 0xFFFFFFF0

section Regions

variable {mbi : Multiboot} {kernelEnd : U32}

lemma modsEnd_fold (ms : List BootModule) (stop : U32) :
    stop ≤ ms.foldl (fun stop m => if stop < m.modEnd then m.modEnd else stop) stop ∧
      ∀ m ∈ ms, m.modEnd ≤
        ms.foldl (fun stop m => if stop < m.modEnd then m.modEnd else stop) stop := by
  induction ms generalizing stop with
  | nil => simp
  | cons m ms ih =>
    rw [foldl_cons]
    obtain ⟨hstop, hms⟩ := ih (if stop < m.modEnd then m.modEnd else stop)
    have hboth : stop ≤ (if stop < m.modEnd then m.modEnd else stop) ∧
        m.modEnd ≤ (if stop < m.modEnd then m.modEnd else stop) := by
      split_ifs with h <;> constructor <;> bv_omega
    refine ⟨BitVec.le_trans hboth.1 hstop, fun m' hm' => ?_⟩
    rcases mem_cons.mp hm' with rfl | hm'
    · exact BitVec.le_trans hboth.2 hstop
    · exact hms m' hm'

/-- The fold of `mods_start` stays below the modules and the start it had, and is one of them. -/
lemma modsStart_fold {ms : List BootModule} (hms : ∀ m ∈ ms, m.modStart ≠ 0) (start : U32) :
    let r := ms.foldl (fun start m =>
      if m.modStart < start ∨ start = 0 then m.modStart else start) start
    (start ≠ 0 → r ≤ start) ∧ (∀ m ∈ ms, r ≤ m.modStart) ∧
      (r = start ∨ ∃ m ∈ ms, r = m.modStart) := by
  induction ms generalizing start with
  | nil => simp
  | cons m ms ih =>
    have hm : m.modStart ≠ 0 := hms m (by simp)
    obtain ⟨hle, hall, hone⟩ := ih (fun m' hm' => hms m' (by simp [hm']))
      (if m.modStart < start ∨ start = 0 then m.modStart else start)
    simp only [foldl_cons] at hle hall hone ⊢
    by_cases hlt : m.modStart < start ∨ start = 0
    · rw [if_pos hlt] at hle hall hone ⊢
      refine ⟨fun hne => BitVec.le_trans (hle hm) ?_, ?_, ?_⟩
      · rcases hlt with hlt | hz
        · exact BitVec.le_of_lt hlt
        · exact absurd hz hne
      · rintro m' hm'
        rcases mem_cons.mp hm' with rfl | hm'
        · exact hle hm
        · exact hall m' hm'
      · rcases hone with heq | ⟨m', hm', heq⟩
        · exact .inr ⟨m, by simp, heq⟩
        · exact .inr ⟨m', by simp [hm'], heq⟩
    · rw [if_neg hlt] at hle hall hone ⊢
      rw [not_or] at hlt
      refine ⟨hle, ?_, ?_⟩
      · rintro m' hm'
        rcases mem_cons.mp hm' with rfl | hm'
        · exact BitVec.le_trans (hle hlt.2) (BitVec.not_lt.mp hlt.1)
        · exact hall m' hm'
      · rcases hone with heq | ⟨m', hm', heq⟩
        · exact .inl heq
        · exact .inr ⟨m', by simp [hm'], heq⟩

lemma Regular.modsEnd_le (h : Regular mbi kernelEnd) :
    (mbi.modsEnd kernelEnd).toNat ≤ 2 ^ 32 - 16 := by
  have := h.modsEnd
  bv_omega

lemma Regular.heap1End_le (h : Regular mbi kernelEnd) :
    (heapRegions mbi kernelEnd).heap1End.toNat ≤ (heapRegions mbi kernelEnd).heap2Start.toNat := by
  have hk : kernelEnd.toNat ≤ (mbi.modsEnd kernelEnd).toNat :=
    (modsEnd_fold mbi.bootModules kernelEnd).1
  have hround := le_alignUp_sixteen hk h.modsEnd_le
  have hend := (le_alignUp_sixteen le_rfl h.modsEnd_le).1
  simp only [heapRegions]
  split_ifs with hlt
  · obtain ⟨-, -, hzero | ⟨m, hm, hstart⟩⟩ :=
      modsStart_fold (fun m hm => (h.modules m hm).1) 0
    · rw [Multiboot.modsStart, hzero] at hlt
      bv_omega
    · have hmod : m.modStart.toNat ≤ m.modEnd.toNat := (h.modules m hm).2
      have hmodEnd : m.modEnd.toNat ≤ (mbi.modsEnd kernelEnd).toNat :=
        (modsEnd_fold mbi.bootModules kernelEnd).2 m hm
      rw [Multiboot.modsStart, hstart]
      omega
  · exact hround.2

/-- A module starts behind the first region, unless that is empty, and ends before the
second. -/
lemma Regular.module_between (h : Regular mbi kernelEnd) {m : BootModule}
    (hm : m ∈ mbi.bootModules) :
    ((heapRegions mbi kernelEnd).heap1Start < (heapRegions mbi kernelEnd).heap1End →
      (heapRegions mbi kernelEnd).heap1End.toNat ≤ m.modStart.toNat) ∧
    m.modEnd.toNat ≤ (heapRegions mbi kernelEnd).heap2Start.toNat := by
  constructor
  · have hle : mbi.modsStart ≤ m.modStart :=
      (modsStart_fold (fun m hm => (h.modules m hm).1) 0).2.1 m hm
    simp only [heapRegions]
    intro hlt
    split_ifs at hlt ⊢ with hif
    · exact hle
    · exact absurd hlt (BitVec.lt_irrefl _)
  · have hmod : m.modEnd.toNat ≤ (mbi.modsEnd kernelEnd).toNat :=
      (modsEnd_fold mbi.bootModules kernelEnd).2 m hm
    have hend := (le_alignUp_sixteen le_rfl h.modsEnd_le).1
    simp only [heapRegions]
    omega

end Regions

/-! ## The block list -/

/-- The blocks fill the region, or the region has no block. -/
def Fills (lo hi : U32) (l : List Block) : Prop :=
  l = [] ∨ Tiles Block.start Block.stop lo.toNat hi.toNat l

section Blocks

variable {lo hi needed ptr p : U32} {l l' l₁ l₂ : List Block} {a c : ℕ} {b : Block}

lemma fills_regionBlock (h : lo + headerSize < hi) (hlo : lo.toNat ≤ 2 ^ 32 - 16) :
    Fills lo hi [regionBlock lo hi] := by
  have hlt : lo.toNat + 12 < hi.toNat := by
    rw [headerSize] at h
    bv_omega
  have hsize : (hi - lo - headerSize).toNat = hi.toNat - lo.toNat - 12 := by
    rw [headerSize]
    bv_omega
  refine .inr ⟨rfl, ?_, ?_⟩
  · simp only [regionBlock, Block.stop, hsize, headerSize_toNat]
    omega
  · simp only [regionBlock, Block.stop, hsize, headerSize_toNat, tiles_nil]
    omega

lemma mem_mergeFrom {d : Block} (hb : b ∈ d :: l) (hused : b.free = false) :
    b ∈ mergeFrom d l := by
  induction l generalizing d with
  | nil => exact hb
  | cons e l ih =>
    rw [mergeFrom]
    split_ifs with hfree
    · refine ih ?_
      rcases mem_cons.mp hb with rfl | hb
      · rw [hused] at hfree
        exact absurd hfree.1 (by simp)
      · rcases mem_cons.mp hb with rfl | hb
        · rw [hused] at hfree
          exact absurd hfree.2 (by simp)
        · exact mem_cons_of_mem _ hb
    · rcases mem_cons.mp hb with rfl | hb
      · exact mem_cons_self
      · exact mem_cons_of_mem _ (ih hb)

lemma mem_mergeBlocks (hb : b ∈ l) (hused : b.free = false) : b ∈ mergeBlocks l := by
  cases l with
  | nil => exact hb
  | cons d l => exact mem_mergeFrom hb hused

lemma tiles_mergeFrom {d : Block} (h : Tiles Block.start Block.stop a c (d :: l))
    (hc : c < 2 ^ 32) : Tiles Block.start Block.stop a c (mergeFrom d l) := by
  induction l generalizing a d with
  | nil => exact h
  | cons e l ih =>
    obtain ⟨hd, hlt, hrest⟩ := h
    rw [mergeFrom]
    split_ifs with hfree
    · obtain ⟨he, hlt', hrest⟩ := hrest
      have hle := hrest.le
      have hsize : (d.size + (headerSize + e.size)).toNat =
          d.size.toNat + 12 + e.size.toNat := by
        simp only [Block.stop, Block.start, headerSize_toNat] at hd he hle
        rw [headerSize]
        bv_omega
      have hstop : ({ d with size := d.size + (headerSize + e.size) } : Block).stop = e.stop := by
        simp only [Block.stop, Block.start, headerSize_toNat, hsize] at he ⊢
        omega
      refine ih ?_
      rw [tiles_cons, hstop]
      exact ⟨hd, hlt.trans hlt', hrest⟩
    · exact ⟨hd, hlt, ih hrest⟩

lemma tiles_mergeBlocks (h : Tiles Block.start Block.stop a c l) (hc : c < 2 ^ 32) :
    Tiles Block.start Block.stop a c (mergeBlocks l) := by
  cases l with
  | nil => exact h
  | cons d l => exact tiles_mergeFrom h hc

/-- Where the two neighbours are not both free, the two parts of the list are merged
separately. -/
lemma mergeFrom_append {d : Block}
    (h : ∀ b ∈ (d :: l₁).getLast?, ∀ c ∈ l₂.head?, ¬ (b.free ∧ c.free)) :
    mergeFrom d (l₁ ++ l₂) = mergeFrom d l₁ ++ mergeBlocks l₂ := by
  induction l₁ generalizing d with
  | nil =>
    cases l₂ with
    | nil => rfl
    | cons e l₂ =>
      have hde : ¬ (d.free ∧ e.free) := h d (by simp) e (by simp)
      rw [nil_append, mergeFrom.eq_2, if_neg hde]
      rfl
  | cons e l₁ ih =>
    rw [cons_append, mergeFrom, mergeFrom]
    split_ifs with hfree
    · refine ih fun b hb c hc => ?_
      cases l₁ with
      | nil =>
        obtain rfl : b = _ := by simpa using hb.symm
        exact fun hboth => h e (by simp) c hc ⟨hfree.2, hboth.2⟩
      | cons f l => exact h b (by simpa using hb) c hc
    · rw [ih fun b hb c hc => h b (by simpa using hb) c hc]
      rfl

lemma mergeBlocks_append (h : ∀ b ∈ l₁.getLast?, ∀ c ∈ l₂.head?, ¬ (b.free ∧ c.free)) :
    mergeBlocks (l₁ ++ l₂) = mergeBlocks l₁ ++ mergeBlocks l₂ := by
  cases l₁ with
  | nil => rfl
  | cons d l₁ => exact mergeFrom_append h

lemma Fills.mergeBlocks (h : Fills lo hi l) : Fills lo hi (mergeBlocks l) := by
  rcases h with rfl | h
  · exact .inl (by rw [Memory.mergeBlocks])
  · exact .inr (tiles_mergeBlocks h hi.isLt)

@[simp] lemma markFree_start : (markFree ptr b).start = b.start := by
  rw [markFree]
  split_ifs <;> rfl

@[simp] lemma markFree_stop : (markFree ptr b).stop = b.stop := by
  rw [markFree]
  split_ifs <;> rfl

lemma markFree_eq_self (h : b.payload ≠ ptr) : markFree ptr b = b := by
  rw [markFree, if_neg]
  intro haddr
  apply h
  rw [Block.payload, haddr]
  bv_omega

lemma Fills.markFree (h : Fills lo hi l) (ptr : U32) : Fills lo hi (l.map (markFree ptr)) := by
  rcases h with rfl | h
  · exact .inl rfl
  · exact .inr (h.map (fun _ _ => markFree_start) (fun _ _ => markFree_stop))

lemma firstFit_some {r : List Block × U32} (h : firstFit needed l = some r) :
    ∃ l₁ b l₂, l = l₁ ++ b :: l₂ ∧ b.free = true ∧ needed ≤ b.size ∧
      r = (l₁ ++ (takeBlock needed b ++ l₂), b.payload) := by
  induction l generalizing r with
  | nil => simp [firstFit] at h
  | cons b l ih =>
    rw [firstFit] at h
    split_ifs at h with hfit
    · cases h
      exact ⟨[], b, l, rfl, hfit.1, hfit.2, rfl⟩
    · obtain ⟨r', hr', rfl⟩ := Option.map_eq_some_iff.mp h
      obtain ⟨l₁, d, l₂, rfl, hfree, hsize, rfl⟩ := ih hr'
      exact ⟨b :: l₁, d, l₂, rfl, hfree, hsize, rfl⟩

lemma tiles_takeBlock (hneed : needed ≤ b.size) (hroom : needed.toNat + 20 < 2 ^ 32)
    (hstop : b.stop < 2 ^ 32) :
    Tiles Block.start Block.stop b.start b.stop (takeBlock needed b) := by
  simp only [Block.stop, headerSize_toNat] at hstop
  rw [takeBlock]
  split_ifs with hcut
  · rw [headerSize] at hcut
    have hsize : (b.size - needed - headerSize).toNat = b.size.toNat - needed.toNat - 12 := by
      rw [headerSize]
      bv_omega
    have haddr : (b.payload + needed).toNat = b.addr.toNat + 12 + needed.toNat := by
      rw [Block.payload, headerSize]
      bv_omega
    simp only [tiles_cons, tiles_nil, Block.start, Block.stop, hsize, haddr, headerSize_toNat,
      true_and]
    have : needed.toNat + 20 < b.size.toNat := by bv_omega
    omega
  · refine ⟨rfl, ?_, rfl⟩
    simp only [Block.start, Block.stop, headerSize_toNat]
    omega

end Blocks

/-! ## The invariant -/

/-- The blocks fill the two regions, and each pointer in use has a block of its own. -/
structure HeapInv (r : HeapRegions) (s : HeapState) : Prop where
  regions : ∃ l₁ l₂, s.blocks = l₁ ++ l₂ ∧ Fills r.heap1Start r.heap1End l₁ ∧
    Fills r.heap2Start r.heap2End l₂
  live : ∀ e ∈ s.live, ∃ b ∈ s.blocks, b.free = false ∧ e.1 = b.payload ∧
    e.2.toNat ≤ b.size.toNat
  distinct : s.live.Pairwise fun e e' => e.1 ≠ e'.1

/-- With the block a `kfree` frees, the first block of the second region is not free next to a free
block. -/
def KeepsRegions (r : HeapRegions) (s : HeapState) : HeapCall → Prop
  | .kmalloc _ => True
  | .kfree ptr => (s.blocks.map (markFree ptr)).IsChain fun b c =>
      b.free = true → c.free = true → c.addr ≠ r.heap2Start

instance (r : HeapRegions) (s : HeapState) (call : HeapCall) :
    Decidable (KeepsRegions r s call) := by
  cases call <;> unfold KeepsRegions <;> infer_instance

section Invariant

variable {r : HeapRegions} {s s' : HeapState} {lo hi : U32} {l : List Block} {b c : Block}

lemma Fills.mem (h : Fills lo hi l) (hb : b ∈ l) :
    lo.toNat ≤ b.start ∧ b.stop ≤ hi.toNat := by
  rcases h with rfl | h
  · simp at hb
  · exact ⟨(h.mem hb).1, (h.mem hb).2.2⟩

lemma Fills.pairwise (h : Fills lo hi l) : l.Pairwise fun b c => b.stop ≤ c.start := by
  rcases h with rfl | h
  · exact .nil
  · exact h.pairwise

lemma Fills.head (h : Fills lo hi l) (hb : b ∈ l.head?) : b.addr = lo := by
  rcases h with rfl | h
  · simp at hb
  · cases l with
    | nil => simp at hb
    | cons d l =>
      obtain rfl : d = b := by simpa using hb
      exact BitVec.eq_of_toNat_eq h.1

lemma payload_toNat (hb : b.stop < 2 ^ 32) : b.payload.toNat = b.addr.toNat + 12 := by
  simp only [Block.stop, headerSize_toNat] at hb
  rw [Block.payload, headerSize]
  bv_omega

lemma payload_inj (h : b.payload = c.payload) : b.addr = c.addr := by
  simp only [Block.payload, headerSize] at h
  bv_omega

namespace HeapInv

lemma stop_lt (h : HeapInv r s) (hb : b ∈ s.blocks) : b.stop < 2 ^ 32 := by
  obtain ⟨l₁, l₂, heq, h₁, h₂⟩ := h.regions
  rw [heq] at hb
  rcases mem_append.mp hb with hb | hb
  · exact (h₁.mem hb).2.trans_lt (BitVec.isLt _)
  · exact (h₂.mem hb).2.trans_lt (BitVec.isLt _)

lemma sorted (h : HeapInv r s) (hr : r.heap1End.toNat ≤ r.heap2Start.toNat) :
    s.blocks.Pairwise fun b c => b.stop ≤ c.start := by
  obtain ⟨l₁, l₂, heq, h₁, h₂⟩ := h.regions
  rw [heq, pairwise_append]
  exact ⟨h₁.pairwise, h₂.pairwise, fun b hb c hc =>
    (h₁.mem hb).2.trans (hr.trans (h₂.mem hc).1)⟩

lemma apart (h : HeapInv r s) (hr : r.heap1End.toNat ≤ r.heap2Start.toNat) (hb : b ∈ s.blocks)
    (hc : c ∈ s.blocks) : b = c ∨ b.stop ≤ c.start ∨ c.stop ≤ b.start :=
  Tiles.apart (h.sorted hr) hb hc

lemma eq_of_addr (h : HeapInv r s) (hr : r.heap1End.toNat ≤ r.heap2Start.toNat)
    (hb : b ∈ s.blocks) (hc : c ∈ s.blocks) (haddr : b.addr = c.addr) : b = c := by
  rcases h.apart hr hb hc with heq | hlt | hlt
  · exact heq
  all_goals
    simp only [Block.stop, Block.start, haddr, headerSize_toNat] at hlt
    omega

lemma kmalloc (h : HeapInv r s) (hr : r.heap1End.toNat ≤ r.heap2Start.toNat) {size p : U32}
    {blocks : List Block} (hsize : size ≤ HeapState.maxRequest)
    (hk : Memory.kmalloc s.blocks size = some (blocks, p)) :
    HeapInv r ⟨blocks, (p, size) :: s.live⟩ := by
  rw [Memory.kmalloc] at hk
  split_ifs at hk with hzero
  obtain ⟨l, b, l', heq, hfree, hneed, hres⟩ := firstFit_some hk
  cases hres
  obtain ⟨hle, hup⟩ := alignUp_eight hsize
  have hmax : size.toNat ≤ 2 ^ 31 := hsize
  have hb : b ∈ s.blocks := by simp [heq]
  have hstop := h.stop_lt hb
  have htake := tiles_takeBlock hneed (by omega) hstop
  -- the block in use after the call stands where `b` stood
  obtain ⟨d, hd, hdused, hdaddr, hdsize⟩ : ∃ d ∈ takeBlock (alignUp size 8) b,
      d.free = false ∧ d.addr = b.addr ∧ (alignUp size 8).toNat ≤ d.size.toNat := by
    rw [takeBlock]
    split_ifs
    · exact ⟨_, mem_cons_self, rfl, rfl, le_rfl⟩
    · exact ⟨_, mem_cons_self, rfl, rfl, hneed⟩
  -- a block in use before is another block
  have hother : ∀ e ∈ s.live, ∃ c ∈ s.blocks, c ≠ b ∧ c.free = false ∧ e.1 = c.payload ∧
      e.2.toNat ≤ c.size.toNat := by
    intro e he
    obtain ⟨c, hc, hcused, hrest⟩ := h.live e he
    refine ⟨c, hc, ?_, hcused, hrest⟩
    rintro rfl
    rw [hcused] at hfree
    cases hfree
  refine ⟨?_, ?_, ?_⟩
  · obtain ⟨l₁, l₂, heq', h₁, h₂⟩ := h.regions
    rw [heq'] at heq
    -- the block lies in one of the two parts
    rcases append_eq_append_iff.mp heq with ⟨m, rfl, hm⟩ | ⟨m, rfl, hm⟩
    · refine ⟨l₁, m ++ (takeBlock (alignUp size 8) b ++ l'), by simp, h₁, ?_⟩
      rcases h₂ with h₂ | h₂
      · rw [h₂] at hm
        simp at hm
      · rw [hm] at h₂
        exact .inr (h₂.replace htake)
    · cases m with
      | nil =>
        refine ⟨l, takeBlock (alignUp size 8) b ++ l', by simp, ?_, ?_⟩
        · simpa using h₁
        · rcases h₂ with h₂ | h₂
          · rw [h₂] at hm
            simp at hm
          · rw [nil_append] at hm
            rw [← hm] at h₂
            exact .inr (h₂.replace (l := []) htake)
      | cons d m =>
        rw [cons_append, List.cons.injEq] at hm
        obtain ⟨rfl, rfl⟩ := hm
        refine ⟨l ++ (takeBlock (alignUp size 8) b ++ m), l₂, by simp, ?_, h₂⟩
        rcases h₁ with h₁ | h₁
        · simp at h₁
        · exact .inr (h₁.replace htake)
  · intro e he
    rcases mem_cons.mp he with rfl | he
    · exact ⟨d, mem_append_right _ (mem_append_left _ hd), hdused,
        by rw [Block.payload, Block.payload, hdaddr], hle.trans hdsize⟩
    · obtain ⟨c, hc, hne, hrest⟩ := hother e he
      refine ⟨c, ?_, hrest⟩
      rw [heq] at hc
      simp only [mem_append, mem_cons] at hc ⊢
      tauto
  · refine List.Pairwise.cons (fun e he hp => ?_) h.distinct
    obtain ⟨c, hc, hne, -, hpc, -⟩ := hother e he
    exact hne (h.eq_of_addr hr hc hb (payload_inj (hpc.symm.trans hp.symm)))

lemma kfree (h : HeapInv r s) {ptr : U32} (hptr : ptr ∈ s.live.map Prod.fst)
    (hkeep : KeepsRegions r s (.kfree ptr)) :
    HeapInv r ⟨Memory.kfree s.blocks ptr, s.live.filter fun e => e.1 ≠ ptr⟩ := by
  obtain ⟨e, he, rfl⟩ := mem_map.mp hptr
  obtain ⟨b, hb, -, hpb, -⟩ := h.live e he
  have hne : e.1 ≠ 0 := by
    intro h0
    have hnat := payload_toNat (h.stop_lt hb)
    rw [← hpb, h0] at hnat
    simp at hnat
  rw [Memory.kfree, if_neg hne]
  refine ⟨?_, ?_, h.distinct.filter _⟩
  · obtain ⟨l₁, l₂, heq, h₁, h₂⟩ := h.regions
    rw [KeepsRegions, heq, map_append, isChain_append] at hkeep
    refine ⟨_, _, ?_, (h₁.markFree e.1).mergeBlocks, (h₂.markFree e.1).mergeBlocks⟩
    rw [heq, map_append, mergeBlocks_append]
    rintro c hc d hd ⟨hcfree, hdfree⟩
    exact hkeep.2.2 c hc d hd hcfree hdfree ((h₂.markFree e.1).head hd)
  · intro e' he'
    obtain ⟨he', hptr'⟩ := mem_filter.mp he'
    obtain ⟨c, hc, hcused, hpc, hsize⟩ := h.live e' he'
    have hpay : c.payload ≠ e.1 := by simpa [hpc] using hptr'
    exact ⟨c, mem_mergeBlocks (mem_map.mpr ⟨c, hc, markFree_eq_self hpay⟩) hcused, hcused, hpc,
      hsize⟩

lemma step (h : HeapInv r s) (hr : r.heap1End.toNat ≤ r.heap2Start.toNat) {call : HeapCall}
    (hkeep : KeepsRegions r s call) (hstep : s.step call = some s') : HeapInv r s' := by
  cases call with
  | kmalloc size =>
    rw [HeapState.step] at hstep
    split_ifs at hstep with hmax
    cases hk : Memory.kmalloc s.blocks size with
    | none =>
      rw [hk] at hstep
      cases hstep
      exact h
    | some res =>
      rw [hk] at hstep
      cases hstep
      exact h.kmalloc hr (BitVec.not_lt.mp hmax) hk
  | kfree ptr =>
    rw [HeapState.step] at hstep
    split_ifs at hstep with hptr
    cases hstep
    exact h.kfree hptr hkeep

end HeapInv

lemma heapInv_start {mbi : Multiboot} {kernelEnd : U32} {heap : Heap}
    (hinit : memoryInit mbi kernelEnd = some heap) :
    HeapInv (heapRegions mbi kernelEnd) (.start heap) := by
  have h1 : (heapRegions mbi kernelEnd).heap1Start.toNat ≤ 2 ^ 32 - 16 := alignUp_sixteen_le _
  have h2 : (heapRegions mbi kernelEnd).heap2Start.toNat ≤ 2 ^ 32 - 16 := alignUp_sixteen_le _
  refine ⟨?_, by simp [HeapState.start], by simp [HeapState.start]⟩
  simp only [memoryInit] at hinit
  split_ifs at hinit with hzero hheap1 hheap2 hheap2 <;> cases hinit
  · exact ⟨_, _, rfl, fills_regionBlock hheap1 h1, fills_regionBlock hheap2 h2⟩
  · exact ⟨_, [], rfl, fills_regionBlock hheap1 h1, .inl rfl⟩
  · exact ⟨[], _, rfl, .inl rfl, fills_regionBlock hheap2 h2⟩

lemma HeapInv.safe {mbi : Multiboot} {kernelEnd : U32} (hreg : Regular mbi kernelEnd)
    (h : HeapInv (heapRegions mbi kernelEnd) s) : HeapSafe mbi kernelEnd s := by
  have hr := hreg.heap1End_le
  -- where a payload in use lies
  have hplace : ∀ e ∈ s.live, ∃ b ∈ s.blocks, e.1 = b.payload ∧
      e.1.toNat = b.start + 12 ∧ e.1.toNat + e.2.toNat ≤ b.stop := by
    intro e he
    obtain ⟨b, hb, -, hp, hsize⟩ := h.live e he
    have hpay := payload_toNat (h.stop_lt hb)
    refine ⟨b, hb, hp, by rw [hp, hpay, Block.start], ?_⟩
    rw [hp, hpay, Block.stop, headerSize_toNat]
    omega
  have hregion : ∀ e ∈ s.live,
      ((heapRegions mbi kernelEnd).heap1Start.toNat ≤ e.1.toNat ∧
        e.1.toNat + e.2.toNat ≤ (heapRegions mbi kernelEnd).heap1End.toNat) ∨
      ((heapRegions mbi kernelEnd).heap2Start.toNat ≤ e.1.toNat ∧
        e.1.toNat + e.2.toNat ≤ (heapRegions mbi kernelEnd).heap2End.toNat) := by
    intro e he
    obtain ⟨b, hb, -, hstart, hstop⟩ := hplace e he
    obtain ⟨l₁, l₂, heq, h₁, h₂⟩ := h.regions
    rw [heq] at hb
    rcases mem_append.mp hb with hb | hb
    · obtain ⟨hlo, hhi⟩ := h₁.mem hb
      exact .inl (by omega)
    · obtain ⟨hlo, hhi⟩ := h₂.mem hb
      exact .inr (by omega)
  refine ⟨hregion, ?_, ?_, ?_⟩
  · intro e he m hm
    obtain ⟨hbefore, hafter⟩ := hreg.module_between hm
    rw [Apart]
    rcases hregion e he with ⟨hlo, hhi⟩ | ⟨hlo, hhi⟩
    · by_cases hempty : e.2.toNat = 0
      · exact .inr (.inr (.inl hempty))
      · have hlt : (heapRegions mbi kernelEnd).heap1Start <
            (heapRegions mbi kernelEnd).heap1End := by bv_omega
        have := hbefore hlt
        omega
    · omega
  · intro e he c hc
    obtain ⟨b, hb, -, hstart, hstop⟩ := hplace e he
    rw [Apart, headerSize_toNat]
    have hcs : c.start = c.addr.toNat := rfl
    have hcstop : c.start + 12 ≤ c.stop := by simp [Block.start, Block.stop]
    rcases h.apart hr hb hc with rfl | hlt | hlt <;> omega
  · refine h.distinct.imp_of_mem fun {e e'} he he' hne => ?_
    obtain ⟨b, hb, hp, hstart, hstop⟩ := hplace e he
    obtain ⟨c, hc, hp', hstart', hstop'⟩ := hplace e' he'
    rw [Apart]
    rcases h.apart hr hb hc with rfl | hlt | hlt
    · exact absurd (hp.trans hp'.symm) hne
    · omega
    · omega

end Invariant

/-- **The heap is safe while its regions stay apart**: every sequence of calls in which no `kfree`
leaves free blocks on both sides of the module gap keeps all payloads inside the regions and apart
from modules, headers and each other. -/
theorem heap_safe_of_regions_apart (mbi : Multiboot) (kernelEnd : U32) (heap : Heap)
    (calls : List HeapCall) (s : HeapState) (hinit : memoryInit mbi kernelEnd = some heap)
    (hreg : Regular mbi kernelEnd)
    (hkeep : StepsMeet HeapState.step (KeepsRegions (heapRegions mbi kernelEnd)) (.start heap) calls)
    (hrun : run HeapState.step (.start heap) calls = some s) : HeapSafe mbi kernelEnd s :=
  (run_invariant_of_meet (fun h hk hs => HeapInv.step h hreg.heap1End_le hk hs)
    (heapInv_start hinit) hkeep hrun).safe hreg

/-! ## A machine with one module -/

/-- 32 MiB of memory and an initrd from 4 to 6 MiB. -/
def initrdBoot : Multiboot where
  mem := some (640, 0x7C00)
  mods := some [⟨0x400000, 0x600000⟩]
  mmap := none

/-- Its heap. -/
def initrdHeap : Heap where
  blocks := [⟨0x200000, 0x1FFFF4, true⟩, ⟨0x600000, 0x19EFFF4, true⟩]
  heapStartAddr := 0x200000
  heapEndAddr := 0x1FF0000
  detectedMemoryBytes := 0x2000000

lemma memoryInit_initrdBoot : memoryInit initrdBoot 0x200000 = some initrdHeap := by decide

lemma regular_initrdBoot : Regular initrdBoot 0x200000 := ⟨by decide, by decide⟩

/-- A request that fills the first region, two in the second and the release of the last. -/
theorem heap_safe_initrdBoot :
    HeapSafe initrdBoot 0x200000
      ⟨[⟨0x200000, 0x1FFFF4, false⟩, ⟨0x600000, 16, false⟩, ⟨0x60001C, 0x19EFFD8, true⟩],
        [(0x60000C, 16), (0x20000C, 0x1FFFF0)]⟩ := by
  refine heap_safe_of_regions_apart initrdBoot 0x200000 initrdHeap
    [.kmalloc 0x1FFFF0, .kmalloc 16, .kmalloc 32, .kfree 0x600028] _ memoryInit_initrdBoot
    regular_initrdBoot ?_ (by decide)
  refine ⟨trivial, fun s₁ h₁ => ⟨trivial, fun s₂ h₂ => ⟨trivial, fun s₃ h₃ => ?_⟩⟩⟩
  cases h₁
  cases h₂
  cases h₃
  exact ⟨by decide, fun s₄ h₄ => trivial⟩

/-- Releasing the only block joins the two regions, and the next large request is served
with the initrd's memory. -/
theorem heap_unsafe_initrdBoot :
    ∃ s, run HeapState.step (.start initrdHeap)
        [.kmalloc 16, .kfree 0x20000C, .kmalloc 0x300000] = some s ∧
      memoryInit initrdBoot 0x200000 = some initrdHeap ∧
      (0x20000C, 0x300000) ∈ s.live ∧ ¬ HeapSafe initrdBoot 0x200000 s := by
  refine ⟨_, rfl, memoryInit_initrdBoot, by decide, fun h => ?_⟩
  exact absurd (h.modules (0x20000C, 0x300000) (by decide) ⟨0x400000, 0x600000⟩ (by decide))
    (by decide)

end OpenHobbyOS.Memory
