/-
# Page-table entries and virtual addresses

The constants and inline helpers of `include/paging.h` and the address-space layout of
`include/task.h`: an entry is a page-aligned physical address with twelve flag bits, a virtual
address two indices and an offset.
-/
import Mathlib.Tactic

namespace OpenHobbyOS

open BitVec Nat

/-- A 32-bit machine word: addresses, page-table entries and flag sets. -/
abbrev U32 := BitVec 32

instance lawfulBEqU32 : LawfulBEq U32 := inferInstance

/-- A byte. -/
abbrev U8 := BitVec 8

namespace Paging

variable {i j k : ℕ} {o v w : U32}

/-- `PAGE_SIZE`. -/
def pageSize : ℕ := 4096
/-- `PAGE_MASK`. -/
def pageMask : U32 := 0xFFFFF000
/-- The offset in a page. -/
def pageOffsetMask : U32 := 0xFFF
/-- `ENTRIES_PER_PT`. -/
def entriesPerPt : ℕ := 1024
/-- `ENTRIES_PER_PD`. -/
def entriesPerPd : ℕ := 1024

/-- `PTE_PRESENT`. -/
def ptePresent : U32 := 0x001
/-- `PTE_RW`. -/
def pteRw : U32 := 0x002
/-- `PTE_USER`. -/
def pteUser : U32 := 0x004
/-- `PTE_GLOBAL`. -/
def pteGlobal : U32 := 0x100
/-- `PTE_COW`. -/
def pteCow : U32 := 0x200
/-- `PTE_ALLOCATED`. -/
def pteAllocated : U32 := 0x400
/-- `PTE_DEMAND_ZERO`. -/
def pteDemandZero : U32 := 0x800

/-- `KERNEL_VIRTUAL_BASE`. -/
def kernelVirtualBase : U32 := 0xC0000000
/-- `KERNEL_PD_INDEX`. -/
def kernelPdIndex : ℕ := 768
/-- `USER_BASE`. -/
def userBase : U32 := 0x02000000
/-- `USER_LIMIT`. -/
def userLimit : U32 := 0x05000000

/-- The C test `(e & f) != 0`. -/
def hasFlag (e f : U32) : Bool := e &&& f != 0

/-- `entry_get_phys`. -/
def entryGetPhys (entry : U32) : U32 := entry &&& pageMask
/-- `entry_get_flags`. -/
def entryGetFlags (entry : U32) : U32 := entry &&& pageOffsetMask
/-- `entry_create`. -/
def entryCreate (phys flags : U32) : U32 := (phys &&& pageMask) ||| (flags &&& pageOffsetMask)

/-- `virt_to_pd_index`. -/
def virtToPdIndex (virt : U32) : ℕ := (virt >>> 22).toNat
/-- `virt_to_pt_index`. -/
def virtToPtIndex (virt : U32) : ℕ := ((virt >>> 12) &&& 0x3FF).toNat
/-- `page_align`. -/
def pageAlign (addr : U32) : U32 := addr &&& pageMask
/-- `page_offset`. -/
def pageOffset (addr : U32) : U32 := addr &&& pageOffsetMask
/-- `is_page_aligned`. -/
def isPageAligned (addr : U32) : Bool := addr &&& pageOffsetMask == 0

/-! ## Bits of the masks and of an entry -/

lemma pageMask_bit : ∀ i < 32, pageMask.getLsbD i = decide (12 ≤ i) := by decide

lemma pageOffsetMask_bit : ∀ i < 32, pageOffsetMask.getLsbD i = decide (i < 12) := by decide

lemma hasFlag_bit (e : U32) {f : U32} (hf : f = twoPow 32 k) (hk : k < 32) :
    hasFlag e f = e.getLsbD k := by
  have hne : twoPow 32 k ≠ 0#32 := by
    intro h
    have hbit := congrArg (fun x => x.getLsbD k) h
    simp [hk] at hbit
  rw [hf, hasFlag, and_twoPow]
  cases e.getLsbD k <;> simp [hne]

lemma hasFlag_present (e : U32) : hasFlag e ptePresent = e.getLsbD 0 :=
  hasFlag_bit e (by decide) (by decide)

lemma hasFlag_rw (e : U32) : hasFlag e pteRw = e.getLsbD 1 :=
  hasFlag_bit e (by decide) (by decide)

lemma hasFlag_user (e : U32) : hasFlag e pteUser = e.getLsbD 2 :=
  hasFlag_bit e (by decide) (by decide)

lemma hasFlag_allocated (e : U32) : hasFlag e pteAllocated = e.getLsbD 10 :=
  hasFlag_bit e (by decide) (by decide)

lemma entryCreate_bit (phys flags : U32) (hk : k < 12) :
    (entryCreate phys flags).getLsbD k = flags.getLsbD k := by
  rw [entryCreate, getLsbD_or, getLsbD_and, getLsbD_and,
    pageMask_bit k (by omega), pageOffsetMask_bit k (by omega)]
  simp [hk, not_le.mpr hk]

lemma entryGetFlags_bit (e : U32) (hk : k < 12) :
    (entryGetFlags e).getLsbD k = e.getLsbD k := by
  rw [entryGetFlags, getLsbD_and, pageOffsetMask_bit k (by omega)]
  simp [hk]

lemma entryGetPhys_bit (e : U32) (hk : k < 32) :
    (entryGetPhys e).getLsbD k = (e.getLsbD k && decide (12 ≤ k)) := by
  rw [entryGetPhys, getLsbD_and, pageMask_bit k hk]

lemma entryGetPhys_entryCreate (phys flags : U32) :
    entryGetPhys (entryCreate phys flags) = phys &&& pageMask := by
  apply eq_of_getLsbD_eq
  intro i hi
  rw [entryGetPhys_bit _ hi, entryCreate, getLsbD_or, getLsbD_and,
    getLsbD_and, pageMask_bit i hi, pageOffsetMask_bit i hi]
  by_cases h : 12 ≤ i
  · simp [h, not_lt.mpr h]
  · simp [h]

lemma and_pageMask_of_aligned {a : U32} (h : isPageAligned a = true) : a &&& pageMask = a := by
  have h0 : a &&& pageOffsetMask = 0 := by simpa [isPageAligned] using h
  apply eq_of_getLsbD_eq
  intro i hi
  rw [getLsbD_and, pageMask_bit i hi]
  by_cases h12 : 12 ≤ i
  · simp [h12]
  · have hbit := congrArg (fun x => x.getLsbD i) h0
    simp only [getLsbD_and, pageOffsetMask_bit i hi] at hbit
    simp [Nat.lt_of_not_le h12] at hbit
    simp [hbit]

@[simp] lemma entryGetPhys_entryCreate_of_aligned {phys : U32} (h : isPageAligned phys = true)
    (flags : U32) : entryGetPhys (entryCreate phys flags) = phys := by
  rw [entryGetPhys_entryCreate, and_pageMask_of_aligned h]

lemma or_user_bit (e : U32) (hk : k ≠ 2) : (e ||| pteUser).getLsbD k = e.getLsbD k := by
  have huser : pteUser = twoPow 32 2 := by decide
  rw [getLsbD_or, huser, getLsbD_twoPow]
  simp [hk.symm]

@[simp] lemma entryGetPhys_or_user (e : U32) : entryGetPhys (e ||| pteUser) = entryGetPhys e := by
  apply eq_of_getLsbD_eq
  intro i hi
  rw [entryGetPhys_bit _ hi, entryGetPhys_bit _ hi]
  by_cases h : i = 2
  · simp [h]
  · rw [or_user_bit e h]

@[simp] lemma hasFlag_zero (f : U32) : hasFlag 0#32 f = false := by
  simp [hasFlag]

/-! ## Addresses as numbers -/

lemma pageOffset_toNat (v : U32) : (pageOffset v).toNat = v.toNat % 4096 := by
  rw [pageOffset, toNat_and]
  exact and_two_pow_sub_one_eq_mod v.toNat 12

lemma and_mask_toNat {w : ℕ} (v : BitVec w) {mask : BitVec w}
    (hmask : ∀ i < w, mask.getLsbD i = decide (k ≤ i)) :
    (v &&& mask).toNat = v.toNat - v.toNat % 2 ^ k := by
  have hshift : v &&& mask = (v >>> k) <<< k := by
    apply eq_of_getLsbD_eq
    intro i hi
    rw [getLsbD_and, hmask i hi, getLsbD_shiftLeft, getLsbD_ushiftRight]
    by_cases h : k ≤ i
    · simp [h, hi]
    · simp [h, Nat.lt_of_not_le h]
  have hle : v.toNat / 2 ^ k * 2 ^ k ≤ v.toNat := div_mul_le_self _ _
  have hdiv := div_add_mod v.toNat (2 ^ k)
  rw [hshift, toNat_shiftLeft, toNat_ushiftRight, shiftRight_eq_div_pow,
    Nat.shiftLeft_eq, Nat.mod_eq_of_lt (hle.trans_lt v.isLt), Nat.mul_comm]
  omega

lemma and_pageMask_toNat (v : U32) : (v &&& pageMask).toNat = v.toNat - v.toNat % 4096 :=
  and_mask_toNat v pageMask_bit

lemma isPageAligned_iff : isPageAligned v = true ↔ v.toNat % 4096 = 0 := by
  rw [← pageOffset_toNat, isPageAligned, beq_iff_eq, pageOffset]
  constructor
  · intro h
    rw [h]
    rfl
  · intro h
    exact eq_of_toNat_eq (by simpa using h)

lemma aligned_and_pageMask (v : U32) : isPageAligned (v &&& pageMask) = true := by
  rw [isPageAligned_iff, and_pageMask_toNat]
  omega

@[simp] lemma aligned_entryGetPhys (e : U32) : isPageAligned (entryGetPhys e) = true :=
  aligned_and_pageMask e

lemma virtToPdIndex_eq (v : U32) : virtToPdIndex v = v.toNat / 2 ^ 22 := by
  rw [virtToPdIndex, toNat_ushiftRight, shiftRight_eq_div_pow]

lemma virtToPtIndex_eq (v : U32) : virtToPtIndex v = v.toNat / 4096 % 1024 := by
  rw [virtToPtIndex, toNat_and, toNat_ushiftRight, shiftRight_eq_div_pow]
  exact and_two_pow_sub_one_eq_mod _ 10

lemma virtToPdIndex_lt (v : U32) : virtToPdIndex v < 1024 := by
  have := v.isLt
  rw [virtToPdIndex_eq]
  omega

lemma pageAlign_eq_of_index (hd : virtToPdIndex v = virtToPdIndex w)
    (ht : virtToPtIndex v = virtToPtIndex w) : pageAlign v = pageAlign w := by
  rw [virtToPdIndex_eq, virtToPdIndex_eq] at hd
  rw [virtToPtIndex_eq, virtToPtIndex_eq] at ht
  apply eq_of_toNat_eq
  rw [pageAlign, pageAlign, and_pageMask_toNat, and_pageMask_toNat]
  omega

lemma index_add_offset (hv : isPageAligned v = true) (ho : o.toNat < 4096) :
    virtToPdIndex (v + o) = virtToPdIndex v ∧ virtToPtIndex (v + o) = virtToPtIndex v ∧
      pageOffset (v + o) = o := by
  rw [isPageAligned_iff] at hv
  have hlt := v.isLt
  have hsum : (v + o).toNat = v.toNat + o.toNat := by
    rw [toNat_add]
    omega
  refine ⟨?_, ?_, ?_⟩
  · rw [virtToPdIndex_eq, virtToPdIndex_eq, hsum]
    omega
  · rw [virtToPtIndex_eq, virtToPtIndex_eq, hsum]
    omega
  · apply eq_of_toNat_eq
    rw [pageOffset_toNat, hsum]
    omega

/-- The address whose indices are `pdIdx` and `ptIdx`. -/
def indexAddr (pdIdx ptIdx : ℕ) : U32 :=
  (BitVec.ofNat 32 pdIdx <<< 22) ||| (BitVec.ofNat 32 ptIdx <<< 12)

lemma user_pdIndex (hlo : userBase ≤ v) (hhi : v < userLimit) :
    8 ≤ virtToPdIndex v ∧ virtToPdIndex v < 20 := by
  have h1 : (0x02000000 : ℕ) ≤ v.toNat := hlo
  have h2 : v.toNat < 0x05000000 := hhi
  rw [virtToPdIndex_eq]
  omega

end Paging

end OpenHobbyOS
