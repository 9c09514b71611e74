/-
# Page directories and page tables

The directory and mapping operations of `src/paging.c`.  Physical memory is typed: the words of a
directory or table are in `tables`, the bytes of a data frame in `bytes`; that no frame is used both
ways is the invariant of `OpenHobbyOS.Paging.Ownership`.

A pointer in the higher half is mapped to its offset from `KERNEL_VIRTUAL_BASE`, any other pointer
the kernel follows here is identity mapped.  `KERNEL_VIRTUAL_BASE + phys` wraps around for a frame
at or above 1 GiB.
-/
import OpenHobbyOS.Paging.Frames

namespace OpenHobbyOS.Paging

open BitVec Function

/-- The state of paging. -/
structure PagingState where
  alloc : FrameAllocator
  /-- The words of the table or directory in the frame at a physical address. -/
  tables : U32 → ℕ → U32
  /-- The data byte at a physical address. -/
  bytes : U32 → U8
  /-- The pointer `kernel_page_directory`. -/
  kernelPd : U32
  /-- `paging_active`. -/
  active : Bool
  cr3 : U32

/-- The physical address behind a kernel pointer. -/
def physOf (ptr : U32) : U32 :=
  if kernelVirtualBase ≤ ptr then ptr - kernelVirtualBase else ptr

namespace PagingState

variable (s : PagingState)

/-- `ptable_ptr`. -/
def ptablePtr (ptPhys : U32) : U32 :=
  if s.active then kernelVirtualBase + ptPhys else ptPhys

/-- `ptr->entries[i]`. -/
def entry (ptr : U32) (i : ℕ) : U32 := s.tables (physOf ptr) i

/-- `ptr->entries[i] = e`. -/
def setEntry (ptr : U32) (i : ℕ) (e : U32) : PagingState :=
  { s with
    tables := update s.tables (physOf ptr) (update (s.tables (physOf ptr)) i e) }

/-- `memset(ptr, 0, PAGE_SIZE)` on a table. -/
def clearTable (ptr : U32) : PagingState :=
  { s with tables := update s.tables (physOf ptr) fun _ => 0 }

end PagingState

open PagingState

/-! ## Directories -/

/-- The kernel's entries in a new directory: none in the user range, the other lower ones without
`PTE_ALLOCATED`. -/
def kernelEntriesFor (s : PagingState) (i : ℕ) : U32 :=
  let e := s.entry s.kernelPd i
  if i < kernelPdIndex then
    if virtToPdIndex userBase ≤ i ∧ i < virtToPdIndex userLimit then 0
    else if hasFlag e ptePresent then e &&& ~~~pteAllocated else 0
  else if i < entriesPerPd then e
  else 0

/-- `page_directory_create`; `0` is `NULL`. -/
def pageDirectoryCreate (s : PagingState) : PagingState × U32 :=
  let (a, pdPhys) := frameAlloc s.alloc
  let s := { s with alloc := a }
  if pdPhys = 0 then (s, 0)
  else
    let pd := kernelVirtualBase + pdPhys
    let s := s.clearTable pd
    if s.kernelPd = 0 then (s, pd)
    else ({ s with tables := update s.tables (physOf pd) (kernelEntriesFor s) }, pd)

/-- One round of the inner loop of `page_directory_destroy`. -/
def destroyEntry (s : PagingState) (pt : U32) (a : FrameAllocator) (j : ℕ) : FrameAllocator :=
  if hasFlag (s.entry pt j) ptePresent then
    if hasFlag (entryGetFlags (s.entry pt j)) pteAllocated then
      frameFree a (entryGetPhys (s.entry pt j))
    else a
  else a

/-- One round of the outer loop. -/
def destroyTable (s : PagingState) (pd : U32) (a : FrameAllocator) (i : ℕ) : FrameAllocator :=
  if !hasFlag (s.entry pd i) ptePresent then a
  else if !hasFlag (s.entry pd i) pteAllocated then a
  else
    let ptPhys := entryGetPhys (s.entry pd i)
    let pt := s.ptablePtr ptPhys
    let a := (List.range entriesPerPt).foldl (destroyEntry s pt) a
    if hasFlag (s.entry pd i) pteAllocated then frameFree a ptPhys else a

/-- `page_directory_destroy`. -/
def pageDirectoryDestroy (s : PagingState) (pd : U32) : PagingState :=
  if pd = 0 then s
  else
    let a := (List.range kernelPdIndex).foldl (destroyTable s pd) s.alloc
    { s with alloc := frameFree a (physOf pd) }

/-- `page_directory_switch`. -/
def pageDirectorySwitch (s : PagingState) (pd : U32) : PagingState :=
  if pd = 0 then s else { s with cr3 := physOf pd }

/-- `page_directory_get_current`. -/
def pageDirectoryGetCurrent (s : PagingState) : U32 :=
  if s.kernelPd ≠ 0 ∧ s.cr3 = s.kernelPd then s.kernelPd else kernelVirtualBase + s.cr3

/-- `page_directory_switch_to_kernel`. -/
def pageDirectorySwitchToKernel (s : PagingState) : PagingState :=
  if s.kernelPd ≠ 0 then pageDirectorySwitch s s.kernelPd else s

/-! ## Mapping -/

/-- The part the mapping functions share: the table behind entry `pdIdx`, made if it is not present;
`none` when no frame is left. -/
def getTable (s : PagingState) (pd : U32) (pdIdx : ℕ) (flags : U32) : PagingState × Option U32 :=
  if !hasFlag (s.entry pd pdIdx) ptePresent then
    let (a, ptPhys) := frameAlloc s.alloc
    let s := { s with alloc := a }
    if ptPhys = 0 then (s, none)
    else
      let pdeFlags := ptePresent ||| pteRw ||| pteAllocated
      let pdeFlags := if hasFlag flags pteUser then pdeFlags ||| pteUser else pdeFlags
      let s := s.setEntry pd pdIdx (entryCreate ptPhys pdeFlags)
      let pt := s.ptablePtr ptPhys
      (s.clearTable pt, some pt)
  else
    let pt := s.ptablePtr (entryGetPhys (s.entry pd pdIdx))
    let s :=
      if hasFlag flags pteUser && !hasFlag (s.entry pd pdIdx) pteUser then
        s.setEntry pd pdIdx (s.entry pd pdIdx ||| pteUser)
      else s
    (s, some pt)

/-- `page_map` and `page_map_existing` differ only in the bits `own` they add. -/
def mapPage (own : U32) (s : PagingState) (pd virtAddr physAddr flags : U32) :
    PagingState × Bool :=
  if pd = 0 ∨ !isPageAligned virtAddr ∨ !isPageAligned physAddr then (s, false)
  else
    match getTable s pd (virtToPdIndex virtAddr) flags with
    | (s, none) => (s, false)
    | (s, some pt) =>
      (s.setEntry pt (virtToPtIndex virtAddr) (entryCreate physAddr (flags ||| own)), true)

/-- `page_map`. -/
def pageMap : PagingState → U32 → U32 → U32 → U32 → PagingState × Bool :=
  mapPage (ptePresent ||| pteAllocated)

/-- `page_map_existing`. -/
def pageMapExisting : PagingState → U32 → U32 → U32 → U32 → PagingState × Bool :=
  mapPage ptePresent

/-- `if (!pd) pd = page_directory_get_current();` -/
def orCurrent (s : PagingState) (pd : U32) : U32 :=
  if pd = 0 then pageDirectoryGetCurrent s else pd

/-- The table entry that translates an address, if its directory entry is present. -/
def walk (s : PagingState) (pd virtAddr : U32) : Option U32 :=
  let e := s.entry pd (virtToPdIndex virtAddr)
  if !hasFlag e ptePresent then none
  else some (s.entry (s.ptablePtr (entryGetPhys e)) (virtToPtIndex virtAddr))

/-- `page_get_phys`. -/
def pageGetPhys (s : PagingState) (pd virtAddr : U32) : U32 :=
  match walk s (orCurrent s pd) virtAddr with
  | none => 0
  | some e => if !hasFlag e ptePresent then 0 else entryGetPhys e + pageOffset virtAddr

/-- `page_is_present`. -/
def pageIsPresent (s : PagingState) (pd virtAddr : U32) : Bool :=
  match walk s (orCurrent s pd) virtAddr with
  | none => false
  | some e => hasFlag e ptePresent

/-- `paging_alloc_user_page`. -/
def pagingAllocUserPage (s : PagingState) (pd virtAddr flags : U32) : PagingState × Bool :=
  if pd = 0 then (s, false)
  else if kernelVirtualBase ≤ virtAddr then (s, false)
  else
    let (a, phys) := frameAlloc s.alloc
    let s := { s with alloc := a }
    if phys = 0 then (s, false)
    else
      match pageMap s pd virtAddr phys (flags ||| pteUser) with
      | (s, false) => ({ s with alloc := frameFree s.alloc phys }, false)
      | (s, true) => (s, true)

/-! ## Copying a directory for `fork` -/

/-- One round of `page_directory_copy_cow`.  The result of `page_map` is not looked at. -/
def copyCowEntry (srcPt dstPd : U32) (pdIdx : ℕ) (s : PagingState) (ptIdx : ℕ) : PagingState :=
  let e := s.entry srcPt ptIdx
  if !hasFlag e ptePresent then s
  else
    let flags := entryGetFlags e
    let phys := entryGetPhys e
    let s :=
      if hasFlag flags pteRw then
        s.setEntry srcPt ptIdx (entryCreate phys ((flags &&& ~~~pteRw) ||| pteCow))
      else s
    (pageMap s dstPd (indexAddr pdIdx ptIdx) phys ((flags ||| pteCow) &&& ~~~pteRw)).1

/-- One round of the outer loop. -/
def copyCowTable (srcPd dstPd : U32) (s : PagingState) (pdIdx : ℕ) : PagingState :=
  let e := s.entry srcPd pdIdx
  if !hasFlag e ptePresent then s
  else if !hasFlag e pteAllocated then s
  else
    let srcPt := kernelVirtualBase + entryGetPhys e
    (List.range entriesPerPt).foldl (copyCowEntry srcPt dstPd pdIdx) s

/-- `page_directory_copy_cow`. -/
def pageDirectoryCopyCow (s : PagingState) (srcPd : U32) : PagingState × U32 :=
  let (s, dstPd) := pageDirectoryCreate s
  if dstPd = 0 then (s, 0)
  else ((List.range kernelPdIndex).foldl (copyCowTable srcPd dstPd) s, dstPd)

/-! ## Pointers and entries -/

section Pointers

variable {x : U32}

lemma physOf_higherHalf (hx : x.toNat < 0x40000000) : physOf (kernelVirtualBase + x) = x := by
  have hsum : (kernelVirtualBase + x).toNat = 0xC0000000 + x.toNat := by
    rw [toNat_add]
    change (0xC0000000 + x.toNat) % 2 ^ 32 = _
    omega
  have hle : kernelVirtualBase ≤ kernelVirtualBase + x := by
    rw [le_def, hsum]
    change 0xC0000000 ≤ _
    omega
  rw [physOf, if_pos hle]
  apply eq_of_toNat_eq
  rw [toNat_sub, hsum]
  change (2 ^ 32 - 0xC0000000 + (0xC0000000 + x.toNat)) % 2 ^ 32 = _
  omega

lemma physOf_low (hx : x.toNat < 0x40000000) : physOf x = x := by
  rw [physOf, if_neg]
  rw [le_def]
  change ¬ 0xC0000000 ≤ x.toNat
  omega

lemma physOf_ptablePtr (s : PagingState) (hx : x.toNat < 0x40000000) :
    physOf (s.ptablePtr x) = x := by
  rw [ptablePtr]
  split_ifs
  · exact physOf_higherHalf hx
  · exact physOf_low hx

lemma higherHalf_ne_zero (hx : x.toNat < 0x40000000) : kernelVirtualBase + x ≠ 0 := by
  intro h
  have hsum := congrArg BitVec.toNat h
  rw [toNat_add] at hsum
  change (0xC0000000 + x.toNat) % 2 ^ 32 = 0 at hsum
  omega

end Pointers

section Entries

variable {s : PagingState} {ptr ptr' : U32} {i j : ℕ} {e : U32}

lemma entry_setEntry (s : PagingState) (ptr ptr' : U32) (i j : ℕ) (e : U32) :
    (s.setEntry ptr i e).entry ptr' j =
      if physOf ptr' = physOf ptr ∧ j = i then e else s.entry ptr' j := by
  by_cases h : physOf ptr' = physOf ptr
  · by_cases hj : j = i <;> simp [entry, setEntry, h, hj]
  · simp [entry, setEntry, h]

@[simp] lemma entry_setEntry_self : (s.setEntry ptr i e).entry ptr i = e := by
  simp [entry_setEntry]

lemma entry_setEntry_of_ne (h : physOf ptr' ≠ physOf ptr) :
    (s.setEntry ptr i e).entry ptr' j = s.entry ptr' j := by
  simp [entry_setEntry, h]

lemma entry_clearTable (s : PagingState) (ptr ptr' : U32) (j : ℕ) :
    (s.clearTable ptr).entry ptr' j = if physOf ptr' = physOf ptr then 0 else s.entry ptr' j := by
  by_cases h : physOf ptr' = physOf ptr <;> simp [entry, clearTable, h]

@[simp] lemma setEntry_alloc : (s.setEntry ptr i e).alloc = s.alloc := rfl
@[simp] lemma setEntry_bytes : (s.setEntry ptr i e).bytes = s.bytes := rfl
@[simp] lemma setEntry_kernelPd : (s.setEntry ptr i e).kernelPd = s.kernelPd := rfl
@[simp] lemma setEntry_active : (s.setEntry ptr i e).active = s.active := rfl
@[simp] lemma setEntry_cr3 : (s.setEntry ptr i e).cr3 = s.cr3 := rfl
@[simp] lemma clearTable_kernelPd : (s.clearTable ptr).kernelPd = s.kernelPd := rfl
@[simp] lemma clearTable_active : (s.clearTable ptr).active = s.active := rfl
end Entries

end OpenHobbyOS.Paging
