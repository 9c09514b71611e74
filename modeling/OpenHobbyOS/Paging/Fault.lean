/-
# Memory accesses and the page-fault handler

`translate`, the processor's walk from `cr3`, and `page_fault_handler`.  `CR0.WP` is clear, so
accesses of the kernel are checked for presence only.  The kernel copies a page through virtual
addresses of the directory in `cr3`; where one is not mapped, it faults inside the handler and
panics.
-/
import OpenHobbyOS.Paging.Mapping

namespace OpenHobbyOS.Paging

open PagingState FrameAllocator TablesOwned BitVec

/-- The bits of a page fault's error code that the handler reads. -/
structure FaultCode where
  present : Bool
  rw : Bool
  user : Bool
  reserved : Bool
  deriving DecidableEq

/-- The processor's translation of an address under `cr3`. -/
def PagingState.translate (s : PagingState) (user write : Bool) (virt : U32) :
    Except FaultCode U32 :=
  let pde := s.tables s.cr3 (virtToPdIndex virt)
  let pte := s.tables (entryGetPhys pde) (virtToPtIndex virt)
  if !hasFlag pde ptePresent || !hasFlag pte ptePresent then
    .error { present := false, rw := write, user := user, reserved := false }
  else if user && !(hasFlag pde pteUser && hasFlag pte pteUser) then
    .error { present := true, rw := write, user := user, reserved := false }
  else if user && write && !(hasFlag pde pteRw && hasFlag pte pteRw) then
    .error { present := true, rw := write, user := user, reserved := false }
  else .ok (entryGetPhys pte + pageOffset virt)

/-- `memcpy(dst, src, PAGE_SIZE)`; `none` is a fault of the kernel itself. -/
def kernelCopyPage (s : PagingState) (dst src : U32) : Option PagingState :=
  match s.translate false true dst, s.translate false false src with
  | .ok d, .ok r =>
    some { s with
      bytes := fun a => if pageAlign a = d then s.bytes (r + pageOffset a) else s.bytes a }
  | _, _ => none

/-- `memset(dst, 0, PAGE_SIZE)` by the kernel on a page-aligned address. -/
def kernelZeroPage (s : PagingState) (dst : U32) : Option PagingState :=
  match s.translate false true dst with
  | .ok d => some { s with bytes := fun a => if pageAlign a = d then 0 else s.bytes a }
  | .error _ => none

/-- Where the copy-on-write branch maps the new frame. -/
def cowTempVirt : U32 := kernelVirtualBase - 0x2000

/-- Where the new page is cleared. -/
def demandTempVirt : U32 := kernelVirtualBase - 0x3000

/-- `handle_demand_anon`; `none` if the kernel faults in it. -/
def handleDemandAnon (s : PagingState) (pd virtAddr : U32) : Option (PagingState × Bool) :=
  let pde := s.entry pd (virtToPdIndex virtAddr)
  if !hasFlag pde ptePresent then some (s, false)
  else
    let pt := s.ptablePtr (entryGetPhys pde)
    let entry := s.entry pt (virtToPtIndex virtAddr)
    if hasFlag entry ptePresent || !hasFlag entry pteDemandZero then some (s, false)
    else
      let desiredFlags := entryGetFlags entry &&& ~~~pteDemandZero
      let (a, phys) := frameAlloc s.alloc
      let s := { s with alloc := a }
      if phys = 0 then some (s, false)
      else
        let s := (pageMap s s.kernelPd demandTempVirt phys pteRw).1
        match kernelZeroPage s demandTempVirt with
        | none => none
        | some s =>
          some (s.setEntry pt (virtToPtIndex virtAddr)
            (entryCreate phys (desiredFlags ||| ptePresent ||| pteAllocated)), true)

/-- How the handler ends. -/
inductive FaultOutcome where
  /-- The handler returns and the access is tried again. -/
  | resumed (s : PagingState)
  /-- `task_abort_from_trap` ends the task. -/
  | aborted (s : PagingState)
  /-- The kernel stops. -/
  | panicked

/-- The copy-on-write branch.  The `page_unmap` of the temporary page changes no entry. -/
def cowFault (s : PagingState) (pt : U32) (j : ℕ) : FaultOutcome :=
  let oldPhys := entryGetPhys (s.entry pt j)
  let (a, newPhys) := frameAlloc s.alloc
  let s := { s with alloc := a }
  if newPhys = 0 then .aborted s
  else
    let s := (pageMap s s.kernelPd cowTempVirt newPhys pteRw).1
    match kernelCopyPage s cowTempVirt oldPhys with
    | none => .panicked
    | some s =>
      let flags := entryGetFlags (s.entry pt j)
      .resumed (s.setEntry pt j
        (entryCreate newPhys ((flags &&& ~~~pteCow) ||| pteRw ||| pteAllocated)))

/-- A user task is aborted, a fault of the kernel is a panic. -/
def killTask (s : PagingState) (err : FaultCode) : FaultOutcome :=
  if err.user then .aborted s else .panicked

/-- `page_fault_handler`, for a fault while a task is active. -/
def pageFaultHandler (s : PagingState) (virtAddr : U32) (err : FaultCode) : FaultOutcome :=
  let pd := pageDirectoryGetCurrent s
  let pde := s.entry pd (virtToPdIndex virtAddr)
  let pt := s.ptablePtr (entryGetPhys pde)
  let entry := s.entry pt (virtToPtIndex virtAddr)
  if (err.present && err.rw && !err.reserved) && hasFlag pde ptePresent &&
      (hasFlag entry ptePresent && hasFlag entry pteCow) then
    cowFault s pt (virtToPtIndex virtAddr)
  else if !err.present && err.user && decide (virtAddr < kernelVirtualBase) &&
      hasFlag pde ptePresent && (hasFlag entry pteDemandZero && !hasFlag entry ptePresent) then
    match handleDemandAnon s pd virtAddr with
    | none => .panicked
    | some (s, true) => .resumed s
    | some (s, false) => killTask s err
  else killTask s err

/-! ## Accesses by user code -/

/-- How an access ends. -/
inductive AccessResult where
  | done (s : PagingState)
  | aborted (s : PagingState)
  | panicked
  /-- Still faulting after the given number of attempts. -/
  | faulting

/-- A user access, a store if a value is given: on a fault run the handler and try again. -/
def userAccess : ℕ → PagingState → U32 → Option U8 → AccessResult
  | 0, _, _, _ => .faulting
  | n + 1, s, virt, value =>
    match s.translate true value.isSome virt with
    | .ok phys =>
      match value with
      | none => .done s
      | some b => .done { s with bytes := Function.update s.bytes phys b }
    | .error err =>
      match pageFaultHandler s virt err with
      | .resumed s' => userAccess n s' virt value
      | .aborted s' => .aborted s'
      | .panicked => .panicked

section Translate

variable {s : PagingState} {ds : Set U32} {role : U32 → Role} {d : U32}

lemma pageDirectoryGetCurrent_eq (T : TablesOwned s ds role) (hd : d ∈ ds)
    (hcr3 : s.cr3 = physOf d) : pageDirectoryGetCurrent s = d := by
  have hne : ¬ (s.kernelPd ≠ 0 ∧ s.cr3 = s.kernelPd) := by
    rintro ⟨-, h⟩
    have hr := (T.dir hd).2
    rw [← hcr3, h, ← T.kernelPtr, T.kernel_free] at hr
    cases hr
  rw [pageDirectoryGetCurrent, if_neg hne, hcr3, ← (T.dir hd).1]

lemma translate_eq (T : TablesOwned s ds role) (hd : d ∈ ds) (hcr3 : s.cr3 = physOf d)
    (user write : Bool) (virt : U32) :
    s.translate user write virt =
      if !hasFlag (pte s d (virtToPdIndex virt) (virtToPtIndex virt)) ptePresent then
        .error { present := false, rw := write, user := user, reserved := false }
      else if user && !(hasFlag (s.entry d (virtToPdIndex virt)) pteUser &&
          hasFlag (pte s d (virtToPdIndex virt) (virtToPtIndex virt)) pteUser) then
        .error { present := true, rw := write, user := user, reserved := false }
      else if user && write && !(hasFlag (s.entry d (virtToPdIndex virt)) pteRw &&
          hasFlag (pte s d (virtToPdIndex virt) (virtToPtIndex virt)) pteRw) then
        .error { present := true, rw := write, user := user, reserved := false }
      else .ok (entryGetPhys (pte s d (virtToPdIndex virt) (virtToPtIndex virt)) +
        pageOffset virt) := by
  have hpde : s.tables s.cr3 (virtToPdIndex virt) = s.entry d (virtToPdIndex virt) := by
    rw [hcr3]
    rfl
  rw [PagingState.translate, hpde]
  cases hp : hasFlag (s.entry d (virtToPdIndex virt)) ptePresent with
  | false =>
    have hz : pte s d (virtToPdIndex virt) (virtToPtIndex virt) = 0#32 := by
      rw [pte, hp]
      rfl
    simp [hz]
  | true =>
    have hpte : s.tables (entryGetPhys (s.entry d (virtToPdIndex virt))) (virtToPtIndex virt) =
        pte s d (virtToPdIndex virt) (virtToPtIndex virt) := by
      have hphys := T.physOf_table (Or.inl hd) (virtToPdIndex_lt virt) hp
      rw [pte, if_pos hp]
      nth_rewrite 1 [← hphys]
      rfl
    simp only [hpte, Bool.not_true, Bool.false_or]

end Translate

end OpenHobbyOS.Paging
