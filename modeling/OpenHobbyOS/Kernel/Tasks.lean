/-
# Task slots

The slot functions of `src/task.c`.  A store through a user pointer goes through the tables of the
directory in `cr3`.  Where the kernel itself would fault, or would write outside the user range
through a pointer it does not check, the function returns `none`.
-/
import OpenHobbyOS.Kernel.Types

namespace OpenHobbyOS

open Paging Lib Function List

variable {s s' : PagingState} {addr : U32} {bs : List U8}

/-! ## User memory -/

/-- `task_validate_user_range`. -/
def taskValidateUserRange (base length : U32) : Bool :=
  let fin := base + length
  !(decide (base < userBase) || decide (userLimit < fin) || decide (fin < base))

/-- The kernel stores bytes from a user address on. -/
def storeUser : PagingState → U32 → List U8 → Option PagingState
  | s, _, [] => some s
  | s, addr, b :: bs =>
    if userBase ≤ addr ∧ addr < userLimit then
      match s.translate false true addr with
      | .ok phys => storeUser { s with bytes := Function.update s.bytes phys b } (addr + 1) bs
      | .error _ => none
    else none

/-- The kernel reads bytes from a user address on. -/
def loadUser (s : PagingState) : U32 → ℕ → Option (List U8)
  | _, 0 => some []
  | addr, n + 1 =>
    match s.translate false false addr, loadUser s (addr + 1) n with
    | .ok phys, some bs => some (s.bytes phys :: bs)
    | _, _ => none

/-- The bytes of a 32-bit word, lowest first. -/
def wordBytes (w : U32) : List U8 :=
  [w.extractLsb' 0 8, w.extractLsb' 8 8, w.extractLsb' 16 8, w.extractLsb' 24 8]

lemma storeUser_eq (h : storeUser s addr bs = some s') : s' = { s with bytes := s'.bytes } := by
  induction bs generalizing s addr with
  | nil =>
    cases h
    rfl
  | cons b bs ih =>
    rw [storeUser] at h
    split_ifs at h with hu
    split at h
    · have hrest := ih h
      exact hrest
    · cases h

/-- The slot a waker makes runnable, unless its task has exited. -/
def TaskSlot.wake (returnValue : ℤ) (t : TaskSlot) : TaskSlot :=
  { t with
    regs := { t.regs with eax := BitVec.ofInt 32 returnValue }
    wakeTick := 0
    status := if t.status = .zombie then .zombie else .runnable }

/-- The slot with the state and the frame of the running task. -/
def TaskSlot.save (state : TaskState) (regs : Registers) (t : TaskSlot) : TaskSlot :=
  { t with state := state, regs := regs }

namespace Kernel

/-! ## Slots -/

/-- `task_copy_to_user`. -/
def copyToUser (k : Kernel) (dest : U32) (src : List U8) : Option (Kernel × Bool) :=
  if !taskValidateUserRange dest (BitVec.ofNat 32 src.length) then some (k, false)
  else (storeUser k.paging dest src).map fun p => ({ k with paging := p }, true)

/-- `task_slot_write_to_user` on slot `i`. -/
def slotWriteToUser (k : Kernel) (i : SlotId) (addr : U32) (src : List U8) :
    Option (Kernel × Bool) :=
  let pd := (k.slots i).pageDirectory
  let length : U32 := BitVec.ofNat 32 src.length
  if pd = 0 ∨ src = [] then some (k, false)
  else if addr < userBase ∨ addr + length < addr ∨ kernelVirtualBase < addr + length then
    some (k, false)
  else
    let oldPd := pageDirectoryGetCurrent k.paging
    let p := pageDirectorySwitch k.paging pd
    if pageIsPresent p 0 addr && pageIsPresent p 0 (addr + length - 1) then
      (storeUser p addr src).map fun p => ({ k with paging := pageDirectorySwitch p oldPd }, true)
    else some ({ k with paging := pageDirectorySwitch p oldPd }, false)

/-- `task_write_slot_user`. -/
def writeSlotUser (k : Kernel) (i : SlotId) (addr : U32) (src : List U8) :
    Option (Kernel × Bool) :=
  if !(k.slots i).used ∨ src = [] then some (k, false) else k.slotWriteToUser i addr src

/-- `task_wake_slot`. -/
def taskWakeSlot (k : Kernel) (i : SlotId) (returnValue : ℤ) : Kernel :=
  if !(k.slots i).used then k else k.updSlot i (TaskSlot.wake returnValue)

/-- `refcount++` on the endpoint an entry refers to. -/
def retainSocket (k : Kernel) (f : TaskFd) : Kernel :=
  match f.socketRef with
  | some e => k.updSocket e SocketEndpoint.retain
  | none => k

/-- `refcount++` on the pipe an entry refers to. -/
def retainPipe (k : Kernel) (f : TaskFd) : Kernel :=
  match f.pipeRef with
  | some p => k.updPipe p PipeEndpoint.retain
  | none => k

/-- `task_slot_save_state`: every socket and pipe of the table gains a reference. -/
def slotSaveState (k : Kernel) (i : SlotId) (regs : Registers) : Kernel :=
  let fds := k.current.fds
  let k := k.updSlot i (TaskSlot.save k.current regs)
  let k := (finRange taskMaxFds).foldl (fun k fd => k.retainSocket (fds fd)) k
  let k := (finRange taskMaxFds).foldl (fun k fd => k.retainPipe (fds fd)) k
  k.updSlot i fun t => { t with seeded := true }

/-- `task_slot_activate`. -/
def slotActivate (k : Kernel) (i : SlotId) : Kernel :=
  let t := k.slots i
  if !t.seeded then k
  else
    { k with
      paging :=
        if t.pageDirectory ≠ 0 ∧ t.pageDirectoryPhys ≠ 0 then
          { k.paging with cr3 := t.pageDirectoryPhys }
        else k.paging
      current := t.state }

/-! ## Scheduling -/

/-- The wake tick of a sleeper has come. -/
def due (k : Kernel) (t : TaskSlot) : Bool :=
  t.used && t.status = .sleeping && t.wakeTick ≠ taskSleepForever && !(k.ticks - t.wakeTick).msb

/-- `task_wake_ready_slots`. -/
def taskWakeReadySlots (k : Kernel) : Kernel :=
  { k with
    slots := fun i =>
      if k.due (k.slots i) then { k.slots i with status := .runnable, wakeTick := 0 }
      else k.slots i }

/-- The order in which the scheduler tries the slots. -/
def scanOrder (current : Option SlotId) : List SlotId :=
  let first := match current with
    | none => 0
    | some i => i.val + 1
  (range taskMaxSlots).map fun pass =>
    ⟨(first + pass) % taskMaxSlots, Nat.mod_lt _ (by decide)⟩

/-- `task_pick_next_runnable`. -/
def taskPickNextRunnable (k : Kernel) (current : Option SlotId) : Kernel × Option SlotId :=
  match (scanOrder current).find? fun i =>
      (k.slots i).used && (k.slots i).status = .runnable with
  | some i => ({ k with rrCursor := some i }, some i)
  | none => (k, none)

/-- `task_reset_descriptors`: three console entries, no mappings. -/
def resetDescriptors (st : TaskState) : TaskState :=
  { st with
    fds := fun fd =>
      if fd.val < 3 then
        { TaskFd.zero with used := true, kind := .console, flags := if fd.val = 0 then 0 else oWronly }
      else .zero
    mappings := fun _ => .zero }

/-- `task_restore_kernel_context`. -/
def taskRestoreKernelContext (k : Kernel) : Kernel :=
  { k with
    paging := pageDirectorySwitchToKernel k.paging
    current := resetDescriptors { TaskState.zero with pid := k.nextPid }
    nextPid := k.nextPid + 1
    rrCursor := none
    active := none }

/-- `task_slot_for_pid`. -/
def slotForPid (k : Kernel) (pid : U32) : Option SlotId :=
  (finRange taskMaxSlots).find? fun i => (k.slots i).used && (k.slots i).state.pid = pid

/-- `task_alloc_slot`. -/
def taskAllocSlot (k : Kernel) : Option (Kernel × SlotId) :=
  ((finRange taskMaxSlots).find? fun i => !(k.slots i).used).map fun i =>
    (k.updSlot i fun _ => { TaskSlot.zero with used := true }, i)

/-! ## Descriptor numbers -/

/-- `task_fd_slot`. -/
def fdSlot (fd : ℤ) : Option FdId :=
  if h : 0 ≤ fd ∧ fd < taskMaxFds then some ⟨fd.toNat, by omega⟩ else none

/-- `task_alloc_fd` and `task_state_alloc_fd`; `none` is `LERR_MFILE`. -/
def allocFd (fds : FdId → TaskFd) : Option FdId :=
  (finRange taskMaxFds).find? fun fd => decide (3 ≤ fd.val) && !(fds fd).used

end Kernel

end OpenHobbyOS
