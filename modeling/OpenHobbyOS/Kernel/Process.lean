/-
# Processes

Loading programs, `spawn`, `fork`, `execve`, `waitpid`, exit, `brk` and `mmap`, the scheduler loop
of `task_run_until_pid_exits` and the timer tick, from `src/task.c`.  What a path resolves to, with
the bytes of the segments, and the strings that `task_prepare_user_stack` lays out are inputs.
-/
import OpenHobbyOS.Kernel.Descriptors

namespace OpenHobbyOS

open Paging Lib List

/-! ## Programs -/

/-- A program header; the data of a `PT_LOAD` header are its `filesz` bytes. -/
inductive ProgramHeader where
  | load (vaddr memsz : U32) (data : List U8)
  | tls (vaddr filesz memsz : U32)
  | other

/-- What is read of an ELF file. -/
structure Executable where
  size : U32
  /-- `vfs_read` returns the whole file. -/
  readable : Bool
  /-- The header passes the tests on magic, class, machine and type. -/
  valid : Bool
  entry : U32
  headers : List ProgramHeader

/-- What starting a program depends on. -/
structure Program where
  /-- The path and the arguments can be copied from the caller. -/
  argsOk : Bool
  /-- The file the path resolves to, or the error code. -/
  file : Except { e : ℤ // e < 0 } Executable
  /-- `kmalloc` finds room for the file. -/
  bufferOk : Bool
  /-- The bytes put on the stack, `none` if they do not fit. -/
  stack : Option (List U8)
  argc : U32
  /-- The file's name and path, cut to the length of the fields they are copied to. -/
  name : List U8
  path : List U8

/-- `elf_image_t`. -/
structure ElfImage where
  entry : U32
  imageEnd : U32
  tlsVaddr : U32
  tlsFilesz : U32
  tlsMemsz : U32

/-- The rounds of `for (va = first; va < last; va += PAGE_SIZE)`. -/
def pagesBelow (first last : U32) : ℕ := (last.toNat - first.toNat + (pageSize - 1)) / pageSize

/-- Maps consecutive pages until one fails. -/
def allocUserPages (pd flags : U32) : ℕ → PagingState → U32 → PagingState × Bool
  | 0, s, _ => (s, true)
  | n + 1, s, va =>
    match pagingAllocUserPage s pd va flags with
    | (s, false) => (s, false)
    | (s, true) => allocUserPages pd flags n s (va + 0x1000)

/-- A round of the loop of `elf_load_paged` for a `PT_LOAD` header. -/
def loadSegment (s : PagingState) (pd vaddr memsz : U32) (data : List U8) :
    Option (PagingState × Bool) :=
  let vaddrStart := pageAlign vaddr
  let vaddrEnd := pageAlign (vaddr + memsz + 0xFFF)
  if vaddrStart < userBase ∨ userLimit < vaddrEnd then some (s, false)
  else
    match allocUserPages pd (pteRw ||| pteUser) (pagesBelow vaddrStart vaddrEnd) s vaddrStart with
    | (s, false) => some (s, false)
    | (s, true) =>
      match storeUser s vaddr (replicate memsz.toNat 0) with
      | none => none
      | some s => (storeUser s vaddr data).map fun s => (s, true)

/-- The loop of `elf_load_paged`; `imageEnd` is the largest end of a segment so far. -/
def loadHeaders (pd : U32) :
    List ProgramHeader → PagingState → ElfImage → Option (PagingState × Option ElfImage)
  | [], s, image => some (s, some image)
  | .other :: hs, s, image => loadHeaders pd hs s image
  | .tls vaddr filesz memsz :: hs, s, image =>
    loadHeaders pd hs s { image with tlsVaddr := vaddr, tlsFilesz := filesz, tlsMemsz := memsz }
  | .load vaddr memsz data :: hs, s, image =>
    match loadSegment s pd vaddr memsz data with
    | none => none
    | some (s, false) => some (s, none)
    | some (s, true) =>
      loadHeaders pd hs s
        { image with
          imageEnd := if image.imageEnd < vaddr + memsz then vaddr + memsz else image.imageEnd }

/-- `elf_load_paged`. -/
def elfLoadPaged (s : PagingState) (pd : U32) (exe : Executable) :
    Option (PagingState × Option ElfImage) :=
  if !exe.valid then some (s, none)
  else
    (loadHeaders pd exe.headers s ⟨exe.entry, 0, 0, 0, 0⟩).map fun (s, image) =>
      (s, image.map fun i => { i with imageEnd := pageAlign (i.imageEnd + 0xFFF) })

/-- The first half of `task_seed_slot` and `task_execve_from_user`.  The retry of a failed
`page_directory_create` is left out: the allocator has not changed in between. -/
def loadImage (s : PagingState) (prog : Program) (stackPages : ℕ) :
    Option (PagingState × Except ℤ (U32 × ElfImage)) :=
  match prog.file with
  | .error e => some (s, .error e.val)
  | .ok exe =>
    let (s, pd) := pageDirectoryCreate s
    if pd = 0 then some (s, .error errNomem)
    else if exe.size = 0 ∨ 0x1000000 < exe.size then
      some (pageDirectoryDestroy s pd, .error errNoent)
    else if !prog.bufferOk then some (pageDirectoryDestroy s pd, .error errNomem)
    else if !exe.readable then some (pageDirectoryDestroy s pd, .error errNoent)
    else
      let oldPd := pageDirectoryGetCurrent s
      match elfLoadPaged (pageDirectorySwitch s pd) pd exe with
      | none => none
      | some (s, none) =>
        some (pageDirectoryDestroy (pageDirectorySwitch s oldPd) pd, .error errNoent)
      | some (s, some image) =>
        let s := pageDirectorySwitch s oldPd
        match allocUserPages pd (pteRw ||| pteUser) stackPages s
            (userStackTop - BitVec.ofNat 32 (stackPages * pageSize)) with
        | (s, false) =>
          some (pageDirectoryDestroy (pageDirectorySwitch s oldPd) pd, .error errNomem)
        | (s, true) => some (s, .ok (pd, image))

/-- The base of the thread-local segment, `tls_gs_base`. -/
def ElfImage.tlsGsBase (image : ElfImage) : U32 :=
  if image.tlsMemsz = 0 then userTlsAddr else userTlsAddr + image.tlsMemsz

/-- The thread-local block. -/
def setupTls (s : PagingState) (image : ElfImage) : Option PagingState :=
  let base := image.tlsGsBase
  let withData : Option PagingState :=
    if image.tlsMemsz = 0 then some s
    else
      match loadUser s image.tlsVaddr image.tlsFilesz.toNat with
      | none => none
      | some bytes =>
        match storeUser s userTlsAddr bytes with
        | none => none
        | some s => storeUser s base (wordBytes base)
  match withData with
  | none => none
  | some s => storeUser s (base + 0x14) (wordBytes 0xFF0A0000)

/-- The initial stack pointer of a program whose stack holds `stack`. -/
def stackPointer (stack : Option (List U8)) : U32 :=
  userStackTop - BitVec.ofNat 32 (stack.getD []).length

/-- The second half: the thread-local page and the stack.  On success the new directory is the one
in `cr3`; otherwise it is gone. -/
def finishImage (s : PagingState) (pd oldPd : U32) (image : ElfImage) (stack : Option (List U8)) :
    Option (PagingState × Bool) :=
  let fail (s : PagingState) : PagingState × Bool :=
    (pageDirectoryDestroy (pageDirectorySwitch s oldPd) pd, false)
  match pagingAllocUserPage (pageDirectorySwitch s pd) pd userTlsAddr (pteRw ||| pteUser) with
  | (s, false) => some (fail s)
  | (s, true) =>
    match setupTls s image with
    | none => none
    | some s =>
      match stack with
      | none => some (fail s)
      | some bytes =>
        (storeUser s (userStackTop - BitVec.ofNat 32 bytes.length) bytes).map fun s => (s, true)

namespace Kernel

variable (k : Kernel)

/-! ## `spawn` -/

/-- `current_task` for a new program. -/
def seededState (pid : U32) (parent : Option TaskState) (prog : Program) (image : ElfImage) :
    TaskState :=
  let st : TaskState :=
    { TaskState.zero with
      name := prog.name
      path := prog.path
      entry := image.entry
      brkBase := image.imageEnd
      brk := image.imageEnd
      brkLimit := userMmapBase
      pid := pid
      active := true }
  match parent with
  | some p => { st with fds := p.fds }
  | none => resetDescriptors st

/-- The frame a new program starts with. -/
def seededRegs (prog : Program) (image : ElfImage) : Registers :=
  let userStack := stackPointer prog.stack
  { Registers.zero with
    eip := image.entry
    eflags := 0x202
    useresp := userStack
    eax := prog.argc
    ebx := userStack + 4
    ecx := userStack + 8 + prog.argc * 4 }

/-- `task_seed_slot`. -/
def taskSeedSlot (i : SlotId) (parent : Option TaskState) (prog : Program) :
    Option (Kernel × ℤ) :=
  let oldPd := pageDirectoryGetCurrent k.paging
  match loadImage k.paging prog 64 with
  | none => none
  | some (s, .error e) => some ({ k with paging := s }, e)
  | some (s, .ok (pd, image)) =>
    let k := { k with
      paging := s
      current := seededState k.nextPid parent prog image
      nextPid := k.nextPid + 1 }
    match finishImage s pd oldPd image prog.stack with
    | none => none
    | some (s, false) => some ({ k with paging := s }, errNomem)
    | some (s, true) =>
      let k := { k with paging := pageDirectorySwitch s oldPd }
      let k := k.updSlot i fun t =>
        { t with
          pageDirectory := pd
          pageDirectoryPhys := physOf pd
          tlsVaddr := image.tlsGsBase
          parentPid := match parent with
            | some p => p.pid
            | none => 0
          exitCode := 0
          waitPid := 0
          waitStatusPtr := 0
          wakeTick := 0 }
      let k := k.slotSaveState i (seededRegs prog image)
      some (k.updSlot i fun t => { t with status := .runnable }, 0)

/-- `task_spawn_kernel`. -/
def taskSpawnKernel (parent : Option TaskState) (prog : Program) : Option (Kernel × ℤ) :=
  match k.taskAllocSlot with
  | none => some (k, errNomem)
  | some (k, i) =>
    match k.taskSeedSlot i parent prog with
    | none => none
    | some (k, v) =>
      if v < 0 then some (k.taskFreeSlot i, v) else some (k, (k.slots i).state.pid.toInt)

/-- `task_spawn_from_user`: the child is seeded through `current_task`. -/
def taskSpawnFromUser (prog : Program) (regs : Registers) : Option (Kernel × ℤ) :=
  match k.activeSlot with
  | none => some (k, errInval)
  | some i =>
    if !prog.argsOk then some (k, errFault)
    else
      ((k.slotSaveState i regs).taskSpawnKernel (some k.current) prog).map fun (k, v) =>
        (k.slotActivate i, v)

/-! ## `execve` and `fork` -/

/-- The table after the loop that drops `O_CLOEXEC` entries. -/
def closeOnExec (fds : FdId → TaskFd) : FdId → TaskFd := fun fd =>
  if (fds fd).used ∧ hasFlag (fds fd).flags oCloexec then .zero else fds fd

/-- `task_execve_from_user`, with the caller's frame. -/
def taskExecve (prog : Program) (regs : Registers) : Option (Kernel × Registers × ℤ) :=
  if !prog.argsOk then some (k, regs, errFault)
  else
    let oldPd := pageDirectoryGetCurrent k.paging
    match loadImage k.paging prog 16 with
    | none => none
    | some (s, .error e) => some ({ k with paging := s }, regs, e)
    | some (s, .ok (pd, image)) =>
      let k := { k with
        paging := s
        current := { k.current with
          name := prog.name
          path := prog.path
          entry := image.entry
          brkBase := image.imageEnd
          brk := image.imageEnd
          brkLimit := userMmapBase
          active := true } }
      match finishImage s pd oldPd image prog.stack with
      | none => none
      | some (s, false) => some ({ k with paging := s }, regs, errNomem)
      | some (s, true) =>
        let k := { k with
          paging := s
          current := { k.current with fds := closeOnExec k.current.fds } }
        let k := match k.activeSlot with
          | none => k
          | some i =>
            let k :=
              if (k.slots i).pageDirectory = 0 then k
              else
                { k with
                  paging := pageDirectoryDestroy (pageDirectorySwitch k.paging oldPd)
                    (k.slots i).pageDirectory }
            k.updSlot i fun t =>
              { t with
                pageDirectory := pd
                pageDirectoryPhys := physOf pd
                tlsVaddr := image.tlsGsBase }
        some ({ k with
            paging := pageDirectorySwitch k.paging pd
            current := { k.current with mappings := fun _ => .zero } },
          { regs with
            eip := image.entry
            eflags := 0x202
            useresp := stackPointer prog.stack }, 0)

/-- `task_fork_from_user`. -/
def taskFork (regs : Registers) : Kernel × ℤ :=
  let pid := k.current.pid
  let parent := k.activeSlot
  match k.taskAllocSlot with
  | none => (k, errNomem)
  | some (k, i) =>
    let k := k.slotSaveState i regs
    let (s, childPd) := pageDirectoryCopyCow k.paging (pageDirectoryGetCurrent k.paging)
    let k := { k with paging := s }
    if childPd = 0 then (k.taskFreeSlot i, errNomem)
    else
      let k := k.updSlot i fun t =>
        { t with
          pageDirectory := childPd
          pageDirectoryPhys := physOf childPd
          state := { t.state with pid := k.nextPid }
          parentPid := pid
          status := .runnable
          exitCode := 0
          waitPid := 0
          waitStatusPtr := 0
          wakeTick := 0
          regs := { t.regs with eax := 0 }
          tlsVaddr := match parent with
            | some p => (k.slots p).tlsVaddr
            | none => t.tlsVaddr }
      ({ k with nextPid := k.nextPid + 1 }, k.nextPid.toInt)

/-! ## `waitpid` and exit -/

/-- `task_wait_matches`. -/
def taskWaitMatches (requested : U32) (child : TaskSlot) : Bool :=
  child.used && requested ≠ 0 && (requested.msb || child.state.pid = requested)

/-- `(exit_code & 0xff) << 8`. -/
def statusWord (exitCode : U32) : U32 := (exitCode &&& 0xff) <<< 8

/-- `task_reap_matching_child`. -/
def taskReapMatchingChild (parent : SlotId) (requested statusPtr : U32) : Option (Kernel × ℤ) :=
  let pid := (k.slots parent).state.pid
  match (finRange taskMaxSlots).find? fun i =>
      (k.slots i).used && (k.slots i).parentPid = pid && (k.slots i).status = .zombie &&
        taskWaitMatches requested (k.slots i) with
  | none => some (k, 0)
  | some i =>
    let child := k.slots i
    if statusPtr = 0 then some (k.taskFreeSlot i, child.state.pid.toInt)
    else
      match k.copyToUser statusPtr (wordBytes (statusWord child.exitCode)) with
      | none => none
      | some (k, false) => some (k, errFault)
      | some (k, true) => some (k.taskFreeSlot i, child.state.pid.toInt)

/-- `task_has_matching_child`. -/
def taskHasMatchingChild (parentPid requested : U32) : Bool :=
  (finRange taskMaxSlots).any fun i =>
    (k.slots i).used && (k.slots i).parentPid = parentPid && taskWaitMatches requested (k.slots i)

/-- `task_waitpid_from_user`. -/
def taskWaitpid (pid statusPtr options : U32) (regs : Registers) : Option (Kernel × ℤ) :=
  match k.activeSlot with
  | none => some (k, errInval)
  | some i =>
    if options ≠ 0 then some (k, errInval)
    else
      match k.taskReapMatchingChild i pid statusPtr with
      | none => none
      | some (k, v) =>
        if v ≠ 0 then some (k, v)
        else if !k.taskHasMatchingChild (k.slots i).state.pid pid then some (k, errChild)
        else
          let k := (k.slotSaveState i regs).updSlot i fun t =>
            { t with
              regs := { t.regs with eax := 0 }
              status := .waiting
              waitPid := pid
              waitStatusPtr := statusPtr }
          some ({ k with active := none }, 0)

/-- The parent a zombie's exit wakes. -/
def waitingParent (c : SlotId) : Option SlotId :=
  (finRange taskMaxSlots).find? fun i =>
    (k.slots i).used && (k.slots i).status = .waiting &&
      (k.slots i).state.pid = (k.slots c).parentPid && taskWaitMatches (k.slots i).waitPid (k.slots c)

/-- `task_wake_waiting_parents`. -/
def taskWakeWaitingParents (c : SlotId) : Option Kernel :=
  match k.waitingParent c with
  | none => some k
  | some i =>
    let child := k.slots c
    let parent := k.slots i
    let written :=
      if parent.waitStatusPtr = 0 then some (k, true)
      else k.slotWriteToUser i parent.waitStatusPtr (wordBytes (statusWord child.exitCode))
    written.map fun (k, _) =>
      (k.updSlot i fun t =>
        { t with
          regs := { t.regs with eax := child.state.pid }
          status := .runnable
          waitPid := 0
          waitStatusPtr := 0 }).taskFreeSlot c

/-- What `task_exit_current` and `task_abort_from_trap` have in common. -/
def taskTerminate (exitCode : U32) : Option Kernel :=
  let k := { k with current := { k.current with active := false } }
  let exited := match k.activeSlot with
    | none => some k
    | some i =>
      (k.updSlot i fun t =>
        { t with state := k.current, status := .zombie, exitCode := exitCode }).taskWakeWaitingParents i
  exited.map fun k => { k with active := none }

/-- `task_exit_current`. -/
def taskExitCurrent (exitCode : U32) : Option Kernel :=
  (k.taskTerminate exitCode).map fun k => { k with fpu := { k.fpu with ts := false } }

/-- The task is ended by the trap with the number `intNo`. -/
def taskAbortFromTrap (intNo : U32) : Option Kernel := k.taskTerminate (128 + intNo)

/-! ## Memory -/

/-- `range_overlaps`. -/
def rangeOverlaps (baseA lenA baseB lenB : U32) : Bool :=
  !(decide (baseA + lenA ≤ baseB) || decide (baseB + lenB ≤ baseA))

/-- `task_mapping_overlaps`. -/
def taskMappingOverlaps (base length : U32) : Bool :=
  ((finRange taskMaxMmaps).any fun i =>
      (k.current.mappings i).used &&
        rangeOverlaps base length (k.current.mappings i).base (k.current.mappings i).length) ||
    (decide (userBase < k.current.brk) &&
      rangeOverlaps base length userBase (k.current.brk - userBase))

/-- The loop of `task_brk`: pages that are already there are kept. -/
def brkPages (pd : U32) : ℕ → PagingState → U32 → PagingState × Bool
  | 0, s, _ => (s, true)
  | n + 1, s, va =>
    if pageIsPresent s pd va then brkPages pd n s (va + 0x1000)
    else
      match pagingAllocUserPage s pd va (pteUser ||| pteRw) with
      | (s, false) => (s, false)
      | (s, true) => brkPages pd n s (va + 0x1000)

/-- `task_brk`. -/
def taskBrk (requested : U32) : Option (Kernel × U32) :=
  let brk := k.current.brk
  if !k.current.active ∧ brk = 0 then some (k, 0)
  else if requested = 0 then some (k, brk)
  else if requested < k.current.brkBase ∨ k.current.brkLimit ≤ requested then some (k, brk)
  else if brk < requested ∧ k.taskMappingOverlaps brk (requested - brk) then some (k, brk)
  else if brk < requested then
    let startPage := pageAlign (brk + 0xFFF)
    let endPage := pageAlign requested
    match brkPages (pageDirectoryGetCurrent k.paging)
        (pagesBelow startPage (endPage + 0x1000)) k.paging startPage with
    | (s, false) => some ({ k with paging := s }, brk)
    | (s, true) =>
      (storeUser s brk (replicate (requested - brk).toNat 0)).map fun s =>
        ({ k with paging := s, current := { k.current with brk := requested } }, requested)
  else some ({ k with current := { k.current with brk := requested } }, requested)

/-- What an `mmap` call depends on besides its arguments. -/
structure MmapFile where
  /-- Address of the data and capacity, for a file in memory. -/
  ramfile : Option (U32 × U32)
  /-- Physical address and size in bytes of the framebuffer. -/
  framebuffer : Option (U32 × U32)
  fileSize : U32
  /-- What `vfs_read` stores at the start of the mapping and returns. -/
  read : External

/-- The search for a free range, downwards from the top. -/
def mmapSearch (size : U32) : ℕ → U32 → U32
  | 0, base => base
  | n + 1, base =>
    if base < userMmapBase then base
    else if !k.taskMappingOverlaps base size then base
    else if base = userMmapBase then base
    else mmapSearch size n (base - 0x1000)

/-- The base address of a new mapping. -/
def mmapBase (addr size flags : U32) : Except ℤ U32 :=
  if hasFlag flags mapFixed then
    let base := pageAlign addr
    if base < userMmapBase ∨ userMmapTop < base + size ∨ k.taskMappingOverlaps base size then
      .error errInval
    else .ok base
  else
    let base := k.mmapSearch size 0x100000 (userMmapTop - size)
    if base < userMmapBase ∨ k.taskMappingOverlaps base size then .error errNomem else .ok base

/-- Maps existing frames, one for each page of the range. -/
def mapExistingPages (pd flags : U32) (frame : PagingState → U32 → Option U32) :
    ℕ → PagingState → U32 → U32 → PagingState × Bool
  | 0, s, _, _ => (s, true)
  | n + 1, s, base, page =>
    match frame s page with
    | none => (s, false)
    | some phys =>
      match pageMapExisting s pd (base + page) phys flags with
      | (s, false) => (s, false)
      | (s, true) => mapExistingPages pd flags frame n s base (page + 0x1000)

/-- The frame behind a page of a file's buffer. -/
def bufferFrame (pd buffer : U32) (s : PagingState) (page : U32) : Option U32 :=
  let phys := pageGetPhys s pd (buffer + page)
  if phys = 0 then none else some (phys &&& pageMask)

/-- The page tables of a new mapping, private contents included, and the length to record.  The
`page_unmap` calls after a failure change no entry. -/
def mmapPages (pd base size pageFlags flags pageOffset : U32) (kind : Option FdKind)
    (f : MmapFile) : Option (PagingState × Except ℤ U32) :=
  let fileOffset := pageOffset * 0x1000
  if kind = some .fb0 then
    match f.framebuffer with
    | none => some (k.paging, .error errInval)
    | some (fbPhys, fbSize) =>
      let mapSize := if size < fbSize then size else pageAlign (fbSize + 0xFFF)
      match mapExistingPages pd pageFlags (fun _ page => some (fbPhys + page))
          (pagesBelow 0 mapSize) k.paging base 0 with
      | (s, false) => some (s, .error errNomem)
      | (s, true) => some (s, .ok mapSize)
  else
    match (if kind.isSome then f.ramfile else none), hasFlag flags mapShared with
    | some (data, capacity), true =>
      if capacity < fileOffset + size then some (k.paging, .error errInval)
      else
        match mapExistingPages pd pageFlags (bufferFrame pd (data + fileOffset)) (pagesBelow 0 size)
            k.paging base 0 with
        | (s, false) => some (s, .error errNomem)
        | (s, true) => some (s, .ok size)
    | _, _ =>
      match allocUserPages pd pageFlags (pagesBelow base (base + size)) k.paging base with
      | (s, false) => some (s, .error errNomem)
      | (s, true) =>
        match storeUser s base (replicate size.toNat 0) with
        | none => none
        | some s =>
          if kind.isSome ∧ fileOffset < f.fileSize then
            if f.read.value < 0 then some (s, .error errIo)
            else (storeUser s base f.read.bytes).map fun s => (s, .ok size)
          else some (s, .ok size)

/-- The file a mapping is of: none for anonymous memory. -/
def mmapFd (flags : U32) (fd : ℤ) : Except ℤ (Option FdKind) :=
  if hasFlag flags mapAnonymous then .ok none
  else
    match fdSlot fd with
    | none => .error errBadf
    | some n =>
      let f := k.current.fds n
      if !f.used then .error errBadf
      else if f.kind ≠ .file ∧ f.kind ≠ .fb0 then .error errBadf
      else .ok (some f.kind)

/-- `task_mmap`. -/
def taskMmap (addr length prot flags : U32) (fd : ℤ) (pageOffset : U32) (f : MmapFile) :
    Option (Kernel × ℤ) :=
  let size := pageAlign (length + 0xFFF)
  let pd := pageDirectoryGetCurrent k.paging
  let pageFlags := if hasFlag prot protWrite then pteUser ||| pteRw else pteUser
  if size = 0 ∨ (!hasFlag flags mapShared ∧ !hasFlag flags mapPrivate) then some (k, errInval)
  else
    match k.mmapFd flags fd with
    | .error e => some (k, e)
    | .ok kind =>
      match (finRange taskMaxMmaps).find? fun i => !(k.current.mappings i).used with
      | none => some (k, errNomem)
      | some m =>
        match k.mmapBase addr size flags with
        | .error e => some (k, e)
        | .ok base =>
          match k.mmapPages pd base size pageFlags flags pageOffset kind f with
          | none => none
          | some (s, .error e) => some ({ k with paging := s }, e)
          | some (s, .ok length) =>
            some ({ k with
              paging := s
              current := { k.current with
                mappings := Function.update k.current.mappings m ⟨true, base, length⟩ } },
              base.toInt)

/-- The pages stay mapped: `paging_free_user_page` changes no entry. -/
def taskMunmap (addr length : U32) : Kernel × ℤ :=
  let size := pageAlign (length + 0xFFF)
  match (finRange taskMaxMmaps).find? fun i =>
      (k.current.mappings i).used && (k.current.mappings i).base = addr &&
        (k.current.mappings i).length = size with
  | none => (k, errInval)
  | some m =>
    ({ k with current := { k.current with
        mappings := Function.update k.current.mappings m .zero } }, 0)

/-! ## Running tasks -/

/-- `task_run_argv_alongside` up to its loop. -/
def runAlongside (prog : Program) : Option Kernel :=
  match ({ k with active := none, rrCursor := none } : Kernel).taskSpawnKernel none prog with
  | none => none
  | some (k, v) =>
    if v < 0 then some k
    else some { k with target := some (BitVec.ofInt 32 v), rrCursor := none }

/-- The end of `task_run_until_pid_exits`. -/
def finishRun (pid : U32) : Kernel :=
  let k := { k with paging := pageDirectorySwitchToKernel k.paging, active := none }
  let k := match k.slotForPid pid with
    | some i => k.taskFreeSlot i
    | none => k
  { k.taskRestoreKernelContext with target := none }

/-- The process the loop waits for is still there. -/
def targetAlive (pid : U32) : Bool :=
  match k.slotForPid pid with
  | some i => (k.slots i).status ≠ .zombie
  | none => false

/-- `task_resume_user` or the end of `task_timer_tick`: slot `i` goes on with `frame`, and its next
floating-point instruction will trap. -/
def resume (i : SlotId) (frame : Registers) : Kernel :=
  let k := ({ k with active := some i } : Kernel).slotActivate i
  { k with frame := frame, fpu := { k.fpu with ts := true } }

/-- One round of the loop of `task_run_until_pid_exits`. -/
def schedule (pid : U32) : Kernel :=
  if !k.targetAlive pid then k.finishRun pid
  else
    match k.taskWakeReadySlots.taskPickNextRunnable k.rrCursor with
    | (k, none) => k
    | (k, some i) => k.resume i (k.slots i).regs

/-- A frame whose general-purpose registers are all zero gets the instruction pointer in each. -/
def safetyNet (regs : Registers) : Registers :=
  if userBase + 0x100 ≤ regs.eip ∧ regs.eip < userLimit ∧ regs.eax = 0 ∧ regs.ebx = 0 ∧
      regs.ecx = 0 ∧ regs.edx = 0 ∧ regs.esi = 0 ∧ regs.edi = 0 ∧ regs.ebp = 0 then
    { regs with
      eax := regs.eip
      ebx := regs.eip
      ecx := regs.eip
      edx := regs.eip
      esi := regs.eip
      edi := regs.eip
      ebp := regs.eip }
  else regs

/-- The timer interrupt; `user` says whether it comes from user code. -/
def timerTick (user : Bool) (regs : Registers) : Kernel :=
  let k := ({ k with ticks := k.ticks + 1 } : Kernel).taskWakeReadySlots
  if !user ∨ k.active = none then k
  else if hasFlag k.ticks 1 then k
  else
    let current := k.activeSlot
    match current, k.taskPickNextRunnable k.active with
    | some i, (k, some j) =>
      if j = i then k
      else
        let k := (k.slotSaveState i regs).updSlot i fun t => { t with status := .runnable }
        if (k.slots j).regs.eip < userBase ∨ userLimit ≤ (k.slots j).regs.eip then k
        else k.resume j (safetyNet (k.slots j).regs)
    | _, (k, _) => k

end Kernel

end OpenHobbyOS
