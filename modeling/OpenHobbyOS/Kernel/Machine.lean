/-
# A small machine

A machine with memory for the allocator from 1 MiB to 64 MiB that runs one program without
segments.  Concrete runs start here.
-/
import OpenHobbyOS.Kernel.Loading

namespace OpenHobbyOS

open Paging TablesOwned FrameAllocator MapSystem Lib Function List BitVec

/-! ## Loading a program without segments -/

/-- A program without segments and arguments. -/
def idle : Program where
  argsOk := true
  file := .ok { size := 1, readable := true, valid := true, entry := userBase, headers := [] }
  bufferOk := true
  stack := some []
  argc := 0
  name := []
  path := []

/-- A program without segments. -/
def idleImage : ElfImage := ⟨userBase, 0, 0, 0, 0⟩

/-- The same program with another entry point. -/
def idleAt (entry : U32) : Program :=
  { idle with
    file := .ok { size := 1, readable := true, valid := true, entry := entry, headers := [] } }

/-- The same with another entry point. -/
def idleImageAt (entry : U32) : ElfImage := ⟨entry, 0, 0, 0, 0⟩

section Pages

variable {s : PagingState} {ds : Set U32} {role : U32 → Role} {pd flags : U32}

lemma pageIsPresent_withCr3 (hpd : pd ≠ 0) (c v : U32) :
    pageIsPresent { s with cr3 := c } pd v = pageIsPresent s pd v := by
  rw [pageIsPresent_eq _ hpd, pageIsPresent_eq _ hpd]
  rfl

lemma pagingAllocUserPage_ok (h : SpacesOwned s ds role) (hpd : pd ∈ ds) (flags va : U32)
    (hlo : 0x02000000 ≤ va.toNat) (hhi : va.toNat < 0x05000000) (hva : va.toNat % 4096 = 0)
    (hfree : 2 ≤ s.alloc.freeCount) :
    ∃ s', pagingAllocUserPage s pd va flags = (s', true) ∧
      s.alloc.freeCount ≤ s'.alloc.freeCount + 2 := by
  have hvirt : va < kernelVirtualBase := by
    rw [lt_def]
    change va.toNat < 0xC0000000
    omega
  rcases pagingAllocUserPage_spec h.tables (.inl hpd) va flags
      (fun _ => userIdx_of_toNat hlo hhi) hvirt
      (fun A _ => (A.low_iff.mpr h.low).nextLow A.wf) with
    ⟨-, hc⟩ | ⟨a, x, A, ⟨-, hwhy⟩ | ⟨s', role', heq, -, E⟩⟩
  · omega
  · have hc := (hwhy (isPageAligned_iff.mpr hva)).2
    have hcount := A.count
    omega
  · refine ⟨s', heq, ?_⟩
    have hcount := A.count
    have hE : s'.alloc.freeCount = a.freeCount - _ := E.freeCount
    split_ifs at hE <;> omega

lemma allocUserPages_ok (h : SpacesOwned s ds role) (hpd : pd ∈ ds) (flags : U32) (n : ℕ)
    (va : U32) (hlo : 0x02000000 ≤ va.toNat) (hhi : va.toNat + n * 4096 ≤ 0x05000000)
    (hva : va.toNat % 4096 = 0) (hfree : 2 * n ≤ s.alloc.freeCount) :
    ∃ s', allocUserPages pd flags n s va = (s', true) ∧
      s.alloc.freeCount ≤ s'.alloc.freeCount + 2 * n := by
  induction n generalizing s va role with
  | zero => exact ⟨s, rfl, by omega⟩
  | succ n ih =>
    obtain ⟨s₁, heq, hcount⟩ := pagingAllocUserPage_ok h hpd flags va hlo (by omega) hva
      (by omega)
    have P := h.allocUserPage hpd (userIdx_of_toNat hlo (by omega)) flags
    rw [heq] at P
    dsimp only at P
    obtain ⟨role₁, h₁⟩ := P.spaces
    have hnext := toNat_add_page (v := va) (by omega)
    obtain ⟨s₂, heq₂, hcount₂⟩ := ih h₁ (va + 0x1000#32) (by omega) (by omega) (by omega) (by omega)
    refine ⟨s₂, ?_, by omega⟩
    rw [allocUserPages, heq]
    exact heq₂

lemma loadImage_idleAt (entry : U32) (h : SpacesOwned s ds role) (hc : CanonicalCr3 s) {n : ℕ}
    (hn : n ≤ 64) (hfree : 2 * n + 1 ≤ s.alloc.freeCount) :
    ∃ s' pd, loadImage s (idleAt entry) n = some (s', .ok (pd, idleImageAt entry)) ∧
      s.alloc.freeCount ≤ s'.alloc.freeCount + (2 * n + 1) ∧
      ∀ v : U32, v.toNat < 0x04FFF000 - n * 4096 ∨ 0x04FFF000 ≤ v.toNat →
        UserIdx (virtToPdIndex v) → pageIsPresent s' pd v = false := by
  have htop := stackPages_toNat hn
  rcases h.create with hfull | ⟨s₁, pd, role₁, heq, hpd, E, h₁⟩
  · rcases pageDirectoryCreate_spec h.tables h.nextLow with ⟨-, hc0⟩ | ⟨s₁, pd, -, heq, hpd, -⟩
    · omega
    · rw [hfull] at heq
      cases heq
      exact absurd rfl hpd
  have hcount₁ : s₁.alloc.freeCount + 1 = s.alloc.freeCount := by
    have := E.count
    rw [E.alloc, freeCount_frameAlloc]
    omega
  have hcur : pageDirectoryGetCurrent s₁ = pageDirectoryGetCurrent s := by
    rw [pageDirectoryGetCurrent, pageDirectoryGetCurrent, E.kernelPd, E.cr3]
  have hmem : pd ∈ insert pd ds := Set.mem_insert pd ds
  have hbound : 0x02000000 ≤ (userStackTop - BitVec.ofNat 32 (n * pageSize)).toNat ∧
      (userStackTop - BitVec.ofNat 32 (n * pageSize)).toNat + n * 4096 ≤ 0x05000000 ∧
      (userStackTop - BitVec.ofNat 32 (n * pageSize)).toNat % 4096 = 0 := by omega
  have h₂ : SpacesOwned ({ s₁ with cr3 := s.cr3 } : PagingState) (insert pd ds) role₁ :=
    h₁.congr rfl rfl rfl rfl
  obtain ⟨s₃, hpages, hcount₃⟩ := allocUserPages_ok h₂ hmem (pteRw ||| pteUser) n _
    hbound.1 hbound.2.1 hbound.2.2 (by change 2 * n ≤ s₁.alloc.freeCount; omega)
  have P := allocUserPages_populated h₂.tables h₂.low hmem n _ hbound.1 hbound.2.1 hpages
  refine ⟨s₃, pd, ?_, ?_, fun v hv hu => ?_⟩
  · have helf : elfLoadPaged (pageDirectorySwitch s₁ pd) pd
        ⟨1, true, true, entry, []⟩ =
          some (pageDirectorySwitch s₁ pd, some (idleImageAt entry)) := by
      have hend : pageAlign (0 + 0xFFF) = 0 := by decide
      simp only [elfLoadPaged, loadHeaders, Bool.not_true, Bool.false_eq_true, if_false,
        Option.map_some, hend]
      rfl
    have hback : pageDirectorySwitch (pageDirectorySwitch s₁ pd) (pageDirectoryGetCurrent s) =
        { s₁ with cr3 := s.cr3 } := by
      rw [switch_back hc, pageDirectorySwitch, if_neg hpd]
    simp only [loadImage, idleAt, heq, if_neg hpd, hcur, helf, hback, hpages]
    rfl
  · change s₁.alloc.freeCount ≤ _ at hcount₃
    omega
  · rw [P.outside v (by rw [htop]; omega), pageIsPresent_eq _ hpd]
    have hzero : pte s₁ pd (virtToPdIndex v) (virtToPtIndex v) = 0 := by
      rw [pte, E.user hu]
      rfl
    change hasFlag (pte s₁ pd (virtToPdIndex v) (virtToPtIndex v)) ptePresent = false
    rw [hzero]
    decide

lemma storeUser_ok (T : TablesOwned s ds role) (hpd : pd ∈ ds) (hcr3 : s.cr3 = physOf pd)
    (bs : List U8) (addr : U32) (hlo : 0x02000000 ≤ addr.toNat)
    (hhi : addr.toNat + bs.length ≤ 0x05000000)
    (hpages : ∀ v : U32, addr.toNat ≤ v.toNat → v.toNat < addr.toNat + bs.length →
      pageIsPresent s pd v = true) :
    ∃ s', storeUser s addr bs = some s' := by
  induction bs generalizing s addr with
  | nil => exact ⟨s, rfl⟩
  | cons b bs ih =>
    rw [length_cons] at hhi hpages
    have hnext : (addr + 1).toNat = addr.toNat + 1 :=
      toNat_add_of_lt (by change addr.toNat + 1 < 2 ^ 32; omega)
    have hrange : userBase ≤ addr ∧ addr < userLimit := by
      rw [le_def, lt_def]
      change 0x02000000 ≤ addr.toNat ∧ addr.toNat < 0x05000000
      omega
    have hhere := hpages addr le_rfl (by omega)
    rw [pageIsPresent_eq s (T.dir_ne_zero hpd)] at hhere
    rw [storeUser, if_pos hrange, translate_eq T hpd hcr3]
    simp only [hhere, Bool.not_true, Bool.false_eq_true, if_false, Bool.false_and]
    have T' : ∀ bytes, TablesOwned { s with bytes := bytes } ds role :=
      fun _ => T.congr rfl rfl fun _ => by simp [PagingState.entry]
    generalize update s.bytes _ b = bytes
    refine ih (T' bytes) hcr3 (addr + 1) (by omega) (by omega) fun v hv hv' => ?_
    exact hpages v (by omega) (by omega)

/-- The directory has a thread-local page of its own. -/
def OwnsTls (s : PagingState) (pd : U32) : Prop :=
  hasFlag (pte s pd 19 1023) ptePresent = true ∧ hasFlag (pte s pd 19 1023) pteAllocated = true

lemma pagingAllocUserPage_ownsTls (h : SpacesOwned s ds role) (hpd : pd ∈ ds) {s' : PagingState}
    (hok : pagingAllocUserPage s pd userTlsAddr flags = (s', true)) : OwnsTls s' pd := by
  rcases pagingAllocUserPage_spec h.tables (.inl hpd) userTlsAddr flags (fun _ => by decide)
      (by decide) (fun A _ => (A.low_iff.mpr h.low).nextLow A.wf) with
    ⟨heq, -⟩ | ⟨a, x, A, ⟨heq, -⟩ | ⟨s₁, role', heq, -, E⟩⟩
  · rw [heq] at hok
    cases hok
  · rw [heq] at hok
    cases hok
  · rw [heq] at hok
    cases hok
    have hself := E.self
    have hi : virtToPdIndex userTlsAddr = 19 := by decide
    have hj : virtToPtIndex userTlsAddr = 1023 := by decide
    rw [hi, hj] at hself
    rw [OwnsTls, hself]
    exact ⟨entryCreate_or_present _ _ _ (by decide), entryCreate_or_allocated _ _ _ (by decide)⟩

lemma finishImage_idle (h : SpacesOwned s ds role) (hpd : pd ∈ ds) (oldPd : U32)
    (hfree : 2 ≤ s.alloc.freeCount) :
    ∃ s', finishImage s pd oldPd idleImage (some []) = some (s', true) ∧
      finishImage s pd oldPd idleImage none =
        some (pageDirectoryDestroy (pageDirectorySwitch s' oldPd) pd, false) ∧
      s.alloc.freeCount ≤ s'.alloc.freeCount + 2 ∧ OwnsTls s' pd ∧
      ∀ v : U32, v.toNat < 0x04FFF000 → pageIsPresent s' pd v = pageIsPresent s pd v := by
  have hpd0 := h.tables.dir_ne_zero hpd
  have hswitch : pageDirectorySwitch s pd = { s with cr3 := physOf pd } := by
    rw [pageDirectorySwitch, if_neg hpd0]
  have h₁ : SpacesOwned ({ s with cr3 := physOf pd } : PagingState) ds role :=
    h.congr rfl rfl rfl rfl
  obtain ⟨s₂, hpage, hcount⟩ := pagingAllocUserPage_ok h₁ hpd (pteRw ||| pteUser)
    userTlsAddr (by decide) (by decide) (by decide) hfree
  have P := pagingAllocUserPage_populated h₁.tables h₁.low hpd (by decide) (by decide) hpage
  obtain ⟨role₂, T₂⟩ := P.tables
  have htls : (userTlsAddr + 0x14).toNat = 0x04FFF014 := by decide
  have hlen : (wordBytes 0xFF0A0000).length = 4 := rfl
  obtain ⟨s₃, hstore⟩ := storeUser_ok T₂ hpd P.cr3 (wordBytes 0xFF0A0000) (userTlsAddr + 0x14)
    (by omega) (by omega) fun v hv hv' =>
      P.inside v (by change 0x04FFF000 ≤ _; omega) (by change _ < 0x04FFF000 + 4096; omega)
  have hsetup : setupTls s₂ idleImage = some s₃ := hstore
  have hown := pagingAllocUserPage_ownsTls h₁ hpd hpage
  refine ⟨s₃, ?_, ?_, ?_, ?_, fun v hv => ?_⟩
  · simp only [finishImage, hswitch, hpage, hsetup]
    rfl
  · simp only [finishImage, hswitch, hpage, hsetup]
  · rw [storeUser_eq hstore]
    exact hcount
  · rw [storeUser_eq hstore]
    exact hown
  · rw [(P.store hstore).outside v (.inl hv), pageIsPresent_withCr3 hpd0]

end Pages

/-! ## Starting it -/

/-- The state and the slot of the program `pid` with the directory `d`. -/
def idleState (pid : U32) : TaskState := Kernel.seededState pid none idle idleImage

/-- The slot of the program. -/
def idleSlot (pid d : U32) : TaskSlot where
  used := true
  seeded := true
  status := .runnable
  parentPid := 0
  exitCode := 0
  waitPid := 0
  waitStatusPtr := 0
  wakeTick := 0
  state := idleState pid
  regs := Kernel.seededRegs idle idleImage
  pageDirectory := d
  pageDirectoryPhys := physOf d
  tlsVaddr := userTlsAddr

/-- The slot of the program with another entry point. -/
def idleSlotAt (entry pid d : U32) : TaskSlot :=
  { idleSlot pid d with
    state := Kernel.seededState pid none (idleAt entry) (idleImageAt entry)
    regs := Kernel.seededRegs (idleAt entry) (idleImageAt entry) }

namespace Kernel

variable {i : SlotId} {role : U32 → Role} {c d : U32} {s : PagingState}

lemma idleState_fds (pid : U32) (fd : FdId) :
    ((idleState pid).fds fd).socketRef = none ∧ ((idleState pid).fds fd).pipeRef = none := by
  simp only [idleState, seededState, resetDescriptors]
  split_ifs <;> exact ⟨rfl, rfl⟩

lemma slotSaveState_idle {k : Kernel} (pid : U32) (hk : k.current.fds = (idleState pid).fds)
    (i : SlotId) (regs : Registers) :
    k.slotSaveState i regs =
      k.updSlot i fun t => { t with state := k.current, regs := regs, seeded := true } := by
  have hfds := fun fd => hk ▸ idleState_fds pid fd
  rw [slotSaveState_eq]
  simp [socketEntries, pipeEntries, hfds, updSlot]

/-- **Starting the program** on a machine with enough memory. -/
lemma taskSpawnKernel_idleAt (entry : U32) {k : Kernel} {ds : Set U32}
    (h : SpacesOwned k.paging ds role) (hc : CanonicalCr3 k.paging)
    (hi : ((List.finRange taskMaxSlots).find? fun j => !(k.slots j).used) = some i)
    (hfree : 131 ≤ k.paging.alloc.freeCount) :
    ∃ s d, k.taskSpawnKernel none (idleAt entry) =
        some ({ k with
          paging := s
          slots := update k.slots i (idleSlotAt entry k.nextPid d)
          current := (idleSlotAt entry k.nextPid d).state
          nextPid := k.nextPid + 1 }, k.nextPid.toInt) ∧
      NewSpace k.paging s ds d ∧ s.cr3 = k.paging.cr3 ∧
      k.paging.alloc.freeCount ≤ s.alloc.freeCount + 131 ∧ OwnsTls s d ∧
      ∀ v : U32, v.toNat < 0x04FBF000 → UserIdx (virtToPdIndex v) →
        pageIsPresent s d v = false := by
  obtain ⟨s₁, d, hload, hcount₁, habsent⟩ := loadImage_idleAt entry h hc (le_refl 64) (by omega)
  obtain ⟨N, hcr3⟩ : NewSpace k.paging s₁ ds d ∧ s₁.cr3 = k.paging.cr3 := by
    rcases loadImage_spec h hc (le_refl 64) hload with ⟨_, he, -⟩ | ⟨_, _, he, N, hcr3⟩
    · cases he
    · cases he
      exact ⟨N, hcr3⟩
  obtain ⟨role₁, h₁⟩ := N.spaces
  have hd := h₁.tables.dir_ne_zero (Set.mem_insert d ds)
  obtain ⟨s₂, hfin, -, hcount₂, hown, hsame⟩ := finishImage_idle h₁ (Set.mem_insert d ds)
    (pageDirectoryGetCurrent k.paging) (by omega)
  obtain ⟨N₂, -⟩ : NewSpace k.paging s₂ ds d ∧ s₂.cr3 = physOf d := by
    rcases finishImage_spec N hd hc hfin with ⟨hok, -⟩ | ⟨-, N₂, hcr3₂⟩
    · cases hok
    · exact ⟨N₂, hcr3₂⟩
  refine ⟨{ s₂ with cr3 := k.paging.cr3 }, d, ?_, N₂.withCr3 _, rfl, ?_, hown, fun v hv hu => ?_⟩
  · have halloc : k.taskAllocSlot = some (k.updSlot i fun _ => { TaskSlot.zero with used := true },
        i) := by
      rw [taskAllocSlot, hi]
      rfl
    have hstack : (idleAt entry).stack = some [] := rfl
    have hfin' : finishImage s₁ d (pageDirectoryGetCurrent k.paging) (idleImageAt entry)
        (some []) = some (s₂, true) := hfin
    simp only [taskSpawnKernel, halloc, taskSeedSlot, updSlot_paging, hload, hstack, hfin',
      switch_back hc]
    rw [slotSaveState_idle k.nextPid rfl, if_neg (by decide)]
    simp only [updSlot, update_self, update_idem]
    rfl
  · change k.paging.alloc.freeCount ≤ s₂.alloc.freeCount + 131
    omega
  · rw [pageIsPresent_withCr3 hd, hsame v (by omega)]
    exact habsent v (.inl hv) hu

/-! ## The running machine -/

/-- The kernel once the program, with the directory `d`, runs. -/
def started (s : PagingState) (d : U32) : Kernel where
  paging := s
  slots := update (fun _ => .zero) 0 (idleSlot 2 d)
  current := idleState 2
  active := some 0
  rrCursor := some 0
  nextPid := 3
  ticks := 0
  sockets := fun _ => .zero
  pipes := fun _ => .zero
  target := some 2
  frame := seededRegs idle idleImage
  fpu := ⟨fpuInit, true, none⟩

/-- The kernel before the scheduler has chosen the program. -/
def loaded (s : PagingState) (d : U32) : Kernel :=
  { started s d with
    active := none
    rrCursor := none
    frame := .zero
    fpu := ⟨fpuInit, false, none⟩ }

/-- What is known of its memory. -/
structure StartedMemory (s : PagingState) (d : U32) : Prop where
  spaces : ∃ role, SpacesOwned s {d} role
  cr3 : s.cr3 = physOf d
  free : 14000 ≤ s.alloc.freeCount
  tls : OwnsTls s d
  absent : ∀ v : U32, v.toNat < 0x04FBF000 → UserIdx (virtToPdIndex v) →
    pageIsPresent s d v = false

lemma StartedMemory.getCurrent (M : StartedMemory s d) : pageDirectoryGetCurrent s = d := by
  obtain ⟨role, h⟩ := M.spaces
  exact pageDirectoryGetCurrent_eq h.tables (Set.mem_singleton d) M.cr3

lemma taskWakeReadySlots_eq {k : Kernel} (h : ∀ i, k.due (k.slots i) = false) :
    k.taskWakeReadySlots = k := by
  have hslots : (fun i => if k.due (k.slots i) then
      { k.slots i with status := .runnable, wakeTick := 0 } else k.slots i) = k.slots := by
    funext i
    rw [h i, if_neg (by decide)]
  rw [taskWakeReadySlots, hslots]

lemma canonicalCr3_kernel {ds : Set U32} (h : SpacesOwned s ds role) (hcr3 : s.cr3 = s.kernelPd) :
    CanonicalCr3 s := by
  have T := h.tables
  have hcur : pageDirectoryGetCurrent s = s.kernelPd := by
    rw [pageDirectoryGetCurrent, if_pos ⟨T.kernel.1, hcr3⟩]
  rw [CanonicalCr3, hcur, T.kernelPtr]
  exact ⟨T.kernel.1, hcr3.symm⟩

lemma pagingInit_memory :
    (∃ role, SpacesOwned (pagingInit smallBoot blank) ∅ role) ∧
      CanonicalCr3 (pagingInit smallBoot blank) ∧
      14800 ≤ (pagingInit smallBoot blank).alloc.freeCount := by
  have hend : smallBoot.userMemEnd.toNat ≤ 0x40000000 := by decide
  obtain ⟨hboot, -⟩ := pagingInit_booted smallBoot_wellFormed (fun {s} h => by
    obtain ⟨role, T⟩ := h.owned
    exact (h.low smallBoot_wellFormed hend).nextLow T.wf) blank
  obtain ⟨role, T⟩ := hboot.owned
  have hcr3 : (pagingInit smallBoot blank).cr3 = (pagingInit smallBoot blank).kernelPd := rfl
  have hcount := kernelPdeCount_le (pagingInit smallBoot blank)
  have hlow := hboot.low smallBoot_wellFormed hend
  have hfree := hboot.filled.freeCount
  have hfirst : smallBoot.firstFrame = 256 := by decide
  have htotal : smallBoot.totalFrames = 16128 := by decide
  rw [hboot.total, hfirst, htotal] at hfree
  generalize pagingInit smallBoot blank = s at *
  have hspaces : SpacesOwned s ∅ role := ⟨T, hlow, fun hd => hd.elim⟩
  exact ⟨⟨role, hspaces⟩, canonicalCr3_kernel hspaces hcr3, by omega⟩

lemma resume_eq {k : Kernel} (hseed : (k.slots i).seeded = true)
    (hd : (k.slots i).pageDirectory ≠ 0) (hphys : (k.slots i).pageDirectoryPhys ≠ 0)
    (frame : Registers) :
    k.resume i frame =
      { k with
        active := some i
        paging := { k.paging with cr3 := (k.slots i).pageDirectoryPhys }
        current := (k.slots i).state
        frame := frame
        fpu := { k.fpu with ts := true } } := by
  have hpaging : (if (k.slots i).pageDirectory ≠ 0 ∧ (k.slots i).pageDirectoryPhys ≠ 0 then
      { k.paging with cr3 := (k.slots i).pageDirectoryPhys } else k.paging) =
      { k.paging with cr3 := (k.slots i).pageDirectoryPhys } := if_pos ⟨hd, hphys⟩
  simp only [resume, slotActivate, hseed, Bool.not_true, Bool.false_eq_true, if_false, hpaging]

lemma step_run {k k' : Kernel} {prog : Program} {v : ℤ}
    (hidle : k.active = none ∧ k.target = none) (hcursor : k.rrCursor = none)
    (h : k.taskSpawnKernel none prog = some (k', v)) (hv : ¬ v < 0) :
    k.step (.run prog) = some { k' with target := some (BitVec.ofInt 32 v), rrCursor := none } := by
  have hk : ({ k with active := none, rrCursor := none } : Kernel) = k := by
    cases k
    cases hidle.1
    cases hcursor
    rfl
  rw [step, if_pos hidle, runAlongside, hk, h]
  exact if_neg hv

lemma schedule_eq {k : Kernel} (i : SlotId) (pid : U32) (ha : k.active = none)
    (ht : k.target = some pid) (halive : k.targetAlive pid = true)
    (hdue : ∀ i, k.due (k.slots i) = false)
    (hpick : k.taskPickNextRunnable k.rrCursor = ({ k with rrCursor := some i }, some i))
    (hseed : (k.slots i).seeded = true) (hd : (k.slots i).pageDirectory ≠ 0)
    (hphys : (k.slots i).pageDirectoryPhys ≠ 0) :
    k.step .schedule = some
      { k with
        active := some i
        rrCursor := some i
        paging := { k.paging with cr3 := (k.slots i).pageDirectoryPhys }
        current := (k.slots i).state
        frame := (k.slots i).regs
        fpu := { k.fpu with ts := true } } := by
  have hround : k.schedule pid = ({ k with rrCursor := some i } : Kernel).resume i
      (k.slots i).regs := by
    simp only [schedule, halive, taskWakeReadySlots_eq hdue, hpick, Bool.not_true,
      Bool.false_eq_true, if_false]
  have hstep : k.step .schedule = some (k.schedule pid) := by
    simp only [step, ha, ht]
  rw [hstep, hround]
  exact congrArg some (resume_eq (k := { k with rrCursor := some i }) hseed hd hphys _)

lemma loaded_schedule (s : PagingState) (hd : d ≠ 0) (hphys : physOf d ≠ 0) :
    (loaded s d).step .schedule = some (started { s with cr3 := physOf d } d) := by
  refine schedule_eq 0 2 rfl rfl rfl (fun i => ?_) rfl rfl hd hphys
  change (loaded s d).due (update (fun _ => TaskSlot.zero) 0 (idleSlot 2 d) i) = false
  rw [update_apply]
  split_ifs <;> rfl

lemma boot_run {b : BootInfo} {s₀ : PagingState} (h : SpacesOwned (pagingInit b s₀) ∅ role)
    (hc : CanonicalCr3 (pagingInit b s₀)) (hfree : 14800 ≤ (pagingInit b s₀).alloc.freeCount) :
    ∃ s₁ s d, (boot b s₀).step (.run idle) = some (loaded s₁ d) ∧
      (loaded s₁ d).step .schedule = some (started s d) ∧ StartedMemory s d := by
  obtain ⟨s, d, hspawn, N, hcr3, hcount, hown, habsent⟩ :=
    taskSpawnKernel_idleAt userBase (k := boot b s₀) (i := 0) h hc rfl
      (by change 131 ≤ (pagingInit b s₀).alloc.freeCount; omega)
  obtain ⟨role', h'⟩ := N.spaces
  have hset : insert d (∅ : Set U32) = {d} := by simp
  rw [hset] at h'
  have hd0 := h'.tables.dir_ne_zero (Set.mem_singleton d)
  have hphys0 : physOf d ≠ 0 :=
    (h'.tables.managed (by rw [(h'.tables.dir (Set.mem_singleton d)).2]; simp)).ne_zero h'.tables.wf
  refine ⟨s, { s with cr3 := physOf d }, d, ?_, loaded_schedule s hd0 hphys0,
    ⟨role', h'.congr rfl rfl rfl rfl⟩, rfl, ?_, hown,
    fun v hv hu => by rw [pageIsPresent_withCr3 hd0]; exact habsent v hv hu⟩
  · exact step_run ⟨rfl, rfl⟩ rfl hspawn (show ¬ (2 : U32).toInt < 0 by decide)
  · change 14000 ≤ s.alloc.freeCount
    change (pagingInit b s₀).alloc.freeCount ≤ _ at hcount
    omega

/-- **The small machine gets going.** -/
lemma exists_loaded :
    ∃ s₁ s d, (boot smallBoot blank).step (.run idle) = some (loaded s₁ d) ∧
      (loaded s₁ d).step .schedule = some (started s d) ∧ StartedMemory s d := by
  obtain ⟨⟨role, h⟩, hc, hfree⟩ := pagingInit_memory
  exact boot_run h hc hfree

lemma exists_started :
    ∃ s d, run step (boot smallBoot blank) [.run idle, .schedule] = some (started s d) ∧
      StartedMemory s d := by
  obtain ⟨s₁, s, d, hrun, hschedule, M⟩ := exists_loaded
  exact ⟨s, d, run_cons_eq_some.mpr ⟨_, hrun, run_cons_eq_some.mpr ⟨_, hschedule, rfl⟩⟩, M⟩

end Kernel

end OpenHobbyOS
