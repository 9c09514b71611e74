/-
# Isolation of address spaces

Runs of the mapping operations from the state `paging_init` leaves.  As long as the allocator's
region ends at or below 1 GiB, a mapping changes one page of one directory.  Above 1 GiB the
kernel's pointer `KERNEL_VIRTUAL_BASE + phys` wraps around, and a new table overwrites a table of
another directory.
-/
import OpenHobbyOS.Lib.Run
import OpenHobbyOS.Paging.Init

namespace OpenHobbyOS.Paging

open PagingState FrameAllocator TablesOwned Lib Option

/-- The paging state with the directories created so far. -/
structure MapSystem where
  paging : PagingState
  dirs : List U32

/-- A mapping operation. -/
inductive MapOp where
  | create
  | map (pd virt phys flags : U32)
  | mapExisting (pd virt phys flags : U32)
  | allocUserPage (pd virt flags : U32)

/-- A page-aligned address of the user range. -/
def UserPage (virt : U32) : Prop :=
  isPageAligned virt = true ∧ userBase ≤ virt ∧ virt < userLimit

instance (virt : U32) : Decidable (UserPage virt) := inferInstanceAs (Decidable (_ ∧ _))

namespace MapSystem

variable {σ : MapSystem} {pd virt : U32}

/-- The directories a caller can name: the created ones and the kernel's. -/
def Directory (σ : MapSystem) (pd : U32) : Prop := pd ∈ σ.dirs ∨ pd = σ.paging.kernelPd

instance (σ : MapSystem) (pd : U32) : Decidable (σ.Directory pd) :=
  inferInstanceAs (Decidable (_ ∨ _))

/-- A call on a directory of the system, at a page of the user range. -/
def step (σ : MapSystem) : MapOp → Option MapSystem
  | .create =>
    let (s, d) := pageDirectoryCreate σ.paging
    some { paging := s, dirs := if d = 0 then σ.dirs else d :: σ.dirs }
  | .map pd virt phys flags =>
    if σ.Directory pd ∧ UserPage virt then
      some { σ with paging := (pageMap σ.paging pd virt phys flags).1 }
    else none
  | .mapExisting pd virt phys flags =>
    if σ.Directory pd ∧ UserPage virt then
      some { σ with paging := (pageMapExisting σ.paging pd virt phys flags).1 }
    else none
  | .allocUserPage pd virt flags =>
    if σ.Directory pd ∧ UserPage virt then
      some { σ with paging := (pagingAllocUserPage σ.paging pd virt flags).1 }
    else none

/-- The state after `paging_init`: no directory but the kernel's. -/
def init (b : BootInfo) (s : PagingState) : MapSystem := { paging := pagingInit b s, dirs := [] }

lemma step_create {s' : PagingState} {d : U32} (h : pageDirectoryCreate σ.paging = (s', d))
    (hd : d ≠ 0) :
    σ.step .create = some { paging := s', dirs := d :: σ.dirs } := by
  simp only [step, h, hd, if_false]

/-- The tables of all directories are owned, and no frame lies above 1 GiB. -/
def Owned (σ : MapSystem) : Prop :=
  σ.paging.alloc.Low ∧ ∃ role, TablesOwned σ.paging {d | d ∈ σ.dirs} role

lemma userPage_userIdx (h : UserPage virt) : UserIdx (virtToPdIndex virt) :=
  userIdx_of_range h.2.1 h.2.2

lemma Owned.mapPage (h : σ.Owned) (hpd : σ.Directory pd) (hv : UserPage virt)
    (own phys flags : U32) :
    Owned { σ with paging := (mapPage own σ.paging pd virt phys flags).1 } := by
  obtain ⟨hlow, role, T⟩ := h
  rcases mapPage_spec T hpd own virt phys flags
      (fun _ => userPage_userIdx hv) (fun _ => hlow.nextLow T.wf) with
    ⟨heq, -⟩ | ⟨s', role', heq, -, -, -, E⟩
  · rw [heq]
    exact ⟨hlow, role, T⟩
  · rw [heq]
    exact ⟨E.low hlow, role', E.owned⟩

lemma Owned.allocUserPage (h : σ.Owned) (hpd : σ.Directory pd) (hv : UserPage virt) (flags : U32) :
    Owned { σ with paging := (pagingAllocUserPage σ.paging pd virt flags).1 } := by
  obtain ⟨hlow, role, T⟩ := h
  have hvirt : virt < kernelVirtualBase := BitVec.lt_trans hv.2.2 (by decide)
  rcases pagingAllocUserPage_spec T hpd virt flags (fun _ => userPage_userIdx hv) hvirt
      (fun A _ => (A.low_iff.mpr hlow).nextLow A.wf) with
    ⟨heq, -⟩ | ⟨a, x, A, ⟨heq, -⟩ | ⟨s', role', heq, -, E⟩⟩
  · rw [heq]
    exact ⟨hlow, role, T⟩
  · rw [heq]
    exact ⟨low_frameFree.mpr (A.low_iff.mpr hlow), role,
      (T.alloc A).free A.aligned (T.free_of_not_marked A.unmarked)⟩
  · rw [heq]
    exact ⟨E.low (A.low_iff.mpr hlow), role', E.owned⟩

lemma Owned.step {σ' : MapSystem} {op : MapOp} (h : σ.Owned) (hstep : σ.step op = some σ') :
    σ'.Owned := by
  cases op with
  | create =>
    obtain ⟨hlow, role, T⟩ := h
    simp only [MapSystem.step, some.injEq] at hstep
    subst hstep
    rcases pageDirectoryCreate_spec T (hlow.nextLow T.wf) with
      ⟨heq, -⟩ | ⟨s', d, role', heq, hd, E⟩
    · simp only [heq, if_true]
      exact ⟨hlow, role, T⟩
    · simp only [heq, hd, if_false]
      refine ⟨?_, role', ?_⟩
      · rw [E.alloc]
        exact low_frameAlloc.mpr hlow
      · have hset : {d' | d' ∈ d :: σ.dirs} = insert d {d' | d' ∈ σ.dirs} := by
          ext d'
          simp
        rw [hset]
        exact E.owned
  | map pd virt phys flags | mapExisting pd virt phys flags =>
    simp only [MapSystem.step, ite_none_right_eq_some, some.injEq] at hstep
    obtain ⟨⟨hpd, hv⟩, rfl⟩ := hstep
    exact h.mapPage hpd hv _ phys flags
  | allocUserPage pd virt flags =>
    simp only [MapSystem.step, ite_none_right_eq_some, some.injEq] at hstep
    obtain ⟨⟨hpd, hv⟩, rfl⟩ := hstep
    exact h.allocUserPage hpd hv flags

lemma owned_init {b : BootInfo} (hb : b.WellFormed) (hend : b.userMemEnd.toNat ≤ 0x40000000)
    (s : PagingState) : (init b s).Owned := by
  have hnext : ∀ {s}, Booted b s → s.alloc.NextLow := by
    intro s h
    obtain ⟨role, T⟩ := h.owned
    exact (h.low hb hend).nextLow T.wf
  obtain ⟨h, -⟩ := pagingInit_booted hb hnext s
  obtain ⟨role, T⟩ := h.owned
  have hset : {d | d ∈ (init b s).dirs} = ∅ := by
    ext d
    simp [init]
  exact ⟨h.low hb hend, role, hset ▸ T⟩

/-! ## The isolation theorem -/

/-- **Isolation.**  From `paging_init` on a region that ends at or below 1 GiB, after any run of the
mapping operations, a successful `page_map` translates its page as asked and changes no other
translation of any directory. -/
theorem pageMap_isolated {b : BootInfo} (hb : b.WellFormed)
    (hend : b.userMemEnd.toNat ≤ 0x40000000) (s : PagingState) {ops : List MapOp} {σ : MapSystem}
    (hrun : run step (init b s) ops = some σ) {pd virt phys flags : U32}
    (hpd : σ.Directory pd) (hv : UserPage virt)
    (hmap : (pageMap σ.paging pd virt phys flags).2 = true) :
    (∀ o : U32, o.toNat < 4096 →
        pageGetPhys (pageMap σ.paging pd virt phys flags).1 pd (virt + o) = phys + o) ∧
      (∀ w, pageAlign w ≠ virt →
        pageGetPhys (pageMap σ.paging pd virt phys flags).1 pd w = pageGetPhys σ.paging pd w) ∧
      ∀ d, σ.Directory d → d ≠ pd → ∀ w,
        pageGetPhys (pageMap σ.paging pd virt phys flags).1 d w = pageGetPhys σ.paging d w := by
  obtain ⟨hlow, role, T⟩ : σ.Owned := run_invariant (fun h hs => h.step hs) (owned_init hb hend s) hrun
  have hu := userPage_userIdx hv
  rcases mapPage_spec T hpd (ptePresent ||| pteAllocated) virt phys flags
      (fun _ => hu) (fun _ => hlow.nextLow T.wf) with
    ⟨heq, -⟩ | ⟨s', role', heq, -, hphys, -, E⟩
  · rw [pageMap, heq] at hmap
    cases hmap
  · have hpres : hasFlag (entryCreate phys (flags ||| (ptePresent ||| pteAllocated))) ptePresent
        = true := by
      rw [hasFlag_present, entryCreate_bit _ _ (by decide), BitVec.getLsbD_or]
      simp [ptePresent, pteAllocated]
    rw [pageMap, heq]
    refine ⟨fun o ho => ?_, fun w hw => ?_, fun d hd hne w => ?_⟩
    · obtain ⟨h1, h2, h3⟩ := index_add_offset hv.1 ho
      rw [pageGetPhys_eq _ (T.known_ne_zero hpd), h1, h2, h3, E.self, if_pos hpres,
        entryGetPhys_entryCreate_of_aligned hphys]
    · rw [pageGetPhys_eq _ (T.known_ne_zero hpd), pageGetPhys_eq _ (T.known_ne_zero hpd),
        E.other hpd (virtToPdIndex_lt w)]
      -- equal indices would put `w` in the page
      by_contra hsame
      push Not at hsame
      apply hw
      rw [pageAlign_eq_of_index hsame.1 hsame.2.1]
      exact and_pageMask_of_aligned hv.1
    · rw [pageGetPhys_eq _ (T.known_ne_zero hd), pageGetPhys_eq _ (T.known_ne_zero hd),
        E.other hd (virtToPdIndex_lt w) (.inr (.inr ⟨hu, hne⟩))]

/-- Memory before `paging_init`. -/
def blank : PagingState :=
  { alloc := frameAllocInit 0 0 0, tables := fun _ _ => 0, bytes := fun _ => 0,
    kernelPd := 0, active := false, cr3 := 0 }

/-- A machine with memory from 1 MiB to 64 MiB for the allocator. -/
def smallBoot : BootInfo :=
  { userMemStart := 0x100000, userMemEnd := 0x4000000, kernelPd := 0x80000, framebuffer := none }

lemma smallBoot_wellFormed : smallBoot.WellFormed :=
  ⟨by decide, by decide, by decide, by decide, by decide⟩

/-- On the small machine a page of a fresh process directory is translated as asked. -/
theorem pageMap_isolated_small :
    ∃ σ d, run step (init smallBoot blank) [.create] = some σ ∧ d ∈ σ.dirs ∧
      (pageMap σ.paging d userBase 0x3000000 pteUser).2 = true ∧
      pageGetPhys (pageMap σ.paging d userBase 0x3000000 pteUser).1 d (userBase + 5) =
        0x3000000 + 5 := by
  have hend : smallBoot.userMemEnd.toNat ≤ 0x40000000 := by decide
  have hnext : ∀ {s}, Booted smallBoot s → s.alloc.NextLow := by
    intro s h
    obtain ⟨role, T⟩ := h.owned
    exact (h.low smallBoot_wellFormed hend).nextLow T.wf
  obtain ⟨hboot, -⟩ := pagingInit_booted smallBoot_wellFormed hnext blank
  obtain ⟨role, T⟩ := hboot.owned
  have hcount := kernelPdeCount_le (pagingInit smallBoot blank)
  have hfirst : smallBoot.firstFrame = 256 := by decide
  have htotal : smallBoot.totalFrames = 16128 := by decide
  have hfree := hboot.filled.freeCount
  rw [hboot.total, hfirst, htotal] at hfree
  rcases pageDirectoryCreate_spec T (hnext hboot) with ⟨-, hc⟩ | ⟨s', d, role', heq, hd, E⟩
  · omega
  · have hrun : run step (init smallBoot blank) [.create] = some ⟨s', [d]⟩ :=
      run_cons_eq_some.mpr ⟨_, step_create heq hd, rfl⟩
    have hv : UserPage userBase := by decide
    have hmem : Directory ⟨s', [d]⟩ d := .inl (by simp)
    have hlow : s'.alloc.Low := by
      rw [E.alloc]
      exact low_frameAlloc.mpr (hboot.low smallBoot_wellFormed hend)
    have hmap : (pageMap s' d userBase 0x3000000 pteUser).2 = true := by
      rcases mapPage_spec E.owned (.inl (Set.mem_insert d ∅)) (ptePresent ||| pteAllocated) userBase
          0x3000000 pteUser
          (fun _ => userPage_userIdx hv) (fun _ => hlow.nextLow E.owned.wf) with
        ⟨-, hwhy⟩ | ⟨s'', role'', heq', -⟩
      · obtain ⟨-, hc⟩ := hwhy (by decide) (by decide)
        rw [E.alloc, freeCount_frameAlloc] at hc
        omega
      · rw [pageMap, heq']
    refine ⟨⟨s', [d]⟩, d, hrun, by simp, hmap, ?_⟩
    exact (pageMap_isolated smallBoot_wellFormed hend blank hrun hmem hv hmap).1 5 (by decide)

/-! ## Above 1 GiB -/

/-- A machine whose allocator manages the memory from 80 MiB to 2 GiB. -/
def largeBoot : BootInfo :=
  { userMemStart := 0x5000000, userMemEnd := 0x80000000, kernelPd := 0x400000, framebuffer := none }

lemma largeBoot_wellFormed : largeBoot.WellFormed :=
  ⟨by decide, by decide, by decide, by decide, by decide⟩

/-- `A` has the table `X` at the first entry of the user range, `B` has none there, and `n` frames
are marked. -/
structure TwoDirs (σ : MapSystem) (A B X : U32) (n : ℕ) : Prop where
  dirs : σ.dirs = [B, A]
  active : σ.paging.active = true
  owned : ∃ role, TablesOwned σ.paging {B, A} role
  ne : A ≠ B
  first : σ.paging.alloc.firstFrame = 0x5000
  total : σ.paging.alloc.totalFrames = 0x7B000
  filled : σ.paging.alloc.Filled n
  present : hasFlag (σ.paging.entry A 8) ptePresent = true
  table : entryGetPhys (σ.paging.entry A 8) = X
  absent : hasFlag (σ.paging.entry B 8) ptePresent = false
  page : hasFlag (pte σ.paging A 8 0) ptePresent = true
  frame : entryGetPhys (pte σ.paging A 8 0) ≠ 0x1000

lemma userBase_pdIndex : virtToPdIndex userBase = 8 := by decide

lemma userBase_ptIndex : virtToPtIndex userBase = 0 := by decide

lemma userBase_userPage : UserPage userBase := by decide

lemma hasFlag_present_or (flags : U32) (x : U32) :
    hasFlag (entryCreate x (flags ||| (ptePresent ||| pteAllocated))) ptePresent = true := by
  rw [hasFlag_present, entryCreate_bit _ _ (by decide), BitVec.getLsbD_or]
  simp [ptePresent, pteAllocated]

section TwoDirs

variable {σ : MapSystem} {A B X : U32} {n : ℕ}

/-- `paging_alloc_user_page` on a page that is mapped already takes one more frame and
leaves everything else in place. -/
lemma TwoDirs.allocUserPage (h : TwoDirs σ A B X n) (hn : n < 0x7B000) :
    ∃ σ', step σ (.allocUserPage A userBase pteRw) = some σ' ∧ TwoDirs σ' A B X (n + 1) := by
  obtain ⟨role, T⟩ := h.owned
  have hA : Known σ.paging {B, A} A := .inl (by simp)
  have hB : Known σ.paging {B, A} B := .inl (by simp)
  have hdir : σ.Directory A := .inl (by simp [h.dirs])
  have hp : hasFlag (σ.paging.entry A (virtToPdIndex userBase)) ptePresent = true := by
    rw [userBase_pdIndex, h.present]
  obtain ⟨heqa, hfilled⟩ := h.filled.frameAlloc (by rw [h.total]; exact hn)
  have hfree : 0 < σ.paging.alloc.freeCount := by
    rw [h.filled.freeCount, h.total]
    omega
  refine ⟨_, if_pos ⟨hdir, userBase_userPage⟩, ?_⟩
  rcases pagingAllocUserPage_spec T hA userBase pteRw
      (fun _ => userPage_userIdx userBase_userPage) (by decide)
      (fun _ habs => by rw [hp] at habs; cases habs) with
    ⟨-, hc⟩ | ⟨a, x, Alloc, ⟨-, hwhy⟩ | ⟨s', role', heq, -, E⟩⟩
  · omega
  · obtain ⟨habs, -⟩ := hwhy userBase_userPage.1
    rw [hp] at habs
    cases habs
  · rw [heq]
    have haddr := Alloc.eq
    rw [heqa, Prod.mk.injEq] at haddr
    obtain ⟨ha, -⟩ := haddr
    have halloc : s'.alloc = σ.paging.alloc.setBit n := by
      rw [E.alloc]
      change (if hasFlag (σ.paging.entry A (virtToPdIndex userBase)) ptePresent = true
        then a else _) = _
      rw [if_pos hp, ha]
    have hpde := E.pdePhys
    have hself := E.self
    have hpres := E.present
    have hother := fun {k} => E.pdeSame (k := k) hB (.inl h.ne.symm)
    simp only [userBase_pdIndex, userBase_ptIndex] at hpde hself hpres
    refine
      { dirs := h.dirs
        active := by rw [E.active]; exact h.active
        owned := ⟨role', E.owned⟩
        ne := h.ne
        first := by rw [halloc]; exact h.first
        total := by rw [halloc]; exact h.total
        filled := by rw [halloc]; exact hfilled
        present := hpres
        table := ?_
        absent := ?_
        page := by rw [hself]; exact hasFlag_present_or _ x
        frame := ?_ }
    · rw [hpde, ← h.table]
      exact if_pos h.present
    · rw [hother]
      exact h.absent
    · rw [hself, entryGetPhys_entryCreate_of_aligned Alloc.aligned]
      rintro rfl
      have hm := Alloc.managed.1
      rw [h.first] at hm
      revert hm
      decide

lemma TwoDirs.allocUserPages (h : TwoDirs σ A B X n) (k : ℕ) (hk : n + k ≤ 0x7B000) :
    ∃ σ', run step σ (List.replicate k (.allocUserPage A userBase pteRw)) = some σ' ∧
      TwoDirs σ' A B X (n + k) := by
  induction k generalizing σ n with
  | zero => exact ⟨σ, rfl, h⟩
  | succ k ih =>
    obtain ⟨σ₁, hfirst, h₁⟩ := h.allocUserPage (by omega)
    obtain ⟨σ', hrest, h'⟩ := ih h₁ (by omega)
    refine ⟨σ', ?_, by rwa [show n + (k + 1) = n + 1 + k by omega]⟩
    rw [List.replicate_succ, run_cons_eq_some]
    exact ⟨σ₁, hfirst, hrest⟩

/-- When the next frame is 1 GiB above `X`, the pointer to the new table of `B` wraps around to
`X`. -/
lemma TwoDirs.overwrite (h : TwoDirs σ A B X n) (hn : n < 0x7B000) (hX : X.toNat < 0x40000000)
    (hwrap : X.toNat + 0x40000000 = (0x5000 + n) * 4096) :
    (pageMap σ.paging B userBase 0x1000 pteUser).2 = true ∧
      pageGetPhys (pageMap σ.paging B userBase 0x1000 pteUser).1 A userBase = 0x1000 := by
  obtain ⟨role, T⟩ := h.owned
  have hA : Known σ.paging {B, A} A := .inl (by simp)
  have hB : Known σ.paging {B, A} B := .inl (by simp)
  obtain ⟨heqa, -⟩ := h.filled.frameAlloc (by rw [h.total]; exact hn)
  have hY : (σ.paging.alloc.frameAddr n).toNat = X.toNat + 0x40000000 := by
    rw [frameAddr_toNat T.wf (by rw [h.total]; exact hn), h.first, hwrap]
  have hY0 : σ.paging.alloc.frameAddr n ≠ 0 := by
    intro h0
    rw [h0] at hY
    simp at hY
  have hptr : kernelVirtualBase + σ.paging.alloc.frameAddr n = X := by
    apply BitVec.eq_of_toNat_eq
    rw [BitVec.toNat_add, hY]
    change (0xC0000000 + _) % 2 ^ 32 = _
    omega
  have hphysX : physOf X = X := physOf_low hX
  have hphysX' : physOf (kernelVirtualBase + X) = X := physOf_higherHalf hX
  have hroleX := T.role_table hA (by decide) h.present
  rw [h.table] at hroleX
  have hAX : physOf A ≠ X := by
    intro heq
    rw [← heq] at hroleX
    rcases T.physOf_known_role hA with hr | hr <;> rw [hr] at hroleX
    · exact tableRole_ne_dir _ A 8 hroleX.symm
    · exact tableRole_ne_free _ A 8 hroleX.symm
  have hAB : physOf A ≠ physOf B := fun heq => h.ne (T.known_ext hA hB heq)
  have hB0 : B ≠ 0 := T.known_ne_zero hB
  have hmap : pageMap σ.paging B userBase 0x1000 pteUser =
      (((({ σ.paging with alloc := σ.paging.alloc.setBit n } : PagingState).setEntry B 8
        (entryCreate (σ.paging.alloc.frameAddr n)
          (ptePresent ||| pteRw ||| pteAllocated ||| pteUser))).clearTable X).setEntry X 0
        (entryCreate 0x1000 (pteUser ||| (ptePresent ||| pteAllocated))), true) := by
    have huser : hasFlag pteUser pteUser = true := by decide
    rw [pageMap, mapPage, if_neg (by simp only [not_or]; exact ⟨hB0, by decide, by decide⟩),
      getTable, userBase_pdIndex, userBase_ptIndex, h.absent]
    simp only [Bool.not_false, if_true, heqa, hY0, if_false, huser, ptablePtr, setEntry_active,
      h.active, hptr]
  rw [hmap]
  refine ⟨rfl, ?_⟩
  rw [pageGetPhys_eq _ (T.known_ne_zero hA), userBase_pdIndex, userBase_ptIndex]
  have hentry : ((((({ σ.paging with alloc := σ.paging.alloc.setBit n } : PagingState).setEntry B 8
        (entryCreate (σ.paging.alloc.frameAddr n)
          (ptePresent ||| pteRw ||| pteAllocated ||| pteUser))).clearTable X).setEntry X 0
        (entryCreate 0x1000 (pteUser ||| (ptePresent ||| pteAllocated))))).entry A 8 =
      σ.paging.entry A 8 := by
    rw [entry_setEntry_of_ne (by rw [hphysX]; exact hAX), entry_clearTable, hphysX, if_neg hAX,
      entry_setEntry_of_ne hAB]
    rfl
  have hpte : pte ((((({ σ.paging with alloc := σ.paging.alloc.setBit n } :
        PagingState).setEntry B 8
        (entryCreate (σ.paging.alloc.frameAddr n)
          (ptePresent ||| pteRw ||| pteAllocated ||| pteUser))).clearTable X).setEntry X 0
        (entryCreate 0x1000 (pteUser ||| (ptePresent ||| pteAllocated))))) A 8 0 =
      entryCreate 0x1000 (pteUser ||| (ptePresent ||| pteAllocated)) := by
    rw [pte, hentry, if_pos h.present, h.table, entry_setEntry, hphysX, if_pos]
    refine ⟨?_, rfl⟩
    simp only [ptablePtr, setEntry_active, clearTable_active, h.active, if_true]
    exact hphysX'
  rw [hpte]
  decide

lemma largeBoot_nextLow {s : PagingState} (h : Booted largeBoot s) : s.alloc.NextLow := by
  have hfirst : largeBoot.firstFrame = 0x5000 := by decide
  have htotal : largeBoot.totalFrames = 0x7B000 := by decide
  obtain ⟨role, T⟩ := h.owned
  have hcount := kernelPdeCount_le s
  apply h.filled.nextLow T.wf
  · rw [h.total, hfirst, htotal]
    omega
  · rw [h.first, hfirst]
    omega

lemma exists_twoDirs {s₀ : PagingState} (h₀ : Booted largeBoot s₀) (hactive : s₀.active = true) :
    ∃ A B X n σ, run step ⟨s₀, []⟩
        [.create, .create, .map A userBase 0x5000000 pteUser] = some σ ∧
      TwoDirs σ A B X n ∧ n ≤ 0x5000 + 1027 ∧ X.toNat + 4096 = (0x5000 + n) * 4096 := by
  have hnext₀ := largeBoot_nextLow h₀
  obtain ⟨role, T⟩ := h₀.owned
  have hcount := kernelPdeCount_le s₀
  have hfilled₀ := h₀.filled
  have hf₀ := h₀.first
  have ht₀ := h₀.total
  rw [show largeBoot.firstFrame = 0x5000 by decide] at hfilled₀ hf₀
  rw [show largeBoot.totalFrames = 0x7B000 by decide] at ht₀
  generalize kernelPdeCount s₀ = c at hcount hfilled₀
  -- the first directory
  rcases pageDirectoryCreate_spec T hnext₀ with ⟨-, hc⟩ | ⟨s₁, A, role₁, heq₁, hA0, E₁⟩
  · rw [hfilled₀.freeCount] at hc
    omega
  have hfilled₁ : s₁.alloc.Filled (0x5000 + c + 1) := by
    rw [E₁.alloc, (hfilled₀.frameAlloc (by omega)).1]
    exact (hfilled₀.frameAlloc (by omega)).2
  have hf₁ : s₁.alloc.firstFrame = 0x5000 := by rw [E₁.alloc, frameAlloc_firstFrame, hf₀]
  have ht₁ : s₁.alloc.totalFrames = 0x7B000 := by rw [E₁.alloc, frameAlloc_totalFrames, ht₀]
  have hnext₁ := hfilled₁.nextLow E₁.owned.wf (by omega) (by omega)
  -- the second directory
  rcases pageDirectoryCreate_spec E₁.owned hnext₁ with ⟨-, hc⟩ | ⟨s₂, B, role₂, heq₂, hB0, E₂⟩
  · rw [hfilled₁.freeCount] at hc
    omega
  have hfilled₂ : s₂.alloc.Filled (0x5000 + c + 2) := by
    rw [E₂.alloc, (hfilled₁.frameAlloc (by omega)).1]
    exact (hfilled₁.frameAlloc (by omega)).2
  have hf₂ : s₂.alloc.firstFrame = 0x5000 := by rw [E₂.alloc, frameAlloc_firstFrame, hf₁]
  have ht₂ : s₂.alloc.totalFrames = 0x7B000 := by rw [E₂.alloc, frameAlloc_totalFrames, ht₁]
  have hnext₂ := hfilled₂.nextLow E₂.owned.wf (by omega) (by omega)
  have hu : UserIdx 8 := by decide
  have hmem : A ∈ insert A (∅ : Set U32) := Set.mem_insert A ∅
  have hA8 : s₂.entry A 8 = 0 := by
    rw [E₂.pdes (.inl hmem), E₁.user hu]
  have hAB : A ≠ B := by
    rintro rfl
    exact E₂.notMem hmem
  have hset : insert B (insert A (∅ : Set U32)) = {B, A} := by simp
  have T₂ := E₂.owned
  rw [hset] at T₂
  have hAk : Known s₂ {B, A} A := .inl (by simp)
  have hBk : Known s₂ {B, A} B := .inl (by simp)
  -- the table of the first directory
  rcases mapPage_spec T₂ hAk (ptePresent ||| pteAllocated) userBase 0x5000000 pteUser
      (fun _ => userPage_userIdx userBase_userPage) (fun _ => hnext₂) with
    ⟨-, hwhy⟩ | ⟨s₃, role₃, heq₃, -, -, -, E₃⟩
  · obtain ⟨-, hc⟩ := hwhy (by decide) (by decide)
    rw [hfilled₂.freeCount] at hc
    omega
  obtain ⟨halloc₃, hfilled₃⟩ := hfilled₂.frameAlloc (by omega)
  have hE := E₃.alloc
  have hX := E₃.pdePhys
  have hself := E₃.self
  have hpres := E₃.present
  simp only [userBase_pdIndex, userBase_ptIndex] at hE hX hself hpres
  rw [hA8, halloc₃, if_neg (by decide)] at hE hX
  refine ⟨A, B, s₂.alloc.frameAddr (0x5000 + c + 2), 0x5000 + c + 3, ⟨s₃, [B, A]⟩, ?_, ?_,
    by omega, ?_⟩
  · refine run_cons_eq_some.mpr ⟨_, step_create heq₁ hA0, ?_⟩
    refine run_cons_eq_some.mpr ⟨_, step_create heq₂ hB0, ?_⟩
    refine run_cons_eq_some.mpr ⟨_, if_pos ⟨.inl (by simp), userBase_userPage⟩, ?_⟩
    rw [run_nil, pageMap, heq₃]
  · refine
      { dirs := rfl
        active := by rw [E₃.active, E₂.active, E₁.active, hactive]
        owned := ⟨role₃, E₃.owned⟩
        ne := hAB
        first := by rw [hE]; exact hf₂
        total := by rw [hE]; exact ht₂
        filled := by rw [hE]; exact hfilled₃
        present := hpres
        table := hX
        absent := ?_
        page := by rw [hself]; exact hasFlag_present_or _ _
        frame := by rw [hself]; decide }
    rw [E₃.pdeSame hBk (.inl hAB.symm), E₂.user hu]
    decide
  · rw [frameAddr_toNat E₂.owned.wf (by omega), hf₂]
    omega

end TwoDirs

/-- With memory above 1 GiB: one page of the first of two directories is mapped,
`paging_alloc_user_page` is called on it `0x3FFFF` times, and `page_map` on the second changes a
translation of the first. -/
theorem pageMap_not_isolated_large :
    ∃ A B σ, run step (init largeBoot blank)
        ([.create, .create, .map A userBase 0x5000000 pteUser] ++
          List.replicate 0x3FFFF (.allocUserPage A userBase pteRw)) = some σ ∧
      largeBoot.WellFormed ∧ σ.Directory A ∧ σ.Directory B ∧ A ≠ B ∧
      (pageMap σ.paging B userBase 0x1000 pteUser).2 = true ∧
      pageGetPhys (pageMap σ.paging B userBase 0x1000 pteUser).1 A userBase ≠
        pageGetPhys σ.paging A userBase := by
  obtain ⟨hboot, hactive⟩ := pagingInit_booted largeBoot_wellFormed largeBoot_nextLow blank
  obtain ⟨A, B, X, n, σ₀, hsetup, h₀, hn, hX⟩ := exists_twoDirs hboot hactive
  obtain ⟨σ, hloop, h⟩ := h₀.allocUserPages 0x3FFFF (by omega)
  obtain ⟨hmap, hover⟩ := h.overwrite (by omega) (by omega) (by omega)
  obtain ⟨role, T⟩ := h.owned
  refine ⟨A, B, σ, ?_, largeBoot_wellFormed, .inl (by simp [h.dirs]),
    .inl (by simp [h.dirs]), h.ne, hmap, ?_⟩
  · rw [run_append, init, hsetup]
    exact hloop
  · have hoff : pageOffset userBase = 0#32 := by decide
    rw [hover, pageGetPhys_eq _ (T.known_ne_zero (.inl (by simp))), userBase_pdIndex,
      userBase_ptIndex, if_pos h.page, hoff, BitVec.add_zero]
    exact h.frame.symm

end MapSystem

end OpenHobbyOS.Paging
