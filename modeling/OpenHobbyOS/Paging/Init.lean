/-
# `paging_init`

The state the paging code starts from: an allocator that has freed nothing yet, and the kernel's
directory with its identity and higher-half mappings.  The memory region and the address of the
directory are inputs.
-/
import OpenHobbyOS.Paging.Mapping

namespace OpenHobbyOS.Paging

open PagingState FrameAllocator TablesOwned BitVec List

/-- What `paging_init` is given. -/
structure BootInfo where
  userMemStart : U32
  userMemEnd : U32
  kernelPd : U32
  /-- Address and size, in pages, of the framebuffer. -/
  framebuffer : Option (U32 × ℕ)

namespace BootInfo

/-- The first managed frame. -/
def firstFrame (b : BootInfo) : ℕ := b.userMemStart.toNat / pageSize

/-- How many frames are managed. -/
def totalFrames (b : BootInfo) : ℕ := (b.userMemEnd - b.userMemStart).toNat / pageSize

/-- The region is not empty or reversed and leaves the null frame alone, and the kernel's directory,
an identity-mapped page, lies outside it. -/
structure WellFormed (b : BootInfo) : Prop where
  start_pos : pageSize ≤ b.userMemStart.toNat
  start_le : b.userMemStart ≤ b.userMemEnd
  kernelPd_ne : b.kernelPd ≠ 0
  kernelPd_identity : physOf b.kernelPd = b.kernelPd
  kernelPd_out : (physOf b.kernelPd).toNat / pageSize < b.firstFrame ∨
    b.firstFrame + b.totalFrames ≤ (physOf b.kernelPd).toNat / pageSize

end BootInfo

/-- The `i`-th page of a range. -/
def pageAt (base : U32) (i : ℕ) : U32 := base + BitVec.ofNat 32 (i * pageSize)

/-- One round of the loops of `paging_init` that fill the kernel's directory. -/
def kernelMap (own virtBase physBase flags : U32) (s : PagingState) (i : ℕ) : PagingState :=
  (mapPage own s s.kernelPd (pageAt virtBase i) (pageAt physBase i) flags).1

/-- `paging_init`. -/
def pagingInit (b : BootInfo) (s : PagingState) : PagingState :=
  let flags := ptePresent ||| pteRw ||| pteGlobal
  let owned := ptePresent ||| pteAllocated
  let s := { s with
    alloc := frameAllocInit b.userMemStart b.userMemEnd b.firstFrame
    kernelPd := b.kernelPd
    active := false }
  let s := s.clearTable b.kernelPd
  -- the three identity loops, for `0`, `0x400000` and `0x01000000` up to `0x10000000`
  let s := (range 0x10000).foldl (kernelMap owned 0 0 flags) s
  let s := (range 0x40000).foldl (kernelMap owned kernelVirtualBase 0 flags) s
  let s :=
    match b.framebuffer with
    | none => s
    | some (phys, pages) =>
      (range pages).foldl (kernelMap ptePresent phys phys (ptePresent ||| pteRw)) s
  { s with cr3 := s.kernelPd, active := true }

/-! ## The state it establishes -/

/-- How many tables the kernel's directory has. -/
def kernelPdeCount (s : PagingState) : ℕ :=
  ((Finset.range 1024).filter fun i => hasFlag (s.entry s.kernelPd i) ptePresent = true).card

/-- The frames handed out so far are the kernel's tables, each for one entry. -/
structure Booted (b : BootInfo) (s : PagingState) : Prop where
  kernelPd : s.kernelPd = b.kernelPd
  first : s.alloc.firstFrame = b.firstFrame
  total : s.alloc.totalFrames = b.totalFrames
  filled : s.alloc.Filled (b.firstFrame + kernelPdeCount s)
  owned : ∃ role, TablesOwned s ∅ role

section Booted

variable {b : BootInfo} {s : PagingState}
variable {base physBase v virtBase : U32} {i : ℕ} {is : List ℕ}

lemma kernelPdeCount_le (s : PagingState) : kernelPdeCount s ≤ 1024 := by
  have h := Finset.card_filter_le (Finset.range 1024)
    fun i => hasFlag (s.entry s.kernelPd i) ptePresent = true
  rwa [Finset.card_range] at h

lemma Booted.low (hb : b.WellFormed) (hend : b.userMemEnd.toNat ≤ 0x40000000)
    (h : Booted b s) : s.alloc.Low := by
  have hle : b.userMemStart.toNat ≤ b.userMemEnd.toNat := hb.start_le
  rw [Low, h.first, h.total, BootInfo.firstFrame, BootInfo.totalFrames, pageSize,
    toNat_sub_of_le hb.start_le]
  omega

lemma Booted.kernelMap (h : Booted b s) (hnext : s.alloc.NextLow)
    (own virtBase physBase flags : U32) (i : ℕ) :
    Booted b (kernelMap own virtBase physBase flags s i) := by
  obtain ⟨role, T⟩ := h.owned
  have hknown : Known s ∅ s.kernelPd := Or.inr rfl
  rw [Paging.kernelMap]
  rcases mapPage_spec T hknown own (pageAt virtBase i) (pageAt physBase i) flags
      (fun h => h.elim) (fun _ => hnext) with
    ⟨heq, -⟩ | ⟨s', role', heq, -, -, hroom, E⟩
  · rw [heq]
    exact h
  · rw [heq]
    have hk := E.kernelPd
    have hset : ((Finset.range 1024).filter
          fun i => hasFlag (s'.entry s'.kernelPd i) ptePresent = true) =
        insert (virtToPdIndex (pageAt virtBase i)) ((Finset.range 1024).filter
          fun i => hasFlag (s.entry s.kernelPd i) ptePresent = true) := by
      ext k
      rw [hk, Finset.mem_insert, Finset.mem_filter, Finset.mem_filter]
      by_cases hki : k = virtToPdIndex (pageAt virtBase i)
      · simp [hki, E.present, virtToPdIndex_lt]
      · rw [E.pdeSame hknown (Or.inr hki)]
        simp [hki]
    have hcount : kernelPdeCount s' = if hasFlag (s.entry s.kernelPd
        (virtToPdIndex (pageAt virtBase i))) ptePresent = true
        then kernelPdeCount s else kernelPdeCount s + 1 := by
      rw [kernelPdeCount, hset]
      split_ifs with hp
      · rw [Finset.insert_eq_of_mem]
        · rfl
        · simp [hp, virtToPdIndex_lt]
      · rw [Finset.card_insert_of_notMem]
        · rfl
        · simp [hp]
    have hfilled : s'.alloc.Filled (b.firstFrame + kernelPdeCount s') := by
      rw [E.alloc, hcount]
      cases hp : hasFlag (s.entry s.kernelPd (virtToPdIndex (pageAt virtBase i))) ptePresent with
      | true => simpa using h.filled
      | false =>
        rw [hp] at hroom
        have hfree : 0 < s.alloc.freeCount := by simpa using hroom
        rw [h.filled.freeCount] at hfree
        obtain ⟨heqa, hf⟩ := h.filled.frameAlloc (by omega)
        rw [heqa]
        simpa [Nat.add_assoc] using hf
    refine ⟨by rw [hk, h.kernelPd], ?_, ?_, hfilled, role', E.owned⟩
    · rw [E.alloc]
      split_ifs <;> simp [h.first]
    · rw [E.alloc]
      split_ifs <;> simp [h.total]

lemma Booted.foldl (hnext : ∀ {s}, Booted b s → s.alloc.NextLow) (h : Booted b s)
    (own virtBase physBase flags : U32) (is : List ℕ) :
    Booted b (is.foldl (Paging.kernelMap own virtBase physBase flags) s) := by
  induction is generalizing s with
  | nil => exact h
  | cons i is ih => exact ih (h.kernelMap (hnext h) own virtBase physBase flags i)

lemma Booted.setActive (h : Booted b s) (cr3 : U32) (active : Bool) :
    Booted b { s with cr3 := cr3, active := active } := by
  obtain ⟨role, T⟩ := h.owned
  exact ⟨h.kernelPd, h.first, h.total, h.filled, role,
    T.congr rfl rfl fun _ => ⟨rfl, rfl, rfl⟩⟩

/-- The state before the first page is mapped. -/
def pagingStart (b : BootInfo) (s : PagingState) : PagingState :=
  ({ s with
      alloc := frameAllocInit b.userMemStart b.userMemEnd b.firstFrame
      kernelPd := b.kernelPd
      active := false } : PagingState).clearTable b.kernelPd

lemma booted_pagingStart (hb : b.WellFormed) (s : PagingState) : Booted b (pagingStart b s) := by
  obtain ⟨hfilled, hfirst, htotal⟩ :=
    filled_frameAllocInit b.userMemStart b.userMemEnd b.firstFrame
  have halloc : (pagingStart b s).alloc =
      frameAllocInit b.userMemStart b.userMemEnd b.firstFrame := rfl
  have hkernel : (pagingStart b s).kernelPd = b.kernelPd := rfl
  have hzero : ∀ k, (pagingStart b s).entry b.kernelPd k = 0#32 := by
    intro k
    rw [pagingStart, entry_clearTable, if_pos rfl]
    rfl
  refine ⟨rfl, hfirst, htotal, ?_, fun _ => .free, ?_⟩
  · have hcount : kernelPdeCount (pagingStart b s) = 0 := by
      rw [kernelPdeCount, Finset.card_eq_zero, Finset.filter_eq_empty_iff]
      intro k _
      rw [hkernel, hzero]
      simp
    rw [hcount]
    exact hfilled
  · have hle : b.userMemStart.toNat ≤ b.userMemEnd.toNat := hb.start_le
    have hlt := b.userMemEnd.isLt
    have hpos := hb.start_pos
    refine
      { wf := ⟨?_, ?_⟩
        marked := fun h => absurd rfl h
        lt_oneGiB := fun h => absurd rfl h
        kernel := ⟨hb.kernelPd_ne, ?_⟩
        kernelPtr := hb.kernelPd_identity
        dir := fun h => h.elim
        kpde := ?_
        pde := fun h => h.elim
        pdeOwn := fun h => h.elim }
    · rw [halloc, hfirst, BootInfo.firstFrame]
      exact Nat.div_pos hpos (by decide)
    · rw [halloc, hfirst, htotal, BootInfo.firstFrame, pageSize,
        toNat_sub_of_le hb.start_le]
      omega
    · rw [halloc, hkernel, Managed, hfirst, htotal]
      have hout := hb.kernelPd_out
      rw [BootInfo.totalFrames] at hout
      omega
    · intro k _ hp
      rw [hkernel, hzero] at hp
      simp at hp

/-- **`paging_init`** leaves a kernel directory whose tables are distinct marked frames, as long as
the frames it is handed lie below 1 GiB. -/
theorem pagingInit_booted (hb : b.WellFormed)
    (hnext : ∀ {s}, Booted b s → s.alloc.NextLow) (s : PagingState) :
    Booted b (pagingInit b s) ∧ (pagingInit b s).active = true := by
  refine ⟨?_, rfl⟩
  rw [pagingInit]
  refine Booted.setActive ?_ _ _
  have hmaps := ((booted_pagingStart hb s).foldl hnext (ptePresent ||| pteAllocated) 0 0
    (ptePresent ||| pteRw ||| pteGlobal) (range 0x10000)).foldl hnext
    (ptePresent ||| pteAllocated) kernelVirtualBase 0 (ptePresent ||| pteRw ||| pteGlobal)
    (range 0x40000)
  cases hfb : b.framebuffer with
  | none => exact hmaps
  | some fb =>
    obtain ⟨phys, pages⟩ := fb
    exact hmaps.foldl hnext ptePresent phys phys (ptePresent ||| pteRw) (range pages)

end Booted

end OpenHobbyOS.Paging
