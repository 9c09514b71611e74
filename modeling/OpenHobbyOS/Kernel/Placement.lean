/-
# Which range `mmap` chooses

Without `MAP_FIXED`, `task_mmap` walks down from the top of the area and takes the first range that
`task_mapping_overlaps` lets pass.  That test would go wrong for an empty mapping and for one that
runs past the end of the address space; `task_mmap` records neither (`Recorded.regular`).
-/
import OpenHobbyOS.Kernel.CrossWrites

namespace OpenHobbyOS

open Paging Lib List

/-- A mapping with bytes that, if it starts below the top of the area, ends below 4 GiB. -/
def TaskMapping.Regular (m : TaskMapping) : Prop :=
  0 < m.length.toNat ∧
    (m.base.toNat < userMmapTop.toNat → m.base.toNat + m.length.toNat < 2 ^ 32)

namespace Kernel

/-- The kernel with another break. -/
def withBrk (k : Kernel) (brk : U32) : Kernel := { k with current := { k.current with brk := brk } }

/-- Aligned, inside the area, apart from the recorded mappings and from what lies between
`USER_BASE` and `brk`. -/
structure FreeAt (k : Kernel) (size base : ℕ) : Prop where
  aligned : base % pageSize = 0
  lower : userMmapBase.toNat ≤ base
  upper : base + size ≤ userMmapTop.toNat
  mappings : ∀ i, (k.current.mappings i).used = true →
    Apart base size (k.current.mappings i).base.toNat (k.current.mappings i).length.toNat
  heap : Apart base size userBase.toNat (k.current.brk.toNat - userBase.toNat)

/-- The base chosen for `length` bytes is the highest there is, if there is one. -/
def PlacesHighest (k : Kernel) (length : U32) : Prop :=
  ∀ addr flags, hasFlag flags mapFixed = false →
    match k.mmapBase addr (pageAlign (length + 0xFFF)) flags with
    | .ok base => IsGreatest {b | k.FreeAt (roundUp length) b} base.toNat
    | .error e => e = errNomem ∧ ∀ b, ¬ k.FreeAt (roundUp length) b

/-! ## The test -/

section Test

variable {k : Kernel} {base size : U32}

lemma rangeOverlaps_eq_false {m : TaskMapping} (hsum : base.toNat + size.toNat < 2 ^ 32) :
    rangeOverlaps base size m.base m.length = false ↔
      base.toNat + size.toNat ≤ m.base.toNat ∨
        (m.base.toNat + m.length.toNat) % 2 ^ 32 ≤ base.toNat := by
  have hend : (base + size).toNat = base.toNat + size.toNat := BitVec.toNat_add_of_lt hsum
  simp only [rangeOverlaps, Bool.not_eq_false', Bool.or_eq_true, decide_eq_true_eq,
    BitVec.le_def, hend, BitVec.toNat_add]

lemma heapOverlaps_eq_false (hlower : userMmapBase.toNat ≤ base.toNat)
    (hsum : base.toNat + size.toNat < 2 ^ 32) (hsize : 0 < size.toNat) (brk : U32) :
    (decide (userBase < brk) && rangeOverlaps base size userBase (brk - userBase)) = false ↔
      Apart base.toNat size.toNat userBase.toNat (brk.toNat - userBase.toNat) := by
  have hub : userBase.toNat = 0x02000000 := rfl
  have hmb : userMmapBase.toNat = 0x03C00000 := rfl
  have hlt := brk.isLt
  rw [Apart]
  by_cases hbrk : userBase < brk
  · have hbrk' : userBase.toNat < brk.toNat := hbrk
    have hlen : (brk - userBase).toNat = brk.toNat - userBase.toNat :=
      BitVec.toNat_sub_of_le (BitVec.le_of_lt hbrk)
    rw [decide_eq_true hbrk, Bool.true_and,
      rangeOverlaps_eq_false (m := ⟨true, userBase, brk - userBase⟩) hsum]
    dsimp only
    rw [hlen]
    omega
  · have hbrk' : ¬ userBase.toNat < brk.toNat := hbrk
    rw [decide_eq_false hbrk, Bool.false_and]
    exact iff_of_true rfl (by omega)

lemma taskMappingOverlaps_eq_false (hlower : userMmapBase.toNat ≤ base.toNat)
    (hsum : base.toNat + size.toNat < 2 ^ 32) (hsize : 0 < size.toNat) :
    k.taskMappingOverlaps base size = false ↔
      (∀ i, (k.current.mappings i).used = true →
        base.toNat + size.toNat ≤ (k.current.mappings i).base.toNat ∨
          ((k.current.mappings i).base.toNat + (k.current.mappings i).length.toNat) % 2 ^ 32 ≤
            base.toNat) ∧
      Apart base.toNat size.toNat userBase.toNat (k.current.brk.toNat - userBase.toNat) := by
  rw [taskMappingOverlaps, Bool.or_eq_false_iff, heapOverlaps_eq_false hlower hsum hsize,
    any_eq_false]
  refine and_congr_left fun _ => ⟨fun h i hi => ?_, fun h i _ => ?_⟩
  · have htest := h i (mem_finRange i)
    rw [hi, Bool.true_and, Bool.not_eq_true, rangeOverlaps_eq_false hsum] at htest
    exact htest
  · rw [Bool.and_eq_true, not_and, Bool.not_eq_true, rangeOverlaps_eq_false hsum]
    exact h i

end Test

/-! ## The search -/

section Search

variable {k : Kernel} {size start addr flags : U32}

lemma sub_page {start : U32} (h : userMmapBase.toNat ≤ start.toNat) :
    (start - 0x1000).toNat = start.toNat - 4096 := by
  have hmb : userMmapBase.toNat = 0x03C00000 := rfl
  refine BitVec.toNat_sub_of_le (BitVec.le_def.mpr ?_)
  change 4096 ≤ start.toNat
  omega

/-- The loop stops at the highest page that passes the test, or at the lowest page there is. -/
lemma mmapSearch_highest (k : Kernel) (size start : U32) (n : ℕ)
    (hstart : start.toNat % 4096 = 0)
    (hlower : userMmapBase.toNat ≤ start.toNat)
    (hfuel : start.toNat < userMmapBase.toNat + n * 4096) :
    (k.mmapSearch size n start).toNat % 4096 = 0 ∧
      userMmapBase.toNat ≤ (k.mmapSearch size n start).toNat ∧
      (k.mmapSearch size n start).toNat ≤ start.toNat ∧
      (k.taskMappingOverlaps (k.mmapSearch size n start) size = false ∨
        k.mmapSearch size n start = userMmapBase) ∧
      ∀ b : U32, b.toNat % 4096 = 0 → (k.mmapSearch size n start).toNat < b.toNat →
        b.toNat ≤ start.toNat → k.taskMappingOverlaps b size = true := by
  induction n generalizing start with
  | zero => omega
  | succ n ih =>
    have hmb : userMmapBase.toNat = 0x03C00000 := rfl
    have hstop : ∀ b : U32, b.toNat % 4096 = 0 → start.toNat < b.toNat →
        b.toNat ≤ start.toNat → k.taskMappingOverlaps b size = true := by
      intro b _ hb hb'
      omega
    rw [mmapSearch, if_neg (by rw [BitVec.not_lt]; exact hlower)]
    split_ifs with hfree hbase
    · exact ⟨hstart, hlower, le_rfl, .inl (by simpa using hfree), hstop⟩
    · exact ⟨hstart, hlower, le_rfl, .inr hbase, hstop⟩
    · -- a page above the lowest one
      have hsub := sub_page hlower
      have hne : start.toNat ≠ userMmapBase.toNat := fun h => hbase (BitVec.eq_of_toNat_eq h)
      obtain ⟨hmod, hge, hle, hwhy, habove⟩ := ih (start - 0x1000) (by omega) (by omega)
        (by omega)
      refine ⟨hmod, hge, by omega, hwhy, fun b hb hlt hb' => ?_⟩
      rcases Nat.lt_or_ge (start - 0x1000).toNat b.toNat with hb'' | hb''
      · obtain rfl : b = start := BitVec.eq_of_toNat_eq (by omega)
        simpa using hfree
      · exact habove b hb hlt hb''

/-- **The loop** finds the highest range that passes the test, and fails if none does. -/
lemma mmapBase_highest (k : Kernel) (addr : U32) (hflags : hasFlag flags mapFixed = false)
    (hmod : size.toNat % 4096 = 0)
    (hle : size.toNat ≤ userMmapTop.toNat - userMmapBase.toNat) :
    (∃ base, k.mmapBase addr size flags = .ok base ∧ RangeOk k base size ∧
        ∀ b, RangeOk k b size → b.toNat ≤ base.toNat) ∨
      k.mmapBase addr size flags = .error errNomem ∧ ∀ b, ¬ RangeOk k b size := by
  have htop : userMmapTop.toNat = 0x04EF0000 := rfl
  have hmb : userMmapBase.toNat = 0x03C00000 := rfl
  have hstart : (userMmapTop - size).toNat = userMmapTop.toNat - size.toNat :=
    BitVec.toNat_sub_of_le (BitVec.le_def.mpr (by omega))
  obtain ⟨hr, hge, hupper, hwhy, habove⟩ := mmapSearch_highest k size
    (userMmapTop - size) 0x100000 (by omega) (by omega) (by omega)
  simp only [mmapBase, hflags, Bool.false_eq_true, if_false]
  generalize k.mmapSearch size 0x100000 (userMmapTop - size) = r at *
  have hhighest : ∀ b, RangeOk k b size → b.toNat ≤ r.toNat := by
    intro b hb
    by_contra hlt
    have hover := habove b hb.aligned (by omega) (by have := hb.upper; omega)
    rw [hb.free] at hover
    cases hover
  by_cases hfree : k.taskMappingOverlaps r size = false
  · refine .inl ⟨r, ?_, ⟨hr, hge, by omega, hfree⟩, hhighest⟩
    rw [if_neg]
    rintro (hlow | hover)
    · exact absurd (show r.toNat < userMmapBase.toNat from hlow) (by omega)
    · rw [hfree] at hover
      cases hover
  · -- the lowest page has been tried too
    obtain rfl := hwhy.resolve_left hfree
    refine .inr ⟨by rw [if_pos (.inr (by simpa using hfree))], fun b hb => hfree ?_⟩
    have hle := hhighest b hb
    have hlow := hb.lower
    obtain rfl : b = userMmapBase := BitVec.eq_of_toNat_eq (by omega)
    exact hb.free

end Search

/-! ## Recorded mappings -/

/-- What a call relies on: a ramfile's buffer is pages of the kernel's heap; a framebuffer has
bytes, and not half of the address space; and while the pages of a buffer are looked up,
`KERNEL_VIRTUAL_BASE` leads to frame 0, as `paging_init` maps it. -/
structure MmapSound (k : Kernel) (addr length prot flags pageOffset : U32) (f : MmapFile) :
    Prop where
  buffer : ∀ data capacity, f.ramfile = some (data, capacity) →
    data.toNat % 4096 = 0 ∧ data.toNat + capacity.toNat ≤ userBase.toNat
  framebuffer : ∀ phys size, f.framebuffer = some (phys, size) →
    0 < size.toNat ∧ size.toNat ≤ 2 ^ 31
  kernelHalf : ∀ base data capacity n, k.mmapBase addr (pageAlign (length + 0xFFF)) flags = .ok base →
    f.ramfile = some (data, capacity) → n ≤ pagesBelow 0 (pageAlign (length + 0xFFF)) →
    pageGetPhys (mapExistingPages (pageDirectoryGetCurrent k.paging)
      (if hasFlag prot protWrite then pteUser ||| pteRw else pteUser)
      (bufferFrame (pageDirectoryGetCurrent k.paging) (data + pageOffset * 0x1000)) n k.paging base
      0).1 (pageDirectoryGetCurrent k.paging) kernelVirtualBase = 0

/-- The tables that calls of `task_mmap` and `task_munmap` come to, whatever happens in between. -/
inductive Recorded : (Fin taskMaxMmaps → TaskMapping) → Prop
  | start : Recorded fun _ => .zero
  | mmap {k k' : Kernel} {addr length prot flags pageOffset : U32} {fd v : ℤ} {f : MmapFile}
      (h : Recorded k.current.mappings) (hsound : k.MmapSound addr length prot flags pageOffset f)
      (hcall : k.taskMmap addr length prot flags fd pageOffset f = some (k', v)) :
      Recorded k'.current.mappings
  | munmap {k : Kernel} {addr length : U32} (h : Recorded k.current.mappings) :
      Recorded (k.taskMunmap addr length).1.current.mappings

section Recorded

variable {k : Kernel} {base size : U32}

lemma mapExistingPages_frame {pd flags : U32} {frame : PagingState → U32 → Option U32} {n j : ℕ}
    {s s' : PagingState} {page : U32}
    (h : mapExistingPages pd flags frame n s base page = (s', true)) (hj : j < n) :
    frame (mapExistingPages pd flags frame j s base page).1 (page + BitVec.ofNat 32 (j * 4096)) ≠
      none := by
  induction n generalizing s page j with
  | zero => exact absurd hj (Nat.not_lt_zero j)
  | succ n ih =>
    rw [mapExistingPages] at h
    cases hframe : frame s page with
    | none =>
      rw [hframe] at h
      cases h
    | some phys =>
      rw [hframe] at h
      rcases hmap : pageMapExisting s pd (base + page) phys flags with ⟨s₁, _ | _⟩
      · simp only [hmap] at h
        cases h
      simp only [hmap] at h
      cases j with
      | zero =>
        rw [Nat.zero_mul, BitVec.add_zero, mapExistingPages, hframe]
        exact Option.some_ne_none phys
      | succ j =>
        have hnext : page + BitVec.ofNat 32 ((j + 1) * 4096) =
            page + 0x1000 + BitVec.ofNat 32 (j * 4096) := by
          rw [Nat.add_mul, Nat.one_mul, Nat.add_comm, BitVec.ofNat_add, BitVec.add_assoc]
          rfl
        rw [mapExistingPages, hframe]
        simp only [hmap]
        rw [hnext]
        exact ih h (Nat.lt_of_succ_lt_succ hj)

/-- On a way round the loop would come to `KERNEL_VIRTUAL_BASE`, where `page_get_phys` returns 0. -/
lemma bufferPages_lt {pd flags data fileOffset capacity : U32} {s s' : PagingState}
    (hdata : data.toNat % 4096 = 0 ∧ data.toNat + capacity.toNat ≤ userBase.toNat)
    (hcapacity : ¬ capacity < fileOffset + size) (hoffset : fileOffset.toNat % 4096 = 0)
    (hsize : size.toNat % 4096 = 0) (hbase : base.toNat < userMmapTop.toNat)
    (hhalf : ∀ n ≤ pagesBelow 0 size, pageGetPhys (mapExistingPages pd flags
      (bufferFrame pd (data + fileOffset)) n s base 0).1 pd kernelVirtualBase = 0)
    (h : mapExistingPages pd flags (bufferFrame pd (data + fileOffset)) (pagesBelow 0 size) s base 0 =
      (s', true)) : base.toNat + size.toNat < 2 ^ 32 := by
  by_contra hwrap
  have htop : userMmapTop.toNat = 0x04EF0000 := rfl
  have hub : userBase.toNat = 0x02000000 := rfl
  have hcount := pagesBelow_zero hsize
  have hsum : (fileOffset + size).toNat = (fileOffset.toNat + size.toNat) % 2 ^ 32 :=
    BitVec.toNat_add _ _
  have hbuffer : (data + fileOffset).toNat = (data.toNat + fileOffset.toNat) % 2 ^ 32 :=
    BitVec.toNat_add _ _
  rw [BitVec.lt_def, hsum] at hcapacity
  have hlt := size.isLt
  have hlt' := fileOffset.isLt
  -- the turn at which the page looked up is the first one of the kernel's half
  obtain ⟨j, hj, hpage⟩ : ∃ j, j < pagesBelow 0 size ∧
      ((data + fileOffset).toNat + j * 4096) % 2 ^ 32 = 0xC0000000 :=
    ⟨(0xC0000000 + 2 ^ 32 - (data + fileOffset).toNat) % 2 ^ 32 / 4096, by omega, by omega⟩
  have hzero : (0 : U32) + BitVec.ofNat 32 (j * 4096) = BitVec.ofNat 32 (j * 4096) :=
    BitVec.zero_add _
  have heq : data + fileOffset + BitVec.ofNat 32 (j * 4096) = kernelVirtualBase := by
    refine BitVec.eq_of_toNat_eq ?_
    rw [BitVec.toNat_add, BitVec.toNat_ofNat, Nat.add_mod_mod]
    exact hpage
  refine mapExistingPages_frame h hj ?_
  rw [bufferFrame, hzero, heq, if_pos (hhalf j hj.le)]

lemma storeUser_le {s s' : PagingState} {addr : U32} {bytes : List U8} (hne : bytes ≠ [])
    (h : storeUser s addr bytes = some s') : addr.toNat + bytes.length ≤ userLimit.toNat := by
  have hlimit : userLimit.toNat = 0x05000000 := rfl
  induction bytes generalizing s addr with
  | nil => exact absurd rfl hne
  | cons b bs ih =>
    rw [storeUser] at h
    split_ifs at h with hrange
    have hlt := BitVec.lt_def.mp hrange.2
    split at h
    · by_cases hbs : bs = []
      · subst hbs
        rw [length_singleton]
        omega
      · have hnext := ih hbs h
        have hone : (addr + 1).toNat = addr.toNat + 1 :=
          BitVec.toNat_add_of_lt (by change _ + 1 < _; omega)
        rw [length_cons]
        omega
    · cases h

/-- **What `task_mmap` records** is regular: a range that goes round is not mapped to its end. -/
lemma mmapPages_regular {addr length prot flags pageOffset len : U32} {kind : Option FdKind}
    {f : MmapFile} {s' : PagingState} (hsound : k.MmapSound addr length prot flags pageOffset f)
    (hsize : pageAlign (length + 0xFFF) ≠ 0)
    (hbase : k.mmapBase addr (pageAlign (length + 0xFFF)) flags = .ok base)
    (hok : k.mmapPages (pageDirectoryGetCurrent k.paging) base (pageAlign (length + 0xFFF))
      (if hasFlag prot protWrite then pteUser ||| pteRw else pteUser) flags pageOffset kind f =
        some (s', .ok len)) :
    0 < len.toNat ∧ (base.toNat < userMmapTop.toNat → base.toNat + len.toNat < 2 ^ 32) := by
  have htop : userMmapTop.toNat = 0x04EF0000 := rfl
  have hlimit : userLimit.toNat = 0x05000000 := rfl
  have hmod : (pageAlign (length + 0xFFF)).toNat % 4096 = 0 := by
    rw [pageAlign_toNat]
    omega
  have hpos : 0 < (pageAlign (length + 0xFFF)).toNat :=
    Nat.pos_of_ne_zero fun h => hsize (BitVec.eq_of_toNat_eq h)
  have hhalf := hsound.kernelHalf base
  generalize pageAlign (length + 0xFFF) = size at *
  generalize (if hasFlag prot protWrite then pteUser ||| pteRw else pteUser) = pageFlags at *
  simp only [mmapPages] at hok
  by_cases hkind : kind = some .fb0
  · rw [if_pos hkind] at hok
    split at hok
    · cases hok
    rename_i phys fbSize hfb
    obtain ⟨hfb₀, hfb₁⟩ := hsound.framebuffer phys fbSize hfb
    have hround := pageAlign_toNat (fbSize + 0xFFF)
    have hsum : (fbSize + 0xFFF).toNat = (fbSize.toNat + 4095) % 2 ^ 32 := BitVec.toNat_add _ _
    split at hok
    · cases hok
    cases hok
    split_ifs with hfits
    · have hfits' : size.toNat < fbSize.toNat := hfits
      exact ⟨hpos, fun hb => by omega⟩
    · exact ⟨by omega, fun hb => by omega⟩
  · rw [if_neg hkind] at hok
    split at hok
    · -- a shared file in memory
      rename_i data capacity hfile _
      have hram : f.ramfile = some (data, capacity) := by
        split_ifs at hfile
        exact hfile
      by_cases hcapacity : capacity < pageOffset * 0x1000 + size
      · rw [if_pos hcapacity] at hok
        cases hok
      rw [if_neg hcapacity] at hok
      split at hok
      · cases hok
      rename_i s₁ hmap
      cases hok
      have hoffset : (pageOffset * 0x1000).toNat % 4096 = 0 := by
        rw [BitVec.toNat_mul]
        change pageOffset.toNat * 4096 % 2 ^ 32 % 4096 = 0
        omega
      exact ⟨hpos, fun hb => bufferPages_lt (hsound.buffer data capacity hram) hcapacity hoffset hmod hb
        (fun n hn => hhalf data capacity n hbase hram hn) hmap⟩
    · -- memory of its own, which is cleared
      split at hok
      · cases hok
      split at hok
      · cases hok
      rename_i s₂ hzero
      have hle := storeUser_le (by simpa using hpos.ne') hzero
      rw [length_replicate] at hle
      have hlen : len = size := by
        split_ifs at hok
        · cases hok
        · obtain ⟨s₃, -, heq⟩ := Option.map_eq_some_iff.mp hok
          cases heq
          rfl
        · cases hok
          rfl
      subst hlen
      exact ⟨hpos, fun _ => by omega⟩

lemma Recorded.regular {mappings : Fin taskMaxMmaps → TaskMapping} (h : Recorded mappings)
    (i : Fin taskMaxMmaps) (hi : (mappings i).used = true) : (mappings i).Regular := by
  induction h generalizing i with
  | start => cases hi
  | @mmap k k' addr length prot flags pageOffset fd v f h hsound hcall ih =>
    obtain ⟨-, hsame⟩ | ⟨kind, base, s, len, m, hsize, -, hbase, hok, -, -, hmappings⟩ :=
      taskMmap_some hcall
    · rw [hsame] at hi ⊢
      exact ih i hi
    rw [hmappings] at hi ⊢
    by_cases him : i = m
    · subst him
      rw [Function.update_self]
      exact mmapPages_regular hsound hsize hbase hok
    · rw [Function.update_of_ne him] at hi ⊢
      exact ih i hi
  | @munmap k addr length h ih =>
    rw [taskMunmap] at hi ⊢
    dsimp only at hi ⊢
    split at hi
    · exact ih i hi
    · rename_i m _
      by_cases him : i = m
      · subst him
        have hfree : (Function.update k.current.mappings i TaskMapping.zero i).used = true := hi
        rw [Function.update_self] at hfree
        cases hfree
      · simp only [Function.update_of_ne him] at hi ⊢
        exact ih i hi

end Recorded

/-! ## The choice -/

lemma rangeOk_iff {k : Kernel} {base size : U32}
    (h : ∀ i, (k.current.mappings i).used = true → (k.current.mappings i).Regular)
    (hsize : 0 < size.toNat) : RangeOk k base size ↔ k.FreeAt size.toNat base.toNat := by
  have htop : userMmapTop.toNat = 0x04EF0000 := rfl
  have happly (hupper : base.toNat + size.toNat ≤ userMmapTop.toNat) (i : Fin taskMaxMmaps)
      (hi : (k.current.mappings i).used = true) :
      (base.toNat + size.toNat ≤ (k.current.mappings i).base.toNat ∨
        ((k.current.mappings i).base.toNat + (k.current.mappings i).length.toNat) % 2 ^ 32 ≤
          base.toNat) ↔
      Apart base.toNat size.toNat (k.current.mappings i).base.toNat
        (k.current.mappings i).length.toNat := by
    obtain ⟨hpos, hend⟩ := h i hi
    rw [Apart]
    by_cases hbelow : (k.current.mappings i).base.toNat < userMmapTop.toNat
    · rw [Nat.mod_eq_of_lt (hend hbelow)]
      omega
    · omega
  constructor
  · intro R
    obtain ⟨hmaps, hheap⟩ := (taskMappingOverlaps_eq_false R.lower R.sum_lt hsize).mp R.free
    exact ⟨R.aligned, R.lower, R.upper, fun i hi => (happly R.upper i hi).mp (hmaps i hi), hheap⟩
  · intro F
    have hupper := F.upper
    exact ⟨F.aligned, F.lower, hupper,
      (taskMappingOverlaps_eq_false F.lower (by omega) hsize).mpr
        ⟨fun i hi => (happly hupper i hi).mpr (F.mappings i hi), F.heap⟩⟩

/-- **Placement.**  Whatever `task_mmap` has recorded and whatever the break is, a length that fits
into the area is placed at the highest free range, and refused if there is none. -/
theorem placement_highest {k : Kernel} (h : Recorded k.current.mappings) (brk length : U32)
    (hlength : 0 < length.toNat) (hle : length.toNat ≤ userMmapTop.toNat - userMmapBase.toNat) :
    (k.withBrk brk).PlacesHighest length := by
  have htop : userMmapTop.toNat = 0x04EF0000 := rfl
  have hmb : userMmapBase.toNat = 0x03C00000 := rfl
  have hround : (pageAlign (length + 0xFFF)).toNat = roundUp length := by
    have hval := pageAlign_toNat (length + 0xFFF)
    have hsum : (length + 0xFFF).toNat = (length.toNat + 4095) % 2 ^ 32 := BitVec.toNat_add _ _
    rw [roundUp]
    omega
  have hbounds : 0 < roundUp length ∧
      roundUp length ≤ userMmapTop.toNat - userMmapBase.toNat := by
    rw [roundUp]
    omega
  have hmod := roundUp_mod length
  rw [PlacesHighest, ← hround]
  rw [← hround] at hbounds hmod
  generalize pageAlign (length + 0xFFF) = size at *
  have hfree (b : U32) := @rangeOk_iff (k.withBrk brk) b size (fun i => h.regular i) hbounds.1
  -- a free base is a 32-bit word
  have hword {b : ℕ} (hb : (k.withBrk brk).FreeAt size.toNat b) :
      RangeOk (k.withBrk brk) (BitVec.ofNat 32 b) size ∧ (BitVec.ofNat 32 b).toNat = b := by
    have hupper := hb.upper
    have hnat : (BitVec.ofNat 32 b).toNat = b := by
      rw [BitVec.toNat_ofNat]
      omega
    exact ⟨(hfree _).mpr (by rwa [hnat]), hnat⟩
  intro addr flags hflags
  rcases mmapBase_highest (k.withBrk brk) addr hflags hmod hbounds.2 with
    ⟨base, heq, R, habove⟩ | ⟨heq, hnone⟩
  · rw [heq]
    refine ⟨(hfree base).mp R, fun b hb => ?_⟩
    obtain ⟨hok, hnat⟩ := hword hb
    exact hnat ▸ habove _ hok
  · rw [heq]
    exact ⟨rfl, fun b hb => hnone _ (hword hb).1⟩

/-- Beside a page that a program has mapped. -/
theorem placement_highest_mapped :
    ∃ s s' d, run step (boot MapSystem.smallBoot MapSystem.blank) [.run idle, .schedule] =
        some (started s d) ∧
      (started s d).taskMmap 0 0x1000 protWrite (mapPrivate ||| mapAnonymous) (-1) 0 noFile =
        some (mapped s' d, (0x04EEF000 : U32).toInt) ∧
      ((mapped s' d).withBrk 0x2800000).PlacesHighest 0x1000 := by
  obtain ⟨s, d, hrun, M⟩ := exists_started
  obtain ⟨s', hcall, -⟩ := started_mmap M
  refine ⟨s, s', d, hrun, hcall, placement_highest (.mmap .start ?_ hcall) _ _ (by decide) (by decide)⟩
  exact ⟨nofun, nofun, nofun⟩

end Kernel

end OpenHobbyOS
