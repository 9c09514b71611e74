/-
# Where `mmap` puts a mapping

`task_mmap` compares addresses and lengths as 32-bit words, so a range can wrap around; and a
mapping longer than the framebuffer gets pages only for the part that exists.
-/
import OpenHobbyOS.Kernel.Machine
import OpenHobbyOS.Lib.Tiling

namespace OpenHobbyOS

open Paging TablesOwned Lib Nat

/-- `length` rounded up to whole pages. -/
def roundUp (length : U32) : ℕ := (length.toNat + 4095) / 4096 * 4096

namespace Kernel

/-- The mapping that a call from `k` to `k'` has made is where it should be. -/
structure Placed (k k' : Kernel) (base length : U32) : Prop where
  aligned : base.toNat % pageSize = 0
  inside : userMmapBase.toNat ≤ base.toNat ∧ base.toNat + roundUp length ≤ userMmapTop.toNat
  mappings : ∀ i, (k.current.mappings i).used = true →
    Apart base.toNat (roundUp length) (k.current.mappings i).base.toNat
      (k.current.mappings i).length.toNat
  heap : Apart base.toNat (roundUp length) k.current.brkBase.toNat
    (k.current.brk.toNat - k.current.brkBase.toNat)
  present : ∀ v : U32, base.toNat ≤ v.toNat → v.toNat < base.toNat + roundUp length →
    pageIsPresent k'.paging (pageDirectoryGetCurrent k'.paging) v = true

/-- The end of the range is a 32-bit address below the top. -/
def MmapNoWrap (addr length flags : U32) : Prop :=
  if hasFlag flags mapFixed then (pageAlign addr).toNat + roundUp length < 2 ^ 32
  else roundUp length ≤ userMmapTop.toNat

/-- How much of a mapping of `size` bytes gets pages. -/
def mappedSize (size : U32) (kind : Option FdKind) (f : MmapFile) : U32 :=
  match f.framebuffer with
  | some (_, fbSize) =>
    if kind = some .fb0 ∧ fbSize ≤ size then pageAlign (fbSize + 0xFFF) else size
  | none => size

/-- No sum wraps around, the range lies below every recorded mapping that does, and what the
framebuffer does not cover is there already. -/
structure MmapFits (k : Kernel) (addr length flags : U32) (fd : ℤ) (f : MmapFile) : Prop where
  noWrap : MmapNoWrap addr length flags
  mappings : ∀ base, k.mmapBase addr (pageAlign (length + 0xFFF)) flags = .ok base →
    ∀ i, (k.current.mappings i).used = true →
      2 ^ 32 ≤ (k.current.mappings i).base.toNat + (k.current.mappings i).length.toNat →
      base.toNat + roundUp length ≤ (k.current.mappings i).base.toNat
  covered : ∀ base kind, k.mmapBase addr (pageAlign (length + 0xFFF)) flags = .ok base →
    k.mmapFd flags fd = .ok kind →
    ∀ v : U32, base.toNat + (mappedSize (pageAlign (length + 0xFFF)) kind f).toNat ≤ v.toNat →
      v.toNat < base.toNat + roundUp length →
      pageIsPresent k.paging (pageDirectoryGetCurrent k.paging) v = true

/-! ## The range -/

section Range

variable {k : Kernel} {addr length size flags base : U32}

lemma mmapSize_toNat (h : pageAlign (length + 0xFFF) ≠ 0) :
    (pageAlign (length + 0xFFF)).toNat = roundUp length := by
  have hsum : (length + 0xFFF).toNat = (length.toNat + 4095) % 2 ^ 32 := BitVec.toNat_add _ _
  have hlt := length.isLt
  have hval := pageAlign_toNat (length + 0xFFF)
  have hne : (pageAlign (length + 0xFFF)).toNat ≠ 0 := by
    intro h0
    exact h (BitVec.eq_of_toNat_eq h0)
  rw [roundUp]
  omega

lemma roundUp_mod (length : U32) : roundUp length % 4096 = 0 := mul_mod_left _ _

lemma mmapSearch_spec (k : Kernel) (size : U32) (n : ℕ) (start : U32) :
    ∃ j, (k.mmapSearch size n start).toNat + j * 4096 = start.toNat := by
  induction n generalizing start with
  | zero => exact ⟨0, by simp [mmapSearch]⟩
  | succ n ih =>
    rw [mmapSearch]
    split_ifs with hlow hfree hbase
    · exact ⟨0, by simp⟩
    · exact ⟨0, by simp⟩
    · exact ⟨0, by simp⟩
    · obtain ⟨j, hj⟩ := ih (start - 0x1000)
      have hge : 0x03C00000 ≤ start.toNat := by
        rw [BitVec.not_lt] at hlow
        exact hlow
      have hsub : (start - 0x1000).toNat + 4096 = start.toNat := by
        rw [BitVec.toNat_sub]
        change (2 ^ 32 - 4096 + start.toNat) % 2 ^ 32 + 4096 = _
        have := start.isLt
        omega
      exact ⟨j + 1, by rw [add_mul, one_mul, ← add_assoc, hj, hsub]⟩

/-- What the tests on a range that does not wrap around establish. -/
structure RangeOk (k : Kernel) (base size : U32) : Prop where
  aligned : base.toNat % 4096 = 0
  lower : userMmapBase.toNat ≤ base.toNat
  upper : base.toNat + size.toNat ≤ userMmapTop.toNat
  free : k.taskMappingOverlaps base size = false

lemma mmapBase_spec (hsize : pageAlign (length + 0xFFF) ≠ 0)
    (hbase : k.mmapBase addr (pageAlign (length + 0xFFF)) flags = .ok base)
    (hfit : MmapNoWrap addr length flags) : RangeOk k base (pageAlign (length + 0xFFF)) := by
  have hround := mmapSize_toNat hsize
  have hmod := roundUp_mod length
  rw [← hround] at hmod
  rw [MmapNoWrap, ← hround] at hfit
  generalize pageAlign (length + 0xFFF) = size at *
  have htop : userMmapTop.toNat = 0x04EF0000 := rfl
  rw [mmapBase] at hbase
  split_ifs at hbase hfit with hfixed
  · dsimp only at hbase
    split_ifs at hbase with hbad
    cases hbase
    simp only [not_or, BitVec.not_lt, Bool.not_eq_true] at hbad
    obtain ⟨hlower, hupper, hfree⟩ := hbad
    have hsum : (pageAlign addr + size).toNat = (pageAlign addr).toNat + size.toNat :=
      BitVec.toNat_add_of_lt hfit
    refine ⟨?_, hlower, ?_, hfree⟩
    · rw [pageAlign_toNat]
      omega
    · rw [← hsum]
      exact hupper
  · obtain ⟨j, hj⟩ := mmapSearch_spec k size 0x100000 (userMmapTop - size)
    generalize k.mmapSearch size 0x100000 (userMmapTop - size) = r at *
    dsimp only at hbase
    split_ifs at hbase with hbad
    cases hbase
    simp only [not_or, BitVec.not_lt, Bool.not_eq_true] at hbad
    have hstart : (userMmapTop - size).toNat = 0x04EF0000 - size.toNat := by
      rw [BitVec.toNat_sub_of_le hfit]
      rfl
    exact ⟨by omega, hbad.1, by omega, hbad.2⟩

lemma mmapBase_fixed (hfixed : hasFlag flags mapFixed = true)
    (hbase : k.mmapBase addr size flags = .ok base) : base = pageAlign addr := by
  rw [mmapBase, if_pos hfixed] at hbase
  dsimp only at hbase
  split_ifs at hbase
  cases hbase
  rfl

/-- A range that is apart from a mapping as words is so as numbers, unless the mapping
wraps around. -/
lemma apart_of_not_overlaps {m : TaskMapping} (hsum : base.toNat + size.toNat < 2 ^ 32)
    (hfree : rangeOverlaps base size m.base m.length = false)
    (hwrap : 2 ^ 32 ≤ m.base.toNat + m.length.toNat →
      base.toNat + size.toNat ≤ m.base.toNat) :
    Apart base.toNat size.toNat m.base.toNat m.length.toNat := by
  have hend : (base + size).toNat = base.toNat + size.toNat := BitVec.toNat_add_of_lt hsum
  simp only [rangeOverlaps, Bool.not_eq_false', Bool.or_eq_true, decide_eq_true_eq,
    BitVec.le_def, hend, BitVec.toNat_add] at hfree
  rw [Apart]
  by_cases hm : 2 ^ 32 ≤ m.base.toNat + m.length.toNat
  · exact .inl (hwrap hm)
  · rw [mod_eq_of_lt (by omega)] at hfree
    omega

namespace RangeOk

variable (R : RangeOk k base size)
include R

lemma sum_lt : base.toNat + size.toNat < 2 ^ 32 := by
  have htop : userMmapTop.toNat = 0x04EF0000 := rfl
  have := R.upper
  omega

lemma mapping {i : Fin taskMaxMmaps} (hi : (k.current.mappings i).used = true)
    (hwrap : 2 ^ 32 ≤ (k.current.mappings i).base.toNat + (k.current.mappings i).length.toNat →
      base.toNat + size.toNat ≤ (k.current.mappings i).base.toNat) :
    Apart base.toNat size.toNat (k.current.mappings i).base.toNat
      (k.current.mappings i).length.toNat := by
  have hfree := R.free
  rw [taskMappingOverlaps, Bool.or_eq_false_iff, List.any_eq_false] at hfree
  have hi' := hfree.1 i (List.mem_finRange i)
  rw [hi, Bool.true_and, Bool.not_eq_true] at hi'
  exact apart_of_not_overlaps R.sum_lt hi' hwrap

lemma heap : Apart base.toNat size.toNat k.current.brkBase.toNat
    (k.current.brk.toNat - k.current.brkBase.toNat) := by
  have hfree := R.free
  have hlower : 0x03C00000 ≤ base.toNat := R.lower
  rw [taskMappingOverlaps, Bool.or_eq_false_iff] at hfree
  have hheap := hfree.2
  rw [Apart]
  by_cases hbrk : userBase < k.current.brk
  · have hbrk' : 0x02000000 < k.current.brk.toNat := hbrk
    have hlen : (k.current.brk - userBase).toNat = k.current.brk.toNat - 0x02000000 := by
      rw [BitVec.toNat_sub_of_le (BitVec.le_of_lt hbrk)]
      rfl
    rw [decide_eq_true hbrk, Bool.true_and] at hheap
    have hub : userBase.toNat = 0x02000000 := rfl
    have hk := k.current.brk.isLt
    have := apart_of_not_overlaps (m := ⟨true, userBase, k.current.brk - userBase⟩) R.sum_lt hheap
      (by dsimp only; omega)
    dsimp only at this
    rw [Apart] at this
    omega
  · rw [BitVec.not_lt, BitVec.le_def] at hbrk
    change _ ≤ 0x02000000 at hbrk
    omega

end RangeOk

end Range

/-! ## The pages -/

section Pages

variable {k : Kernel} {ds : Set U32} {role : U32 → Role} {pd base size : U32}

lemma mappedSize_spec (hsize : size.toNat % 4096 = 0) (kind : Option FdKind) (f : MmapFile) :
    (mappedSize size kind f).toNat ≤ size.toNat ∧ (mappedSize size kind f).toNat % 4096 = 0 := by
  rw [mappedSize]
  split
  · rename_i fbSize _
    split_ifs with hfb
    · have hle : fbSize.toNat ≤ size.toNat := hfb.2
      have hval := pageAlign_toNat (fbSize + 0xFFF)
      have hsum : (fbSize + 0xFFF).toNat = (fbSize.toNat + 4095) % 2 ^ 32 := BitVec.toNat_add _ _
      have := fbSize.isLt
      omega
    · exact ⟨le_rfl, hsize⟩
  · exact ⟨le_rfl, hsize⟩

lemma pagesBelow_zero {n : U32} (h : n.toNat % 4096 = 0) : pagesBelow 0 n * 4096 = n.toNat := by
  rw [pagesBelow, pageSize]
  change (n.toNat - 0 + (4096 - 1)) / 4096 * 4096 = _
  omega

/-- **The pages of a new mapping** are present, as far as there is something to map. -/
lemma mmapPages_populated (T : TablesOwned k.paging ds role) (hlow : k.paging.alloc.Low)
    (hpd : pd ∈ ds) (R : RangeOk k base size) (hsize : size.toNat % 4096 = 0)
    {pageFlags flags pageOffset len : U32} {kind : Option FdKind} {f : MmapFile} {s' : PagingState}
    (hok : k.mmapPages pd base size pageFlags flags pageOffset kind f = some (s', .ok len)) :
    Populated k.paging s' ds pd base.toNat (base.toNat + (mappedSize size kind f).toNat) := by
  have hlo : 0x02000000 ≤ base.toNat := le_trans (by decide) R.lower
  have hhi : base.toNat + size.toNat ≤ 0x05000000 := le_trans R.upper (by decide)
  have hend : (base + size).toNat = base.toNat + size.toNat := BitVec.toNat_add_of_lt R.sum_lt
  obtain ⟨hle, hmod⟩ := mappedSize_spec hsize kind f
  -- frames that exist already
  have hexisting : ∀ {frame : PagingState → U32 → Option U32} {n : U32} {s₁ : PagingState},
      n.toNat ≤ size.toNat → n.toNat % 4096 = 0 →
      mapExistingPages pd pageFlags frame (pagesBelow 0 n) k.paging base 0 = (s₁, true) →
      Populated k.paging s₁ ds pd base.toNat (base.toNat + n.toNat) := by
    intro frame n s₁ hn hn' hmap
    have hzero : (0 : U32).toNat = 0 := rfl
    have P := mapExistingPages_populated T hlow hpd _ base 0 hlo
      (by rw [pagesBelow_zero hn', hzero]; omega) hmap
    rwa [pagesBelow_zero hn', hzero, add_zero] at P
  simp only [mmapPages] at hok
  by_cases hfb : kind = some .fb0
  · -- the framebuffer
    rw [if_pos hfb] at hok
    split at hok
    · cases hok
    · rename_i fbPhys fbSize hframebuffer
      have hmapped : mappedSize size kind f =
          if size < fbSize then size else pageAlign (fbSize + 0xFFF) := by
        simp only [mappedSize, hframebuffer, hfb, true_and, ← BitVec.not_lt, ite_not]
      rw [← hmapped] at hok
      split at hok
      · cases hok
      · rename_i s₁ hmap
        cases hok
        exact hexisting hle hmod hmap
  · have hmapped : mappedSize size kind f = size := by
      rw [mappedSize]
      split
      · rw [if_neg (fun h => hfb h.1)]
      · rfl
    rw [if_neg hfb] at hok
    rw [hmapped]
    split at hok
    · -- a shared file in memory
      split at hok
      · cases hok
      · split at hok
        · cases hok
        · rename_i s₁ hmap
          cases hok
          exact hexisting le_rfl hsize hmap
    · -- memory of its own
      split at hok
      · cases hok
      · rename_i s₁ hpages
        have hcount : pagesBelow base (base + size) * 4096 = size.toNat := by
          rw [pagesBelow, pageSize, hend]
          omega
        have P := allocUserPages_populated T hlow hpd _ base hlo (by omega) hpages
        rw [hcount] at P
        split at hok
        · cases hok
        · rename_i s₂ hzero
          have P₂ := P.store hzero
          split_ifs at hok
          · cases hok
          · obtain ⟨s₃, hread, heq⟩ := Option.map_eq_some_iff.mp hok
            cases heq
            exact P₂.store hread
          · cases hok
            exact P₂

end Pages

/-! ## The call -/

section Call

variable {k k' : Kernel} {addr length prot flags pageOffset : U32} {fd : ℤ} {f : MmapFile}

/-- The values `task_mmap` returns on errors. -/
def MmapError (v : ℤ) : Prop := -4096 < v ∧ v < 0

lemma mmapFd_error {e : ℤ} (h : k.mmapFd flags fd = .error e) : MmapError e := by
  simp only [mmapFd] at h
  split_ifs at h
  split at h
  · cases h
    exact ⟨by decide, by decide⟩
  · split_ifs at h
    · cases h
      exact ⟨by decide, by decide⟩
    · cases h
      exact ⟨by decide, by decide⟩

lemma mmapBase_error {size : U32} {e : ℤ} (h : k.mmapBase addr size flags = .error e) :
    MmapError e := by
  rw [mmapBase] at h
  dsimp only at h
  split_ifs at h <;> cases h <;> exact ⟨by decide, by decide⟩

lemma mmapPages_error {pd base size pageFlags : U32} {kind : Option FdKind} {s : PagingState}
    {e : ℤ} (h : k.mmapPages pd base size pageFlags flags pageOffset kind f = some (s, .error e)) :
    MmapError e := by
  simp only [mmapPages] at h
  have hdone : ∀ {o : Option PagingState},
      o.map (fun s => (s, (Except.ok size : Except ℤ U32))) ≠ some (s, .error e) := by
    intro o ho
    obtain ⟨_, -, heq⟩ := Option.map_eq_some_iff.mp ho
    cases heq
  repeat' split at h
  all_goals first
    | exact absurd h hdone
    | (cases h; exact ⟨by decide, by decide⟩)
    | cases h

lemma taskMmap_some {v : ℤ}
    (h : k.taskMmap addr length prot flags fd pageOffset f = some (k', v)) :
    MmapError v ∧ k'.current = k.current ∨ ∃ kind base s len m, pageAlign (length + 0xFFF) ≠ 0 ∧
      k.mmapFd flags fd = .ok kind ∧
      k.mmapBase addr (pageAlign (length + 0xFFF)) flags = .ok base ∧
      k.mmapPages (pageDirectoryGetCurrent k.paging) base (pageAlign (length + 0xFFF))
        (if hasFlag prot protWrite then pteUser ||| pteRw else pteUser) flags pageOffset kind f =
          some (s, .ok len) ∧
      v = base.toInt ∧ k'.paging = s ∧
      k'.current.mappings = Function.update k.current.mappings m ⟨true, base, len⟩ := by
  simp only [taskMmap] at h
  split at h
  · cases h
    exact .inl ⟨⟨by decide, by decide⟩, rfl⟩
  rename_i hsize
  split at h
  · rename_i e hfd
    cases h
    exact .inl ⟨mmapFd_error hfd, rfl⟩
  rename_i kind hfd
  split at h
  · cases h
    exact .inl ⟨⟨by decide, by decide⟩, rfl⟩
  split at h
  · rename_i e hbase
    cases h
    exact .inl ⟨mmapBase_error hbase, rfl⟩
  rename_i base hbase
  split at h
  · cases h
  · rename_i s e hpages
    cases h
    exact .inl ⟨mmapPages_error hpages, rfl⟩
  · rename_i s len hpages
    cases h
    exact .inr ⟨kind, base, s, len, _, fun h0 => hsize (.inl h0), hfd, hbase, hpages, rfl, rfl, rfl⟩

end Call

/-- **`mmap` placement.**  A mapping is placed well exactly if no sum wraps around, the range
lies below the recorded mappings that do, and the pages the framebuffer does not cover were there
before. -/
theorem mmap_placed_iff (k k' : Kernel) (ds : Set U32) (role : U32 → Role)
    (addr length prot flags pageOffset base : U32) (fd : ℤ) (f : MmapFile)
    (T : TablesOwned k.paging ds role) (hlow : k.paging.alloc.Low)
    (hcurrent : pageDirectoryGetCurrent k.paging ∈ ds)
    (hcall : k.taskMmap addr length prot flags fd pageOffset f = some (k', base.toInt))
    (hbase : ¬ MmapError base.toInt) :
    Placed k k' base length ↔ MmapFits k addr length flags fd f := by
  obtain ⟨herr, -⟩ | ⟨kind, base', s, len, m, hsize, hfd, hrange, hpages, heq, rfl, -⟩ :=
    taskMmap_some hcall
  · exact absurd herr hbase
  obtain rfl := BitVec.eq_of_toInt_eq heq
  have hround := mmapSize_toNat hsize
  have hmod := roundUp_mod length
  have hpop : MmapNoWrap addr length flags → RangeOk k base (pageAlign (length + 0xFFF)) ∧
      Populated k.paging k'.paging ds (pageDirectoryGetCurrent k.paging) base.toNat
        (base.toNat + (mappedSize (pageAlign (length + 0xFFF)) kind f).toNat) := by
    intro hfit
    have R := mmapBase_spec hsize hrange hfit
    exact ⟨R, mmapPages_populated T hlow hcurrent R (by rw [hround]; exact hmod) hpages⟩
  have hdir : ∀ {n}, Populated k.paging k'.paging ds (pageDirectoryGetCurrent k.paging) base.toNat n →
      pageDirectoryGetCurrent k'.paging = pageDirectoryGetCurrent k.paging := by
    intro n P
    rw [pageDirectoryGetCurrent, pageDirectoryGetCurrent, P.kernelPd, P.cr3]
  constructor
  · intro h
    have hupper : base.toNat + roundUp length ≤ 0x04EF0000 := h.inside.2
    have hfit : MmapNoWrap addr length flags := by
      rw [MmapNoWrap]
      split_ifs with hfixed
      · rw [← mmapBase_fixed hfixed hrange]
        omega
      · change roundUp length ≤ 0x04EF0000
        omega
    obtain ⟨R, P⟩ := hpop hfit
    refine ⟨hfit, ?_, ?_⟩
    · intro base₂ hrange₂ i hi hwrap
      rw [hrange] at hrange₂
      cases hrange₂
      have hne : 0 < roundUp length := by
        rw [← hround]
        exact pos_of_ne_zero fun h0 => hsize (BitVec.eq_of_toNat_eq h0)
      have := (k.current.mappings i).base.isLt
      have happart := h.mappings i hi
      rw [Apart] at happart
      omega
    · intro base₂ kind₂ hrange₂ hfd₂ v hv hv'
      rw [hrange] at hrange₂
      cases hrange₂
      rw [hfd] at hfd₂
      cases hfd₂
      rw [← P.outside v (.inr hv), ← hdir P]
      exact h.present v (by omega) hv'
  · intro h
    obtain ⟨R, P⟩ := hpop h.noWrap
    refine ⟨R.aligned, ⟨R.lower, ?_⟩, fun i hi => ?_, ?_, fun v hv hv' => ?_⟩
    · rw [← hround]
      exact R.upper
    · rw [← hround]
      exact R.mapping hi fun hwrap => by rw [hround]; exact h.mappings base hrange i hi hwrap
    · rw [← hround]
      exact R.heap
    · rw [hdir P]
      by_cases hin : v.toNat < base.toNat + (mappedSize (pageAlign (length + 0xFFF)) kind f).toNat
      · exact P.inside v hv hin
      · rw [P.outside v (.inr (by omega))]
        exact h.covered base kind hrange hfd v (by omega) hv'

/-! ## A framebuffer of one page -/

/-- A framebuffer of one page at `0xBFC00000`. -/
def onePage : MmapFile where
  ramfile := none
  framebuffer := some (0xBFC00000, 0x1000)
  fileSize := 0
  read := ⟨0, []⟩

/-- The small machine with the framebuffer open as descriptor 3. -/
def framebufferOpen (s : PagingState) (d : U32) : Kernel :=
  ((started s d).taskInstallFd .fb0 none 0).1

lemma framebufferOpen_run {s : PagingState} {d : U32}
    (hrun : run step (boot MapSystem.smallBoot MapSystem.blank) [.run idle, .schedule] =
      some (started s d)) :
    run step (boot MapSystem.smallBoot MapSystem.blank)
        [.run idle, .schedule, .syscall (.openFile ⟨.fb0, rfl⟩ none 0)] =
      some (framebufferOpen s d) := by
  have hsplit : ([.run idle, .schedule, .syscall (.openFile ⟨.fb0, rfl⟩ none 0)] : List Event) =
      [.run idle, .schedule] ++ [.syscall (.openFile ⟨.fb0, rfl⟩ none 0)] := rfl
  rw [hsplit, run_append, hrun]
  rfl

lemma mmapPages_framebuffer {k : Kernel} {f : MmapFile} {s : PagingState}
    {pd base size pageFlags flags pageOffset fbPhys fbSize mapSize : U32}
    (hf : f.framebuffer = some (fbPhys, fbSize))
    (hsize : (if size < fbSize then size else pageAlign (fbSize + 0xFFF)) = mapSize)
    (hmap : mapExistingPages pd pageFlags (fun _ page => some (fbPhys + page))
      (pagesBelow 0 mapSize) k.paging base 0 = (s, true)) :
    k.mmapPages pd base size pageFlags flags pageOffset (some .fb0) f = some (s, .ok mapSize) := by
  simp only [mmapPages, if_true, hf, hsize, hmap]

lemma framebufferOpen_mmap {s : PagingState} {d length : U32} (M : StartedMemory s d)
    (hlength : length = 0x1000 ∨ length = 0x2000) :
    ∃ k', (framebufferOpen s d).taskMmap userMmapBase length 0 (mapShared ||| mapFixed) 3 0 onePage =
        some (k', userMmapBase.toInt) ∧
      pageIsPresent k'.paging (pageDirectoryGetCurrent k'.paging) (userMmapBase + 0x1000) = false := by
  obtain ⟨role, h⟩ := M.spaces
  have hcur := M.getCurrent
  have hmap : ∃ s', pageMapExisting s d userMmapBase 0xBFC00000 pteUser = (s', true) := by
    have hfree := M.free
    rcases mapPage_spec h.tables (.inl (Set.mem_singleton d)) ptePresent userMmapBase 0xBFC00000
        pteUser (fun _ => by decide) (fun _ => h.nextLow) with ⟨-, hwhy⟩ | ⟨s', role', heq, -⟩
    · have := (hwhy (by decide) (by decide)).2
      omega
    · exact ⟨s', heq⟩
  obtain ⟨s', hmap⟩ := hmap
  have P := pageMapExisting_populated h.tables h.low (Set.mem_singleton d) _ (by decide) (by decide) hmap
  have habsent : pageIsPresent s' (pageDirectoryGetCurrent s') (userMmapBase + 0x1000) = false := by
    have hcur' : pageDirectoryGetCurrent s' = d := by
      rw [← hcur, pageDirectoryGetCurrent, pageDirectoryGetCurrent, P.kernelPd, P.cr3]
    rw [hcur', P.outside _ (.inr (by decide))]
    exact M.absent _ (by decide) (by decide)
  have hone : mapExistingPages d pteUser (fun _ page => some (0xBFC00000 + page))
      (pagesBelow 0 0x1000) s userMmapBase 0 = (s', true) := by
    have hn : pagesBelow 0 (0x1000 : U32) = 1 := by decide
    have hbase : userMmapBase + 0 = userMmapBase := by decide
    have hphys : (0xBFC00000 : U32) + 0 = 0xBFC00000 := by decide
    rw [hn, mapExistingPages]
    simp only [hbase, hphys, hmap]
    rfl
  have hpages : (framebufferOpen s d).mmapPages d userMmapBase length pteUser
      (mapShared ||| mapFixed) 0 (some .fb0) onePage = some (s', .ok 0x1000) := by
    have hsize : (if length < (0x1000 : U32) then length else pageAlign (0x1000 + 0xFFF)) =
        0x1000 := by
      rcases hlength with rfl | rfl <;> decide
    exact mmapPages_framebuffer rfl hsize hone
  have hround : pageAlign (length + 0xFFF) = length := by
    rcases hlength with rfl | rfl <;> decide
  have hrange : (framebufferOpen s d).mmapBase userMmapBase length (mapShared ||| mapFixed) =
      .ok userMmapBase := by
    rcases hlength with rfl | rfl <;> rfl
  have hfd : (framebufferOpen s d).mmapFd (mapShared ||| mapFixed) 3 = .ok (some .fb0) := rfl
  have hfind : ((List.finRange taskMaxMmaps).find? fun i =>
      !((framebufferOpen s d).current.mappings i).used) = some ⟨0, by decide⟩ := rfl
  have hcur' : pageDirectoryGetCurrent (framebufferOpen s d).paging = d := hcur
  have hflags : hasFlag (0 : U32) protWrite = false := by decide
  have hargs : ¬ (length = 0 ∨ (!hasFlag (mapShared ||| mapFixed) mapShared) = true ∧
      (!hasFlag (mapShared ||| mapFixed) mapPrivate) = true) := by
    rcases hlength with rfl | rfl <;> decide
  simp only [taskMmap, hround, if_neg hargs, hfd, hfind, hrange, hcur', hflags, Bool.false_eq_true,
    if_false, hpages]
  exact ⟨_, rfl, habsent⟩

/-- A length of one page. -/
theorem mmap_placed_framebuffer :
    ∃ k k', run step (boot MapSystem.smallBoot MapSystem.blank)
        [.run idle, .schedule, .syscall (.openFile ⟨.fb0, rfl⟩ none 0)] = some k ∧
      k.taskMmap userMmapBase 0x1000 0 (mapShared ||| mapFixed) 3 0 onePage =
        some (k', userMmapBase.toInt) ∧ Placed k k' userMmapBase 0x1000 := by
  obtain ⟨s, d, hrun, M⟩ := exists_started
  obtain ⟨role, h⟩ := M.spaces
  have hcur := M.getCurrent
  obtain ⟨k', hcall, -⟩ := framebufferOpen_mmap M (.inl rfl)
  refine ⟨_, k', framebufferOpen_run hrun, hcall, ?_⟩
  refine (mmap_placed_iff (framebufferOpen s d) k' {d} role _ _ _ _ _ _ _ _ h.tables h.low hcur hcall
    (fun herr => absurd herr.2 (by decide))).mpr ⟨?_, ?_, ?_⟩
  · rw [MmapNoWrap]
    decide
  · intro base _ i hi
    cases hi
  · intro base kind hrange hfd v hv hv'
    have hkind : (framebufferOpen s d).mmapFd (mapShared ||| mapFixed) 3 = .ok (some .fb0) := rfl
    rw [hkind] at hfd
    cases hfd
    have hmapped : mappedSize (pageAlign (0x1000 + 0xFFF)) (some .fb0) onePage = 0x1000 := by decide
    rw [hmapped] at hv
    have hround : roundUp 0x1000 = 0x1000 := by decide
    have hone : (0x1000 : U32).toNat = 0x1000 := rfl
    omega

/-- A length of two pages: the second is not there. -/
theorem mmap_beyond_framebuffer :
    ∃ k k', run step (boot MapSystem.smallBoot MapSystem.blank)
        [.run idle, .schedule, .syscall (.openFile ⟨.fb0, rfl⟩ none 0)] = some k ∧
      k.taskMmap userMmapBase 0x2000 0 (mapShared ||| mapFixed) 3 0 onePage =
        some (k', userMmapBase.toInt) ∧ ¬ Placed k k' userMmapBase 0x2000 := by
  obtain ⟨s, d, hrun, M⟩ := exists_started
  obtain ⟨k', hcall, habsent⟩ := framebufferOpen_mmap M (.inr rfl)
  refine ⟨_, k', framebufferOpen_run hrun, hcall, fun hplaced => ?_⟩
  rw [hplaced.present (userMmapBase + 0x1000) (by decide) (by decide)] at habsent
  cases habsent

end Kernel

end OpenHobbyOS
