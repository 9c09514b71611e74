/-
# Writing to the memory of another task

`task_slot_write_to_user` of `src/task.c` stores the result of a blocked call under the directory of
the sleeping task.  It tests the first and the last page and compares the end with the kernel's
half, so a range with a hole, or one that leaves the user area, is written to.
-/
import OpenHobbyOS.Kernel.Mmap

namespace OpenHobbyOS

open Paging TablesOwned Lib List Option

namespace Kernel

/-- Every byte lies in the user area, on a page of the slot's directory. -/
def UserRange (k : Kernel) (i : SlotId) (addr : U32) (n : ℕ) : Prop :=
  ∀ v : U32, addr.toNat ≤ v.toNat → v.toNat < addr.toNat + n →
    (userBase ≤ v ∧ v < userLimit) ∧ pageIsPresent k.paging (k.slots i).pageDirectory v = true

/-- The write is made, to user pages only, or fails and changes nothing; `cr3` is as before. -/
def WriteSafe (k : Kernel) (i : SlotId) (addr : U32) (src : List U8) : Prop :=
  k.slotWriteToUser i addr src = some (k, false) ∨
    ∃ k', k.slotWriteToUser i addr src = some (k', true) ∧ k.UserRange i addr src.length ∧
      k'.paging.cr3 = k.paging.cr3

/-- What the function tests. -/
structure EndsPresent (k : Kernel) (i : SlotId) (addr : U32) (n : ℕ) : Prop where
  directory : (k.slots i).pageDirectory ≠ 0
  length : n ≠ 0
  start : userBase ≤ addr
  fin : addr.toNat + n ≤ kernelVirtualBase.toNat
  first : pageIsPresent k.paging (k.slots i).pageDirectory addr = true
  last : pageIsPresent k.paging (k.slots i).pageDirectory (addr + .ofNat 32 n - 1) = true

/-- What is not tested: the range ends in the user area, and the pages strictly between the first
and the last are present. -/
structure RestPresent (k : Kernel) (i : SlotId) (addr : U32) (n : ℕ) : Prop where
  fin : addr.toNat + n ≤ userLimit.toNat
  between : ∀ v : U32, addr.toNat / 4096 < v.toNat / 4096 →
    v.toNat / 4096 < (addr.toNat + n - 1) / 4096 →
      pageIsPresent k.paging (k.slots i).pageDirectory v = true

variable {k : Kernel} {i : SlotId} {addr : U32} {src : List U8} {ds : Set U32} {role : U32 → Role}

lemma pageIsPresent_congr {s : PagingState} {d v w : U32} (hd : d ≠ 0)
    (h : v.toNat / 4096 = w.toNat / 4096) : pageIsPresent s d v = pageIsPresent s d w := by
  have hi : virtToPdIndex v = virtToPdIndex w ∧ virtToPtIndex v = virtToPtIndex w := by
    simp only [virtToPdIndex_eq, virtToPtIndex_eq]
    omega
  rw [pageIsPresent_eq s hd, pageIsPresent_eq s hd, hi.1, hi.2]

lemma userRange_iff {n : ℕ} (h : k.EndsPresent i addr n) :
    k.UserRange i addr n ↔ k.RestPresent i addr n := by
  have hpos := h.length
  have hfin := h.fin
  have hstart := BitVec.le_def.mp h.start
  have hkernel : kernelVirtualBase.toNat = 0xC0000000 := rfl
  have hlast : (addr + .ofNat 32 n - 1).toNat = addr.toNat + n - 1 := by
    have hone : (1 : U32).toNat = 1 := rfl
    rw [BitVec.toNat_sub, BitVec.toNat_add, BitVec.toNat_ofNat, hone]
    omega
  constructor
  · intro huser
    have hlt := BitVec.lt_def.mp (huser _ (by omega) (by omega) : (userBase ≤
      addr + .ofNat 32 n - 1 ∧ addr + .ofNat 32 n - 1 < userLimit) ∧ _).1.2
    exact ⟨by omega, fun v hv hv' => (huser v (by omega) (by omega)).2⟩
  · rintro ⟨hend, hbetween⟩ v hv hv'
    refine ⟨⟨BitVec.le_def.mpr (by omega), BitVec.lt_def.mpr (by omega)⟩, ?_⟩
    -- the page of a byte is the first one, the last one, or one in between
    by_cases hfirst : v.toNat / 4096 = addr.toNat / 4096
    · rw [pageIsPresent_congr h.directory hfirst]
      exact h.first
    by_cases hend' : v.toNat / 4096 = (addr.toNat + n - 1) / 4096
    · rw [pageIsPresent_congr h.directory (hend'.trans (by rw [hlast]))]
      exact h.last
    · exact hbetween v (by omega) (by omega)

lemma range_test_iff {n : ℕ} (hn : n < 2 ^ 32) :
    ¬ (addr < userBase ∨ addr + .ofNat 32 n < addr ∨
        kernelVirtualBase < addr + .ofNat 32 n) ↔
      userBase ≤ addr ∧ addr.toNat + n ≤ kernelVirtualBase.toNat := by
  have hkernel : kernelVirtualBase.toNat = 0xC0000000 := rfl
  have hlt := addr.isLt
  rw [not_or, not_or, BitVec.not_lt, BitVec.not_lt, BitVec.not_lt, BitVec.le_def, BitVec.le_def,
    BitVec.le_def, BitVec.toNat_add, BitVec.toNat_ofNat, Nat.mod_eq_of_lt hn]
  omega

lemma tablesOwned_withCr3 {s : PagingState} (T : TablesOwned s ds role) (c : U32) :
    TablesOwned { s with cr3 := c } ds role :=
  T.congr rfl rfl fun _ => by simp [PagingState.entry]

lemma pageIsPresent_switched {d : U32} (T : TablesOwned k.paging ds role) (hd : d ∈ ds) (v : U32) :
    pageIsPresent (pageDirectorySwitch k.paging d) 0 v = pageIsPresent k.paging d v := by
  have hd0 := T.dir_ne_zero hd
  have hcur : pageDirectoryGetCurrent ({ k.paging with cr3 := physOf d } : PagingState) = d :=
    pageDirectoryGetCurrent_eq (tablesOwned_withCr3 T _) hd rfl
  rw [pageDirectorySwitch, if_neg hd0, ← pageIsPresent_withCr3 hd0 (physOf d), pageIsPresent,
    pageIsPresent, orCurrent, orCurrent, if_pos rfl, if_neg hd0, hcur]

section

variable (T : TablesOwned k.paging ds role)
  (hpd : (k.slots i).pageDirectory = 0 ∨ (k.slots i).pageDirectory ∈ ds)
  (hcr3 : CanonicalCr3 k.paging) (hn : src.length < 2 ^ 32)

include T hpd hcr3 hn

lemma slotWriteToUser_refused (h : ¬ k.EndsPresent i addr src.length) :
    k.slotWriteToUser i addr src = some (k, false) := by
  rw [slotWriteToUser]
  dsimp only
  by_cases hnone : (k.slots i).pageDirectory = 0 ∨ src = []
  · rw [if_pos hnone]
  rw [if_neg hnone]
  by_cases hrange : userBase ≤ addr ∧ addr.toNat + src.length ≤ kernelVirtualBase.toNat
  swap
  · rw [← range_test_iff hn, not_not] at hrange
    rw [if_pos hrange]
  rw [if_neg ((range_test_iff hn).mpr hrange)]
  obtain ⟨h0, hsrc⟩ := not_or.mp hnone
  have hd := hpd.resolve_left h0
  rw [pageIsPresent_switched T hd, pageIsPresent_switched T hd, switch_back hcr3,
    pageDirectorySwitch, if_neg h0, if_neg]
  rw [Bool.and_eq_true]
  exact fun hends => h ⟨h0, by simpa using hsrc, hrange.1, hrange.2, hends.1, hends.2⟩

lemma slotWriteToUser_tested (h : k.EndsPresent i addr src.length) :
    k.slotWriteToUser i addr src =
      (storeUser { k.paging with cr3 := physOf (k.slots i).pageDirectory } addr src).map
        fun p => ({ k with paging := { p with cr3 := k.paging.cr3 } }, true) := by
  have hd := hpd.resolve_left h.directory
  have hsrc : src ≠ [] := fun hsrc => h.length (by rw [hsrc]; rfl)
  rw [slotWriteToUser]
  dsimp only
  rw [if_neg (not_or.mpr ⟨h.directory, hsrc⟩), if_neg ((range_test_iff hn).mpr ⟨h.start, h.fin⟩),
    pageIsPresent_switched T hd, pageIsPresent_switched T hd, h.first, h.last, Bool.and_true,
    if_pos rfl, pageDirectorySwitch, if_neg h.directory]
  simp only [switch_back hcr3]

/-- **A write to another task's memory** is safe exactly if what is not tested holds whenever the
tests are passed. -/
theorem slot_write_safe_iff :
    k.WriteSafe i addr src ↔
      (k.EndsPresent i addr src.length → k.RestPresent i addr src.length) := by
  by_cases hE : k.EndsPresent i addr src.length
  swap
  · exact iff_of_true (.inl (slotWriteToUser_refused T hpd hcr3 hn hE)) fun h => absurd h hE
  rw [WriteSafe, slotWriteToUser_tested T hpd hcr3 hn hE, userRange_iff hE]
  constructor
  · rintro (h | ⟨k', -, h, -⟩) -
    · obtain ⟨p, -, heq⟩ := map_eq_some_iff.mp h
      cases congrArg Prod.snd heq
    · exact h
  · intro h
    have hrest := h hE
    obtain ⟨p, hp⟩ := storeUser_ok (tablesOwned_withCr3 T (physOf (k.slots i).pageDirectory))
      (hpd.resolve_left hE.directory) rfl src addr hE.start hrest.fin fun v hv hv' => by
        rw [pageIsPresent_withCr3 hE.directory]
        exact ((userRange_iff hE).mpr hrest v hv hv').2
    rw [hp]
    exact .inr ⟨_, rfl, hrest, rfl⟩

end

lemma StartedMemory.tls_present {s : PagingState} {d v : U32} (M : StartedMemory s d)
    (hv : 0x04FFF000 ≤ v.toNat) (hv' : v.toNat < 0x05000000) : pageIsPresent s d v = true := by
  obtain ⟨role, h⟩ := M.spaces
  have hi : virtToPdIndex v = 19 ∧ virtToPtIndex v = 1023 := by
    rw [virtToPdIndex_eq, virtToPtIndex_eq]
    constructor <;> omega
  rw [pageIsPresent_eq s (h.tables.dir_ne_zero rfl), hi.1, hi.2]
  exact M.tls.1

/-- A word of that page. -/
theorem slot_write_safe_tls :
    ∃ s d, run step (boot MapSystem.smallBoot MapSystem.blank) [.run idle, .schedule] =
        some (started s d) ∧
      (started s d).EndsPresent 0 userTlsAddr 4 ∧
      (started s d).WriteSafe 0 userTlsAddr (wordBytes 0) := by
  obtain ⟨s, d, hrun, M⟩ := exists_started
  obtain ⟨role, h⟩ := M.spaces
  have hd0 := h.tables.dir_ne_zero (Set.mem_singleton d)
  have hcr3 : CanonicalCr3 (started s d).paging := by
    change CanonicalCr3 s
    rw [CanonicalCr3, M.getCurrent]
    exact ⟨hd0, M.cr3.symm⟩
  refine ⟨s, d, hrun, ⟨hd0, by decide, by decide, by decide, M.tls_present (by decide) (by decide),
    M.tls_present (by decide) (by decide)⟩, ?_⟩
  refine (slot_write_safe_iff h.tables (.inr (Set.mem_singleton d)) hcr3 (by decide)).mpr ?_
  have htls : userTlsAddr.toNat = 0x04FFF000 := rfl
  have hlen : (wordBytes 0).length = 4 := rfl
  exact fun _ => ⟨by decide, fun v hv hv' => by omega⟩

/-! ## A page of private memory -/

/-- No file. -/
def noFile : MmapFile := ⟨none, none, 0, ⟨0, []⟩⟩

/-- The kernel once the program has mapped a page of private memory. -/
def mapped (s : PagingState) (d : U32) : Kernel :=
  { started s d with
    paging := s
    current := { idleState 2 with
      mappings := Function.update (idleState 2).mappings ⟨0, by decide⟩ ⟨true, 0x04EEF000, 0x1000⟩ } }

lemma started_mmap {s : PagingState} {d : U32} (M : StartedMemory s d) :
    ∃ s', (started s d).taskMmap 0 0x1000 protWrite (mapPrivate ||| mapAnonymous) (-1) 0 noFile =
        some (mapped s' d, (0x04EEF000 : U32).toInt) ∧
      pageDirectoryGetCurrent s' = d ∧ Populated s s' {d} d 0x04EEF000 0x04EF0000 := by
  obtain ⟨role, h⟩ := M.spaces
  have hmem : d ∈ ({d} : Set U32) := rfl
  have hcur := M.getCurrent
  obtain ⟨s₁, hpages, -⟩ := allocUserPages_ok h hmem (pteUser ||| pteRw) 1 0x04EEF000 (by decide)
    (by decide) (by decide) (by have := M.free; omega)
  have P := allocUserPages_populated h.tables h.low hmem 1 0x04EEF000 (by decide) (by decide) hpages
  obtain ⟨role₁, T₁⟩ := P.tables
  obtain ⟨s₂, hstore⟩ := storeUser_ok T₁ hmem (P.cr3.trans M.cr3) (replicate 0x1000 0)
    0x04EEF000 (by decide) (by rw [length_replicate]; decide) (fun v hv hv' =>
      P.inside v hv (by rwa [length_replicate] at hv'))
  have P₂ := P.store hstore
  refine ⟨s₂, ?_, ?_, P₂⟩
  · have hround : pageAlign ((0x1000 : U32) + 0xFFF) = 0x1000 := by decide
    have hrange : (started s d).mmapBase 0 0x1000 (mapPrivate ||| mapAnonymous) = .ok 0x04EEF000 :=
      rfl
    have hfd : (started s d).mmapFd (mapPrivate ||| mapAnonymous) (-1) = .ok none := rfl
    have hfind : ((finRange taskMaxMmaps).find? fun i =>
        !((started s d).current.mappings i).used) = some ⟨0, by decide⟩ := rfl
    have hcur' : pageDirectoryGetCurrent (started s d).paging = d := hcur
    have hargs : ¬ ((0x1000 : U32) = 0 ∨ (!hasFlag (mapPrivate ||| mapAnonymous) mapShared) = true ∧
        (!hasFlag (mapPrivate ||| mapAnonymous) mapPrivate) = true) := by decide
    have hwrite : hasFlag protWrite protWrite = true := by decide
    have hcount : pagesBelow 0x04EEF000 (0x04EEF000 + 0x1000) = 1 := by decide
    have hdone : (started s d).mmapPages d 0x04EEF000 0x1000 (pteUser ||| pteRw)
        (mapPrivate ||| mapAnonymous) 0 none noFile = some (s₂, .ok 0x1000) := by
      have hlen : (0x1000 : U32).toNat = 0x1000 := rfl
      simp only [mmapPages, hcount, isSome_none, Bool.false_eq_true, if_false, false_and,
        hlen]
      rw [if_neg (by decide)]
      have hs : (started s d).paging = s := rfl
      rw [hs, hpages]
      dsimp only
      rw [hstore]
    simp only [taskMmap, hround, if_neg hargs, hfd, hfind, hrange, hcur', hwrite, if_true, hdone]
    rfl
  · rw [← hcur, pageDirectoryGetCurrent, pageDirectoryGetCurrent, P₂.kernelPd, P₂.cr3]

/-- A mapped page and the thread-local page pass the tests; there is nothing in between. -/
theorem slot_write_over_hole :
    ∃ s s' d, run step (boot MapSystem.smallBoot MapSystem.blank) [.run idle, .schedule] =
        some (started s d) ∧
      (started s d).taskMmap 0 0x1000 protWrite (mapPrivate ||| mapAnonymous) (-1) 0 noFile =
        some (mapped s' d, (0x04EEF000 : U32).toInt) ∧
      ¬ (mapped s' d).WriteSafe 0 0x04EEF000 (replicate 0x110001 0) := by
  obtain ⟨s, d, hrun, M⟩ := exists_started
  obtain ⟨role, h⟩ := M.spaces
  obtain ⟨s', hcall, hcur, P⟩ := started_mmap M
  obtain ⟨role', T'⟩ := P.tables
  have hd0 := h.tables.dir_ne_zero (Set.mem_singleton d)
  have hlen : (replicate 0x110001 (0 : U8)).length = 0x110001 := length_replicate
  have hends : (mapped s' d).EndsPresent 0 0x04EEF000 0x110001 := by
    refine ⟨hd0, by decide, by decide, by decide, P.inside 0x04EEF000 (by decide) (by decide), ?_⟩
    have hlast := P.outside 0x04FFF000 (.inr (by decide))
    rw [M.tls_present (by decide) (by decide)] at hlast
    exact hlast
  have hcr3 : CanonicalCr3 s' := by
    rw [CanonicalCr3, hcur, P.cr3]
    exact ⟨hd0, M.cr3.symm⟩
  rw [← hlen] at hends
  refine ⟨s, s', d, hrun, hcall, ?_⟩
  rintro (hr | ⟨k', -, huser, -⟩)
  · -- the tests are passed, so the answer is not `false`
    rw [slotWriteToUser_tested T' (.inr (Set.mem_singleton d)) hcr3 (by rw [hlen]; decide) hends]
      at hr
    obtain ⟨p, -, heq⟩ := map_eq_some_iff.mp hr
    cases congrArg Prod.snd heq
  · have hpage := (huser 0x04EF0000 (by decide) (by rw [hlen]; decide)).2
    have habsent : pageIsPresent s' d 0x04EF0000 = false := by
      rw [P.outside 0x04EF0000 (.inr (by decide))]
      exact M.absent 0x04EF0000 (by decide) (by decide)
    exact absurd (habsent.symm.trans hpage) Bool.false_ne_true

end Kernel

end OpenHobbyOS
