/-
# Loading programs and growing address spaces

What the loops of `src/task.c` that map user pages do to the ownership of frames.
-/
import OpenHobbyOS.Kernel.Effects
import OpenHobbyOS.Paging.Spaces

namespace OpenHobbyOS

open Paging TablesOwned Option Nat

section Pages

variable {s s' : PagingState} {ds : Set U32} {role : U32 → Role} {pd flags : U32}

/-! ## Ranges of pages -/

lemma userIdx_of_toNat {v : U32} (hlo : 0x02000000 ≤ v.toNat) (hhi : v.toNat < 0x05000000) :
    UserIdx (virtToPdIndex v) := by
  rw [virtToPdIndex_eq]
  omega

lemma toNat_add_page {v : U32} (h : v.toNat + 4096 < 2 ^ 32) :
    (v + 0x1000#32).toNat = v.toNat + 4096 := by
  rw [BitVec.toNat_add]
  exact mod_eq_of_lt h

lemma pagesBelow_le_of_aligned (first last : U32) (hfirst : first.toNat % 4096 = 0)
    (hlast : last.toNat % 4096 = 0) :
    first.toNat + pagesBelow first last * 4096 ≤ max first.toNat last.toNat := by
  rw [pagesBelow, pageSize]
  omega

lemma pageAlign_toNat (v : U32) : (pageAlign v).toNat = v.toNat - v.toNat % 4096 :=
  and_pageMask_toNat v

lemma stackPages_toNat {n : ℕ} (hn : n ≤ 64) :
    (userStackTop - BitVec.ofNat 32 (n * pageSize)).toNat = 0x04FFF000 - n * 4096 := by
  rw [BitVec.toNat_sub, BitVec.toNat_ofNat, pageSize]
  change (2 ^ 32 - n * 4096 % 2 ^ 32 + 0x04FFF000) % 2 ^ 32 = _
  omega

lemma userTls_userIdx : UserIdx (virtToPdIndex userTlsAddr) := by decide

/-! ## Adding pages -/

lemma pageStep_store (h : SpacesOwned s ds role) (d : U32) {addr : U32} {bs : List U8}
    (hs : storeUser s addr bs = some s') : PageStep s s' ds d := by
  rw [storeUser_eq hs]
  exact .bytes h d _

lemma allocUserPages_step (h : SpacesOwned s ds role) (hpd : pd ∈ ds) (flags : U32) (n : ℕ)
    (va : U32) (hlo : 0x02000000 ≤ va.toNat) (hhi : va.toNat + n * 4096 ≤ 0x05000000) :
    PageStep s (allocUserPages pd flags n s va).1 ds pd := by
  induction n generalizing s va role with
  | zero => exact .refl h pd
  | succ n ih =>
    have P := h.allocUserPage hpd (userIdx_of_toNat hlo (by omega)) flags
    rw [allocUserPages]
    generalize pagingAllocUserPage s pd va flags = r at P
    obtain ⟨s₁, ok⟩ := r
    cases ok with
    | false => exact P
    | true =>
      obtain ⟨role₁, h₁⟩ := P.spaces
      have hva := toNat_add_page (v := va) (by omega)
      exact P.trans (ih h₁ (va + 0x1000#32) (by omega) (by omega))

/-! ## Which pages are present -/

/-- `s'` is `s` with the pages of `[lo, hi)` present in `pd`. -/
structure Populated (s s' : PagingState) (ds : Set U32) (pd : U32) (lo hi : ℕ) : Prop where
  tables : ∃ role, TablesOwned s' ds role
  low : s'.alloc.Low
  kernelPd : s'.kernelPd = s.kernelPd
  cr3 : s'.cr3 = s.cr3
  inside : ∀ v : U32, lo ≤ v.toNat → v.toNat < hi → pageIsPresent s' pd v = true
  outside : ∀ v : U32, v.toNat < lo ∨ hi ≤ v.toNat → pageIsPresent s' pd v = pageIsPresent s pd v

namespace Populated

variable {s'' : PagingState} {lo mid hi : ℕ}

lemma refl (T : TablesOwned s ds role) (hlow : s.alloc.Low) (pd : U32) (lo : ℕ) :
    Populated s s ds pd lo lo :=
  ⟨⟨role, T⟩, hlow, rfl, rfl, fun _ _ _ => by omega, fun _ _ => rfl⟩

lemma trans (h : Populated s s' ds pd lo mid) (h' : Populated s' s'' ds pd mid hi)
    (hlo : lo ≤ mid) (hhi : mid ≤ hi) : Populated s s'' ds pd lo hi where
  tables := h'.tables
  low := h'.low
  kernelPd := by rw [h'.kernelPd, h.kernelPd]
  cr3 := by rw [h'.cr3, h.cr3]
  inside := by
    intro v hv hv'
    by_cases hmid : v.toNat < mid
    · rw [h'.outside v (.inl hmid)]
      exact h.inside v hv hmid
    · exact h'.inside v (by omega) hv'
  outside := by
    intro v hv
    rw [h'.outside v (by omega), h.outside v (by omega)]

lemma store (h : Populated s s' ds pd lo hi) {addr : U32} {bs : List U8}
    (hs : storeUser s' addr bs = some s'') : Populated s s'' ds pd lo hi := by
  obtain ⟨role, T⟩ := h.tables
  rw [storeUser_eq hs]
  exact ⟨⟨role, T.congr rfl rfl fun _ => by simp [PagingState.entry]⟩, h.low, h.kernelPd, h.cr3,
    h.inside, h.outside⟩

end Populated

lemma populated_of_map {a : FrameAllocator} {role' : U32 → Role} {va fl e : U32}
    (hpd : pd ∈ ds) (hpd0 : pd ≠ 0) (hlow : a.Low) (hva : va.toNat % 4096 = 0)
    (E : MapEffect { s with alloc := a } s' ds role role' pd (virtToPdIndex va)
      (virtToPtIndex va) fl e) (he : hasFlag e ptePresent = true) :
    Populated s s' ds pd va.toNat (va.toNat + 4096) where
  tables := ⟨role', E.owned⟩
  low := E.low hlow
  kernelPd := E.kernelPd
  cr3 := E.cr3
  inside := by
    intro v hv hv'
    have hi : virtToPdIndex v = virtToPdIndex va := by
      rw [virtToPdIndex_eq, virtToPdIndex_eq]
      omega
    have hj : virtToPtIndex v = virtToPtIndex va := by
      rw [virtToPtIndex_eq, virtToPtIndex_eq]
      omega
    rw [pageIsPresent_eq s' hpd0, hi, hj, E.self, he]
  outside := by
    intro v hv
    have hne : virtToPdIndex v ≠ virtToPdIndex va ∨ virtToPtIndex v ≠ virtToPtIndex va := by
      by_contra hsame
      simp only [not_or, not_not, virtToPdIndex_eq, virtToPtIndex_eq] at hsame
      omega
    rw [pageIsPresent_eq s' hpd0, pageIsPresent_eq s hpd0,
      E.other (.inl hpd) (virtToPdIndex_lt v) (hne.imp_right .inl)]
    rfl

section Success

variable (T : TablesOwned s ds role) (hlow : s.alloc.Low) (hpd : pd ∈ ds)
include T hlow hpd

lemma pagingAllocUserPage_populated {va : U32} (hlo : 0x02000000 ≤ va.toNat)
    (hhi : va.toNat < 0x05000000) (hok : pagingAllocUserPage s pd va flags = (s', true)) :
    Populated s s' ds pd va.toNat (va.toNat + 4096) := by
  have hvirt : va < kernelVirtualBase := by
    rw [BitVec.lt_def]
    change va.toNat < 0xC0000000
    omega
  rcases pagingAllocUserPage_spec T (.inl hpd) va flags (fun _ => userIdx_of_toNat hlo hhi) hvirt
      (fun A _ => (A.low_iff.mpr hlow).nextLow A.wf) with
    ⟨heq, -⟩ | ⟨a, x, A, ⟨heq, -⟩ | ⟨s₁, role', heq, hva, E⟩⟩
  · rw [heq] at hok
    cases hok
  · rw [heq] at hok
    cases hok
  · rw [heq] at hok
    cases hok
    exact populated_of_map hpd (T.dir_ne_zero hpd) (A.low_iff.mpr hlow) (isPageAligned_iff.mp hva) E
      (entryCreate_or_present _ _ _ (by decide))

lemma pageMapExisting_populated {phys : U32} (va : U32) (hlo : 0x02000000 ≤ va.toNat)
    (hhi : va.toNat < 0x05000000) (hok : pageMapExisting s pd va phys flags = (s', true)) :
    Populated s s' ds pd va.toNat (va.toNat + 4096) := by
  rw [pageMapExisting] at hok
  rcases mapPage_spec T (.inl hpd) ptePresent va phys flags (fun _ => userIdx_of_toNat hlo hhi)
      (fun _ => hlow.nextLow T.wf) with ⟨heq, -⟩ | ⟨s₁, role', heq, hva, -, -, E⟩
  · rw [heq] at hok
    cases hok
  · rw [heq] at hok
    cases hok
    exact populated_of_map (a := s.alloc) hpd (T.dir_ne_zero hpd) hlow (isPageAligned_iff.mp hva) E
      (entryCreate_or_present _ _ _ (by decide))

lemma allocUserPages_populated (n : ℕ) (va : U32) (hlo : 0x02000000 ≤ va.toNat)
    (hhi : va.toNat + n * 4096 ≤ 0x05000000) (hok : allocUserPages pd flags n s va = (s', true)) :
    Populated s s' ds pd va.toNat (va.toNat + n * 4096) := by
  induction n generalizing s va role with
  | zero =>
    cases hok
    rw [zero_mul, add_zero]
    exact .refl T hlow pd _
  | succ n ih =>
    rw [allocUserPages] at hok
    split at hok
    · cases hok
    · rename_i s₁ hpage
      have P := pagingAllocUserPage_populated T hlow hpd hlo (by omega) hpage
      obtain ⟨role₁, T₁⟩ := P.tables
      have hva := toNat_add_page (v := va) (by omega)
      have hrest := ih T₁ P.low (va + 0x1000#32) (by omega) (by omega) hok
      rw [hva] at hrest
      have hend : va.toNat + (n + 1) * 4096 = va.toNat + 4096 + n * 4096 := by omega
      rw [hend]
      exact P.trans hrest (by omega) (by omega)

lemma mapExistingPages_populated {frame : PagingState → U32 → Option U32} (n : ℕ)
    (base page : U32) (hlo : 0x02000000 ≤ base.toNat)
    (hhi : base.toNat + page.toNat + n * 4096 ≤ 0x05000000)
    (hok : Kernel.mapExistingPages pd flags frame n s base page = (s', true)) :
    Populated s s' ds pd (base.toNat + page.toNat) (base.toNat + page.toNat + n * 4096) := by
  induction n generalizing s page role with
  | zero =>
    cases hok
    rw [zero_mul, add_zero]
    exact .refl T hlow pd _
  | succ n ih =>
    rw [Kernel.mapExistingPages] at hok
    split at hok
    · cases hok
    split at hok
    · cases hok
    · rename_i s₁ hpage
      have hsum : (base + page).toNat = base.toNat + page.toNat := BitVec.toNat_add_of_lt (by omega)
      have P := pageMapExisting_populated T hlow hpd (base + page) (by omega) (by omega) hpage
      rw [hsum] at P
      obtain ⟨role₁, T₁⟩ := P.tables
      have hnext := toNat_add_page (v := page) (by omega)
      have hrest := ih T₁ P.low (page + 0x1000#32) (by omega) hok
      rw [hnext, ← add_assoc] at hrest
      have hend : base.toNat + page.toNat + (n + 1) * 4096 =
          base.toNat + page.toNat + 4096 + n * 4096 := by omega
      rw [hend]
      exact P.trans hrest (by omega) (by omega)

end Success

/-! ## Segments -/

lemma loadSegment_step (h : SpacesOwned s ds role) (hpd : pd ∈ ds) {vaddr memsz : U32}
    {data : List U8} {ok : Bool} (hload : loadSegment s pd vaddr memsz data = some (s', ok)) :
    PageStep s s' ds pd := by
  simp only [loadSegment] at hload
  split at hload
  · cases hload
    exact .refl h pd
  rename_i hrange
  rw [not_or, BitVec.not_lt, BitVec.not_lt, BitVec.le_def, BitVec.le_def] at hrange
  change 0x02000000 ≤ _ ∧ _ ≤ 0x05000000 at hrange
  have hcount := pagesBelow_le_of_aligned (pageAlign vaddr)
    (pageAlign (vaddr + memsz + 0xFFF)) (by rw [pageAlign_toNat]; omega)
    (by rw [pageAlign_toNat]; omega)
  have hfirst : (pageAlign vaddr).toNat ≤ 0x05000000 ∨
      pagesBelow (pageAlign vaddr) (pageAlign (vaddr + memsz + 0xFFF)) = 0 := by
    rw [pagesBelow, pageSize]
    omega
  have P : PageStep s (allocUserPages pd (pteRw ||| pteUser)
      (pagesBelow (pageAlign vaddr) (pageAlign (vaddr + memsz + 0xFFF))) s (pageAlign vaddr)).1
      ds pd := by
    rcases hfirst with hfirst | hnone
    · exact allocUserPages_step h hpd _ _ _ hrange.1 (by omega)
    · rw [hnone]
      exact .refl h pd
  split at hload
  · rename_i s₁ hpages
    cases hload
    rwa [hpages] at P
  · rename_i s₁ hpages
    rw [hpages] at P
    obtain ⟨role₁, h₁⟩ := P.spaces
    split at hload
    · cases hload
    · rename_i s₂ hzero
      have P₂ := P.trans (pageStep_store h₁ pd hzero)
      obtain ⟨role₂, h₂⟩ := P₂.spaces
      obtain ⟨s₃, hdata, heq⟩ := map_eq_some_iff.mp hload
      cases heq
      exact P₂.trans (pageStep_store h₂ pd hdata)

lemma loadHeaders_step (h : SpacesOwned s ds role) (hpd : pd ∈ ds) {hs : List ProgramHeader}
    {image : ElfImage} {r : Option ElfImage}
    (hload : loadHeaders pd hs s image = some (s', r)) : PageStep s s' ds pd := by
  induction hs generalizing s image role with
  | nil =>
    cases hload
    exact .refl h pd
  | cons header hs ih =>
    cases header with
    | other => exact ih h hload
    | tls vaddr filesz memsz => exact ih h hload
    | load vaddr memsz data =>
      rw [loadHeaders] at hload
      split at hload
      · cases hload
      · rename_i hseg
        cases hload
        exact loadSegment_step h hpd hseg
      · rename_i s₁ hseg
        have P := loadSegment_step h hpd hseg
        obtain ⟨role₁, h₁⟩ := P.spaces
        exact P.trans (ih h₁ hload)

lemma elfLoadPaged_step (h : SpacesOwned s ds role) (hpd : pd ∈ ds) {exe : Executable}
    {r : Option ElfImage} (hload : elfLoadPaged s pd exe = some (s', r)) :
    PageStep s s' ds pd := by
  rw [elfLoadPaged] at hload
  split_ifs at hload
  · cases hload
    exact .refl h pd
  · obtain ⟨⟨s₁, image⟩, hheaders, heq⟩ := map_eq_some_iff.mp hload
    cases heq
    exact loadHeaders_step h hpd hheaders

end Pages

/-! ## Programs -/

section Programs

variable {s s' : PagingState} {ds : Set U32} {role : U32 → Role} {pd : U32}

lemma switch_back {r : PagingState} (hc : CanonicalCr3 s) :
    pageDirectorySwitch r (pageDirectoryGetCurrent s) = { r with cr3 := s.cr3 } := by
  rw [pageDirectorySwitch, if_neg hc.1, hc.2]

/-- **Loading a program**: it fails and the directories are as before, or there is one new
address space with the program's pages. -/
lemma loadImage_spec (h : SpacesOwned s ds role) (hc : CanonicalCr3 s) {prog : Program} {n : ℕ}
    (hn : n ≤ 64) {r : Except ℤ (U32 × ElfImage)} (hload : loadImage s prog n = some (s', r)) :
    (∃ e, r = .error e ∧ e < 0 ∧ SpacesKept s s' ds) ∨
      ∃ pd image, r = .ok (pd, image) ∧ NewSpace s s' ds pd ∧ s'.cr3 = s.cr3 := by
  rw [loadImage] at hload
  split at hload
  · rename_i e _
    cases hload
    exact .inl ⟨_, rfl, e.2, ⟨role, h⟩, rfl, rfl⟩
  rename_i exe _
  rcases h.create with hfull | ⟨s₁, pd, role₁, hcreate, hpd, E, h₁⟩
  · rw [hfull] at hload
    cases hload
    exact .inl ⟨_, rfl, by decide, ⟨role, h⟩, rfl, rfl⟩
  have N₁ : NewSpace s s₁ ds pd := ⟨s₁, role, role₁, h, E, h₁, .refl h₁ pd⟩
  have hcr3₁ : s₁.cr3 = s.cr3 := E.cr3
  have hcur : pageDirectoryGetCurrent s₁ = pageDirectoryGetCurrent s := by
    rw [pageDirectoryGetCurrent, pageDirectoryGetCurrent, E.kernelPd, E.cr3]
  simp only [hcreate, if_neg hpd, hcur] at hload
  split at hload
  · cases hload
    exact .inl ⟨_, rfl, by decide, N₁.discard hcr3₁⟩
  split at hload
  · cases hload
    exact .inl ⟨_, rfl, by decide, N₁.discard hcr3₁⟩
  split at hload
  · cases hload
    exact .inl ⟨_, rfl, by decide, N₁.discard hcr3₁⟩
  have hswitch : pageDirectorySwitch s₁ pd = { s₁ with cr3 := physOf pd } := by
    rw [pageDirectorySwitch, if_neg hpd]
  have N₂ : ∀ {s₂ r₂}, elfLoadPaged (pageDirectorySwitch s₁ pd) pd exe = some (s₂, r₂) →
      NewSpace s s₂ ds pd := by
    intro s₂ r₂ helf
    rw [hswitch] at helf
    exact (N₁.withCr3 (physOf pd)).step (elfLoadPaged_step (s := { s₁ with cr3 := physOf pd })
      (h₁.congr rfl rfl rfl rfl) (Set.mem_insert pd ds) helf)
  split at hload
  · cases hload
  · rename_i s₂ helf
    cases hload
    rw [switch_back hc]
    exact .inl ⟨_, rfl, by decide, ((N₂ helf).withCr3 _).discard rfl⟩
  · rename_i s₂ image helf
    rw [switch_back hc] at hload
    have N₃ := (N₂ helf).withCr3 s.cr3
    obtain ⟨role₃, h₃⟩ := N₃.spaces
    have htop := stackPages_toNat hn
    have P := allocUserPages_step h₃ (Set.mem_insert pd ds) (pteRw ||| pteUser) n
      (userStackTop - BitVec.ofNat 32 (n * pageSize)) (by omega) (by omega)
    split at hload
    · rename_i s₄ hpages
      cases hload
      rw [hpages] at P
      rw [switch_back hc]
      exact .inl ⟨_, rfl, by decide, ((N₃.step P).withCr3 _).discard rfl⟩
    · rename_i s₄ hpages
      cases hload
      rw [hpages] at P
      exact .inr ⟨pd, image, rfl, N₃.step P, P.cr3⟩

lemma setupTls_eq {image : ElfImage} (h : setupTls s image = some s') :
    s' = { s with bytes := s'.bytes } := by
  simp only [setupTls] at h
  have hstore : ∀ {s₁ addr bs}, s₁ = { s with bytes := s₁.bytes } →
      storeUser s₁ addr bs = some s' → s' = { s with bytes := s'.bytes } := by
    intro s₁ addr bs hs₁ hs
    have hs' := storeUser_eq hs
    rw [hs₁] at hs'
    exact hs'
  split at h
  · cases h
  rename_i s₁ hdata
  refine hstore ?_ h
  split at hdata
  · cases hdata
    rfl
  · split at hdata
    · cases hdata
    · split at hdata
      · cases hdata
      · rename_i s₂ hs₂
        have h₂ := storeUser_eq hs₂
        have h₁ := storeUser_eq hdata
        rw [h₂] at h₁
        exact h₁

/-- **Finishing a program**: on success the new directory is in `cr3`, otherwise it is gone
and the old one is. -/
lemma finishImage_spec {s₀ : PagingState} (N : NewSpace s₀ s ds pd) (hpd : pd ≠ 0)
    (hc : CanonicalCr3 s₀) {image : ElfImage} {stack : Option (List U8)} {ok : Bool}
    (hfin : finishImage s pd (pageDirectoryGetCurrent s₀) image stack = some (s', ok)) :
    (ok = false ∧ SpacesKept s₀ s' ds) ∨
      (ok = true ∧ NewSpace s₀ s' ds pd ∧ s'.cr3 = physOf pd) := by
  simp only [finishImage] at hfin
  have hswitch : pageDirectorySwitch s pd = { s with cr3 := physOf pd } := by
    rw [pageDirectorySwitch, if_neg hpd]
  have N₁ := N.withCr3 (physOf pd)
  obtain ⟨role₁, h₁⟩ := N₁.spaces
  have P := h₁.allocUserPage (Set.mem_insert pd ds) userTls_userIdx
    (pteRw ||| pteUser)
  have hfail : ∀ {s₂}, NewSpace s₀ s₂ ds pd →
      SpacesKept s₀ (pageDirectoryDestroy (pageDirectorySwitch s₂ (pageDirectoryGetCurrent s₀)) pd)
        ds := by
    intro s₂ N₂
    rw [switch_back hc]
    exact (N₂.withCr3 _).discard rfl
  rw [hswitch] at hfin
  split at hfin
  · rename_i s₂ hpage
    cases hfin
    rw [hpage] at P
    exact .inl ⟨rfl, hfail (N₁.step P)⟩
  rename_i s₂ hpage
  rw [hpage] at P
  have N₂ := N₁.step P
  split at hfin
  · cases hfin
  rename_i s₃ htls
  obtain ⟨role₂, h₂⟩ := N₂.spaces
  have P₃ : PageStep s₂ s₃ (insert pd ds) pd := by
    rw [setupTls_eq htls]
    exact .bytes h₂ pd _
  have N₃ := N₂.step P₃
  split at hfin
  · cases hfin
    exact .inl ⟨rfl, hfail N₃⟩
  · obtain ⟨s₄, hs, heq⟩ := map_eq_some_iff.mp hfin
    cases heq
    obtain ⟨role₃, h₃⟩ := N₃.spaces
    have P₄ := pageStep_store h₃ pd hs
    refine .inr ⟨rfl, N₃.step P₄, ?_⟩
    rw [P₄.cr3, P₃.cr3, P.cr3]

end Programs

end OpenHobbyOS
