/-
# The effect of the mapping operations

What `page_map`, `page_map_existing`, `paging_alloc_user_page` and `page_directory_create` do to the
table entries (`pte`) of every directory, to the roles and to the number of free frames.
-/
import OpenHobbyOS.Paging.Ownership

namespace OpenHobbyOS.Paging

open PagingState FrameAllocator TablesOwned Function

/-! ## Writing one table entry -/

/-- `s'` is `s` with entry `j` of the table behind entry `i` of `pd` replaced.  Outside the user
range other directories may see it. -/
structure PteWrite (s s' : PagingState) (ds : Set U32) (pd : U32) (i j : ℕ) (e : U32) :
    Prop where
  alloc : s'.alloc = s.alloc
  kernelPd : s'.kernelPd = s.kernelPd
  active : s'.active = s.active
  bytes : s'.bytes = s.bytes
  cr3 : s'.cr3 = s.cr3
  pdes : ∀ {d k}, Known s ds d → s'.entry d k = s.entry d k
  self : pte s' pd i j = e
  other : ∀ {d k l}, Known s ds d → k < 1024 → k ≠ i ∨ l ≠ j ∨ (UserIdx i ∧ d ≠ pd) →
    pte s' d k l = pte s d k l

section PteWrite

variable {s : PagingState} {ds : Set U32} {role : U32 → Role} {pd : U32} {i j : ℕ}

lemma setEntry_table (T : TablesOwned s ds role) (hpd : Known s ds pd) (hi : i < 1024)
    (hp : hasFlag (s.entry pd i) ptePresent = true) (j : ℕ) (e : U32) :
    PteWrite s (s.setEntry (s.ptablePtr (entryGetPhys (s.entry pd i))) j e) ds pd i j e := by
  have hpt := T.physOf_table hpd hi hp
  have hrole := T.role_table hpd hi hp
  have hpdes : ∀ {d k}, Known s ds d →
      (s.setEntry (s.ptablePtr (entryGetPhys (s.entry pd i))) j e).entry d k = s.entry d k := by
    intro d k hd
    exact entry_setEntry_of_ne (by rw [hpt]; exact (T.table_ne_known hpd hi hp hd).symm)
  have hptr : ∀ x, (s.setEntry (s.ptablePtr (entryGetPhys (s.entry pd i))) j e).ptablePtr x =
      s.ptablePtr x := fun _ => rfl
  refine ⟨rfl, rfl, rfl, rfl, rfl, hpdes, ?_, ?_⟩
  · rw [pte, hpdes hpd, if_pos hp, hptr, entry_setEntry_self]
  · intro d k l hd hk hne
    rw [pte, pte, hpdes hd]
    split_ifs with hpk
    · rw [hptr, entry_setEntry, if_neg]
      rw [T.physOf_table hd hk hpk, hpt]
      rintro ⟨heq, rfl⟩
      have hrole' := T.role_table hd hk hpk
      rw [heq, hrole] at hrole'
      obtain ⟨rfl, hsame⟩ := tableRole_inj hrole'
      rcases hne with h | h | ⟨hu, h⟩
      · exact h rfl
      · exact h rfl
      · exact h (hsame hu).symm
    · rfl

lemma PteWrite.owned {s' : PagingState} {e : U32} (W : PteWrite s s' ds pd i j e)
    (T : TablesOwned s ds role) : TablesOwned s' ds role :=
  T.congr W.alloc W.kernelPd fun hd => by rw [W.pdes hd]; simp

end PteWrite

/-! ## `page_map` and `page_map_existing` -/

/-- What a successful mapping call leaves behind. -/
structure MapEffect (s s' : PagingState) (ds : Set U32) (role role' : U32 → Role)
    (pd : U32) (i j : ℕ) (flags e : U32) : Prop
    extends EntryEffect s s' ds role role' pd i flags where
  self : pte s' pd i j = e
  other : ∀ {d k l}, Known s ds d → k < 1024 → k ≠ i ∨ l ≠ j ∨ (UserIdx i ∧ d ≠ pd) →
    pte s' d k l = pte s d k l

section MapPage

variable {s : PagingState} {ds : Set U32} {role : U32 → Role} {pd : U32}

/-- **Mapping a page** in the user range or in the kernel's directory fails and changes nothing,
with aligned arguments exactly when the table is missing and no frame is left, or has the effect
`MapEffect`. -/
lemma mapPage_spec (T : TablesOwned s ds role) (hpd : Known s ds pd)
    (own virt phys flags : U32)
    (hown : pd ∈ ds → UserIdx (virtToPdIndex virt))
    (hnext : hasFlag (s.entry pd (virtToPdIndex virt)) ptePresent = false → s.alloc.NextLow) :
    (mapPage own s pd virt phys flags = (s, false) ∧
        (isPageAligned virt = true → isPageAligned phys = true →
          hasFlag (s.entry pd (virtToPdIndex virt)) ptePresent = false ∧
            s.alloc.freeCount = 0)) ∨
      ∃ s' role', mapPage own s pd virt phys flags = (s', true) ∧
        isPageAligned virt = true ∧ isPageAligned phys = true ∧
        (hasFlag (s.entry pd (virtToPdIndex virt)) ptePresent = true ∨ 0 < s.alloc.freeCount) ∧
        MapEffect s s' ds role role' pd (virtToPdIndex virt) (virtToPtIndex virt) flags
          (entryCreate phys (flags ||| own)) := by
  rw [mapPage]
  by_cases harg : pd = 0 ∨ !isPageAligned virt ∨ !isPageAligned phys
  · left
    refine ⟨if_pos harg, fun hv hp => ?_⟩
    rcases harg with h | h | h
    · exact absurd h (T.known_ne_zero hpd)
    · simp [hv] at h
    · simp [hp] at h
  · rw [if_neg harg]
    simp only [not_or, Bool.not_eq_true', Bool.not_eq_false] at harg
    obtain ⟨-, hv, hph⟩ := harg
    have hi := virtToPdIndex_lt virt
    rcases getTable_spec T hpd hown hi hnext flags with ⟨heq, hp, hc⟩ | ⟨s₁, pt, role', heq, hfree, F⟩
    · left
      rw [heq]
      exact ⟨rfl, fun _ _ => ⟨hp, hc⟩⟩
    · right
      have hknown : ∀ {d}, Known s ds d → Known s₁ ds d := by
        intro d hd
        rw [Known, F.kernelPd]
        exact hd
      have hpd₁ := hknown hpd
      have W := setEntry_table F.owned hpd₁ hi F.present (virtToPtIndex virt)
        (entryCreate phys (flags ||| own))
      rw [F.table] at W
      rw [heq]
      refine ⟨_, role', rfl, hv, hph, hfree, ?_⟩
      refine
        { owned := W.owned F.owned
          mono := F.mono
          grow := F.grow
          kernelPd := by rw [W.kernelPd, F.kernelPd]
          active := by rw [W.active, F.active]
          bytes := by rw [W.bytes, F.bytes]
          cr3 := by rw [W.cr3, F.cr3]
          present := by rw [W.pdes hpd₁, F.present]
          pdePhys := by rw [W.pdes hpd₁, F.pdePhys]
          pdeUser := by rw [W.pdes hpd₁, F.pdeUser]
          pdeRw := by rw [W.pdes hpd₁, F.pdeRw]
          pdeSame := ?_
          self := W.self
          other := ?_
          alloc := by rw [W.alloc, F.alloc] }
      · intro d k hd hne
        rw [W.pdes (hknown hd), F.pdeSame hd hne]
      · intro d k l hd hk hne
        rw [W.other (hknown hd) hk hne, F.pteSame hd hk]

end MapPage

section MapEffect

variable {s s' : PagingState} {ds : Set U32} {role role' : U32 → Role} {pd flags e : U32} {i j : ℕ}

lemma MapEffect.low (E : MapEffect s s' ds role role' pd i j flags e) (h : s.alloc.Low) :
    s'.alloc.Low := by
  rw [E.alloc]
  split_ifs
  · exact h
  · exact low_frameAlloc.mpr h

lemma MapEffect.freeCount (E : MapEffect s s' ds role role' pd i j flags e) :
    s'.alloc.freeCount =
      s.alloc.freeCount - if hasFlag (s.entry pd i) ptePresent then 0 else 1 := by
  rw [E.alloc]
  split_ifs
  · rfl
  · rw [freeCount_frameAlloc]

lemma MapEffect.managed_iff (E : MapEffect s s' ds role role' pd i j flags e) {x : U32} :
    s'.alloc.Managed x ↔ s.alloc.Managed x := by
  rw [E.alloc]
  split_ifs
  · rfl
  · exact managed_frameAlloc

lemma MapEffect.keeps (E : MapEffect s s' ds role role' pd i j flags e) {x : U32}
    (h : PageFrame s role x) : PageFrame s' role' x := by
  have hman := E.managed_iff (x := x)
  refine ⟨?_, fun hm => ?_⟩
  · rcases E.grow h.1 with hfree | ⟨hrole, hun⟩
    · exact hfree
    · have hm : s'.alloc.Managed x := E.owned.managed (by
        rw [hrole]
        exact tableRole_ne_free s pd i)
      exact absurd (h.2 (hman.mp hm)) hun
  · rw [E.alloc]
    split_ifs
    · exact h.2 (hman.mp hm)
    · exact (h.2 (hman.mp hm)).frameAlloc

end MapEffect

/-! ## `paging_alloc_user_page` -/

section AllocUserPage

variable {s : PagingState} {ds : Set U32} {role : U32 → Role} {pd virt flags x : U32}
  {a : FrameAllocator}

lemma TablesOwned.alloc (T : TablesOwned s ds role) (A : AllocEffect s.alloc a x) :
    TablesOwned { s with alloc := a } ds role where
  wf := A.wf
  marked := by
    intro y hy
    obtain ⟨halign, hmark⟩ := T.marked hy
    exact ⟨halign, (A.marked_iff halign).mpr (.inl hmark)⟩
  lt_oneGiB := T.lt_oneGiB
  kernel := ⟨T.kernel.1, fun h => T.kernel.2 (A.managed_iff.mp h)⟩
  kernelPtr := T.kernelPtr
  dir := T.dir
  kpde := T.kpde
  pde := T.pde
  pdeOwn := T.pdeOwn

lemma TablesOwned.free (T : TablesOwned s ds role) (hx : isPageAligned x = true)
    (hfree : role x = .free) :
    TablesOwned { s with alloc := frameFree s.alloc x } ds role where
  wf := T.wf.frameFree x
  marked := by
    intro y hy
    obtain ⟨halign, hmark⟩ := T.marked hy
    refine ⟨halign, (marked_frameFree T.wf hx halign).mpr ⟨hmark, ?_⟩⟩
    rintro rfl
    exact hy hfree
  lt_oneGiB := T.lt_oneGiB
  kernel := ⟨T.kernel.1, fun h => T.kernel.2 (managed_frameFree.mp h)⟩
  kernelPtr := T.kernelPtr
  dir := T.dir
  kpde := T.kpde
  pde := T.pde
  pdeOwn := T.pdeOwn

/-- **`paging_alloc_user_page`**: no frame is left, or the frame is given back because the mapping
failed, or the page is mapped to a fresh frame. -/
lemma pagingAllocUserPage_spec (T : TablesOwned s ds role) (hpd : Known s ds pd)
    (virt flags : U32)
    (hown : pd ∈ ds → UserIdx (virtToPdIndex virt)) (hvirt : virt < kernelVirtualBase)
    (hnext : ∀ {a x}, AllocEffect s.alloc a x →
      hasFlag (s.entry pd (virtToPdIndex virt)) ptePresent = false → a.NextLow) :
    (pagingAllocUserPage s pd virt flags = (s, false) ∧ s.alloc.freeCount = 0) ∨
      ∃ a x, AllocEffect s.alloc a x ∧
        ((pagingAllocUserPage s pd virt flags =
              ({ s with alloc := frameFree a x }, false) ∧
            (isPageAligned virt = true →
              hasFlag (s.entry pd (virtToPdIndex virt)) ptePresent = false ∧
                a.freeCount = 0)) ∨
          ∃ s' role', pagingAllocUserPage s pd virt flags = (s', true) ∧
            isPageAligned virt = true ∧
            MapEffect { s with alloc := a } s' ds role role' pd (virtToPdIndex virt)
              (virtToPtIndex virt) (flags ||| pteUser)
              (entryCreate x (flags ||| pteUser ||| (ptePresent ||| pteAllocated)))) := by
  have hge : ¬ kernelVirtualBase ≤ virt := by
    rw [BitVec.not_le]
    exact hvirt
  rw [pagingAllocUserPage, if_neg (T.known_ne_zero hpd), if_neg hge]
  rcases frameAlloc_spec T.wf with ⟨heq, hc⟩ | ⟨a, x, A⟩
  · left
    simp [heq, hc]
  · right
    refine ⟨a, x, A, ?_⟩
    simp only [A.eq, A.ne_zero, if_false]
    rcases mapPage_spec (T.alloc A) hpd (ptePresent ||| pteAllocated) virt x
        (flags ||| pteUser) hown (hnext A) with
      ⟨hmap, hwhy⟩ | ⟨s', role', hmap, hv, -, -, E⟩
    · left
      rw [pageMap, hmap]
      exact ⟨rfl, fun hv => hwhy hv A.aligned⟩
    · right
      rw [pageMap, hmap]
      exact ⟨s', role', rfl, hv, E⟩

end AllocUserPage

/-! ## New directories -/

/-- A successful `page_directory_create`: the user range of `d` is empty, and the other entries
translate as the kernel's do. -/
structure CreateEffect (s s' : PagingState) (ds : Set U32) (role role' : U32 → Role)
    (d : U32) : Prop where
  owned : TablesOwned s' (insert d ds) role'
  mono : ∀ {y}, role y ≠ .free → role' y = role y
  grow : ∀ {y}, role y = .free → role' y = .free ∨ role' y = .dir
  keeps : ∀ {y}, PageFrame s role y → PageFrame s' role' y
  fresh : role (physOf d) = .free
  notMem : d ∉ ds
  kernelPd : s'.kernelPd = s.kernelPd
  active : s'.active = s.active
  bytes : s'.bytes = s.bytes
  cr3 : s'.cr3 = s.cr3
  pdes : ∀ {d' k}, Known s ds d' → s'.entry d' k = s.entry d' k
  ptes : ∀ {d' k l}, Known s ds d' → k < 1024 → pte s' d' k l = pte s d' k l
  user : ∀ {k}, UserIdx k → s'.entry d k = 0
  rest : ∀ {k l}, ¬ UserIdx k → k < 1024 → pte s' d k l = pte s s.kernelPd k l
  pdeRest : ∀ {k}, ¬ UserIdx k → k < 1024 →
    hasFlag (s'.entry d k) ptePresent = hasFlag (s.entry s.kernelPd k) ptePresent ∧
    (hasFlag (s.entry s.kernelPd k) ptePresent = true →
      entryGetPhys (s'.entry d k) = entryGetPhys (s.entry s.kernelPd k))
  alloc : s'.alloc = (frameAlloc s.alloc).1
  frame : physOf d = (frameAlloc s.alloc).2
  count : 0 < s.alloc.freeCount

lemma CreateEffect.managed_iff {s s' : PagingState} {ds : Set U32} {role role' : U32 → Role}
    {d x : U32} (E : CreateEffect s s' ds role role' d) :
    s'.alloc.Managed x ↔ s.alloc.Managed x := by
  rw [E.alloc]
  exact managed_frameAlloc

section Create

variable {s : PagingState} {ds : Set U32} {role : U32 → Role}

private lemma and_not_allocated_bit (e : U32) {k : ℕ} (hk : k < 32) :
    (e &&& ~~~pteAllocated).getLsbD k = (e.getLsbD k && !decide (k = 10)) := by
  have halloc : pteAllocated = BitVec.twoPow 32 10 := by decide
  rw [BitVec.getLsbD_and, BitVec.getLsbD_not, halloc, BitVec.getLsbD_twoPow]
  by_cases h : k = 10
  · simp [h]
  · simp [hk, h, Ne.symm h]

private lemma entryGetPhys_and_not_allocated (e : U32) :
    entryGetPhys (e &&& ~~~pteAllocated) = entryGetPhys e := by
  apply BitVec.eq_of_getLsbD_eq
  intro k hk
  rw [entryGetPhys_bit _ hk, entryGetPhys_bit _ hk, and_not_allocated_bit e hk]
  by_cases h : k = 10
  · simp [h]
  · simp [h]

lemma kernelEntriesFor_spec (s : PagingState) (k : ℕ) (hk : k < 1024) :
    (UserIdx k → kernelEntriesFor s k = 0) ∧
      (¬ UserIdx k →
        hasFlag (kernelEntriesFor s k) ptePresent = hasFlag (s.entry s.kernelPd k) ptePresent ∧
        (hasFlag (s.entry s.kernelPd k) ptePresent = true →
          entryGetPhys (kernelEntriesFor s k) = entryGetPhys (s.entry s.kernelPd k))) ∧
      (k < 768 → hasFlag (kernelEntriesFor s k) pteAllocated = false) := by
  have hbase : virtToPdIndex userBase = 8 := by decide
  have hlimit : virtToPdIndex userLimit = 20 := by decide
  have hnone : hasFlag (s.entry s.kernelPd k &&& ~~~pteAllocated) pteAllocated = false := by
    rw [hasFlag_allocated, and_not_allocated_bit _ (by decide)]
    simp
  have hpres : hasFlag (s.entry s.kernelPd k &&& ~~~pteAllocated) ptePresent =
      hasFlag (s.entry s.kernelPd k) ptePresent := by
    rw [hasFlag_present, hasFlag_present, and_not_allocated_bit _ (by decide)]
    simp
  rw [kernelEntriesFor, hbase, hlimit, kernelPdIndex, entriesPerPd]
  by_cases h768 : k < 768
  · rw [if_pos h768]
    by_cases hu : 8 ≤ k ∧ k < 20
    · simp [hu]
    · rw [if_neg hu]
      cases hp : hasFlag (s.entry s.kernelPd k) ptePresent with
      | false => simp [hu]
      | true =>
        rw [hp] at hpres
        simp [hu, hnone, hpres, entryGetPhys_and_not_allocated]
  · rw [if_neg h768, if_pos hk]
    refine ⟨fun hu => absurd hu.2 (by omega), fun _ => ⟨rfl, fun _ => rfl⟩, fun h => absurd h h768⟩

lemma PageFrame.update {a : FrameAllocator} {s' : PagingState} {x y : U32} {r : Role}
    (h : PageFrame s role y) (A : AllocEffect s.alloc a x) (halloc : s'.alloc = a) :
    PageFrame s' (update role x r) y := by
  have hyx : y ≠ x := by
    rintro rfl
    exact A.unmarked (h.2 A.managed)
  refine ⟨by rw [update_of_ne hyx, h.1], fun hm => ?_⟩
  rw [halloc] at hm ⊢
  have hmark := (h.2 (A.managed_iff.mp hm)).frameAlloc
  rwa [A.eq] at hmark

lemma createEffect_of_fresh (T : TablesOwned s ds role) {a : FrameAllocator} {x : U32}
    (A : AllocEffect s.alloc a x) (hx : x.toNat < 0x40000000) {s₁ s' : PagingState}
    (hs₁ : s₁ = ({ s with alloc := a } : PagingState).clearTable (kernelVirtualBase + x))
    (hs' : s' = { s₁ with
      tables := update s₁.tables (physOf (kernelVirtualBase + x)) (kernelEntriesFor s₁) }) :
    CreateEffect s s' ds role (update role x .dir) (kernelVirtualBase + x) := by
  have hpx : physOf (kernelVirtualBase + x) = x := physOf_higherHalf hx
  have hkx : physOf s.kernelPd ≠ x := T.known_ne_fresh A (.inr rfl)
  have hother : ∀ {ptr k}, physOf ptr ≠ x → s'.entry ptr k = s.entry ptr k := by
    intro ptr k hne
    rw [hs', hs₁]
    simp [entry, clearTable, hpx, hne]
  have hpdes : ∀ {d k}, Known s ds d → s'.entry d k = s.entry d k := fun hd =>
    hother (T.known_ne_fresh A hd)
  have hnew : ∀ k, s'.entry (kernelVirtualBase + x) k = kernelEntriesFor s₁ k := by
    intro k
    rw [hs']
    simp [entry]
  have hspec := fun {k} (hk : k < 1024) => kernelEntriesFor_spec s₁ k hk
  have hkentry : ∀ k, s₁.entry s₁.kernelPd k = s.entry s.kernelPd k := by
    intro k
    rw [hs₁, clearTable_kernelPd, entry_clearTable, hpx, if_neg hkx]
    rfl
  simp only [hkentry] at hspec
  have halloc : s'.alloc = a := by rw [hs', hs₁]; rfl
  have hkpd : s'.kernelPd = s.kernelPd := by rw [hs', hs₁]; rfl
  have hptr : ∀ y, s'.ptablePtr y = s.ptablePtr y := by
    intro y
    rw [hs', hs₁]
    rfl
  have hptes : ∀ {d k l}, Known s ds d → k < 1024 → pte s' d k l = pte s d k l := by
    intro d k l hd hk
    rw [pte, pte, hpdes hd]
    split_ifs with hpk
    · rw [hptr, hother]
      rw [T.physOf_table hd hk hpk]
      exact T.table_ne_fresh A hd hk hpk
    · rfl
  refine
    { owned := T.extend A hx halloc hkpd ?_ ?_ ?_
      mono := T.update_of_role A
      grow := fun hy => (update_of_free A hy).imp_right And.left
      keeps := fun hy => hy.update A halloc
      fresh := by rw [hpx, T.free_of_not_marked A.unmarked]
      notMem := fun h => T.known_ne_fresh A (.inl h) hpx
      kernelPd := hkpd
      active := by rw [hs', hs₁]; rfl
      bytes := by rw [hs', hs₁]; rfl
      cr3 := by rw [hs', hs₁]; rfl
      pdes := hpdes
      ptes := hptes
      user := fun hu => by rw [hnew, (hspec (by omega)).1 hu]
      rest := ?_
      pdeRest := fun hu hk => by
        rw [hnew]
        exact (hspec hk).2.1 hu
      alloc := by rw [halloc, A.eq]
      frame := by rw [hpx, A.eq]
      count := by rw [← A.count]; omega }
  · rintro d' (rfl | hd')
    · rw [hpx, update_self]
      exact ⟨rfl, rfl⟩
    · obtain ⟨hdeq, hr⟩ := T.dir hd'
      exact ⟨hdeq, by rw [T.update_of_role A (by rw [hr]; simp), hr]⟩
  · rintro d' k hd' hk hpk
    by_cases hd : Known s ds d'
    · rw [hpdes hd] at hpk ⊢
      rw [update_of_ne (T.table_ne_fresh A hd hk hpk), T.role_table hd hk hpk]
    · -- the new directory has the tables of the kernel's
      obtain rfl : d' = kernelVirtualBase + x := by
        rcases hd' with (rfl | h) | h
        · rfl
        · exact absurd (.inl h) hd
        · exact absurd (.inr h) hd
      rw [hnew] at hpk ⊢
      obtain ⟨huser, hrest, -⟩ := hspec hk
      by_cases hu : UserIdx k
      · rw [huser hu] at hpk
        simp at hpk
      · obtain ⟨hpres, hphys⟩ := hrest hu
        rw [hpres] at hpk
        rw [hphys hpk, update_of_ne (T.table_ne_fresh A (.inr rfl) hk hpk), T.kpde hk hpk,
          tableRole, if_neg fun h => hd (.inr h), procRole, if_neg hu]
  · rintro d' k (rfl | hd') hk hpk
    · rw [hnew] at hpk ⊢
      obtain ⟨huser, -, hnone⟩ := hspec (k := k) (by omega)
      rw [hnone hk]
      refine ⟨fun h => (Bool.false_ne_true h).elim, fun hu => ?_⟩
      rw [huser hu] at hpk
      simp at hpk
    · rw [hpdes (.inl hd')] at hpk ⊢
      exact T.pdeOwn hd' hk hpk
  · intro k l hu hk
    obtain ⟨-, hrest, -⟩ := hspec hk
    obtain ⟨hpres, hphys⟩ := hrest hu
    rw [← hptes (.inr rfl) hk, pte, pte, hnew, hother hkx, hpres]
    split_ifs with hpk
    · rw [hphys hpk]
    · rfl

/-- **`page_directory_create`**: it fails, changing nothing, exactly when no frame is left;
otherwise the new directory has the effect `CreateEffect`. -/
lemma pageDirectoryCreate_spec (T : TablesOwned s ds role) (hnext : s.alloc.NextLow) :
    (pageDirectoryCreate s = (s, 0) ∧ s.alloc.freeCount = 0) ∨
      ∃ s' d role', pageDirectoryCreate s = (s', d) ∧ d ≠ 0 ∧
        CreateEffect s s' ds role role' d := by
  rw [pageDirectoryCreate]
  rcases frameAlloc_spec T.wf with ⟨heq, hc⟩ | ⟨a, x, A⟩
  · left
    simp [heq, hc]
  · right
    have hk : (({ s with alloc := a } : PagingState).clearTable (kernelVirtualBase + x)).kernelPd
        ≠ 0 := T.kernel.1
    simp only [A.eq, A.ne_zero, if_false, hk]
    have hx := A.lt_oneGiB hnext
    exact ⟨_, _, _, rfl, higherHalf_ne_zero hx, createEffect_of_fresh T A hx rfl rfl⟩

end Create

end OpenHobbyOS.Paging
