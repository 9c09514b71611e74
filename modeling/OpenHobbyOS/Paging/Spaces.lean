/-
# Frames and address spaces

`SpacesOwned` ties the bitmap to every page of every live directory: a page mapped with
`PTE_ALLOCATED` is a frame in use that holds no table, and any other page lies outside the region
the allocator manages.
-/
import OpenHobbyOS.Paging.Fault
import OpenHobbyOS.Paging.Isolation

namespace OpenHobbyOS.Paging

open PagingState FrameAllocator TablesOwned List

/-- `d` maps the frame `x` with `PTE_PRESENT` and `PTE_ALLOCATED` in its user range. -/
def MapsOwn (s : PagingState) (d x : U32) : Prop :=
  ∃ i j, UserIdx i ∧ j < 1024 ∧ hasFlag (pte s d i j) ptePresent = true ∧
    hasFlag (pte s d i j) pteAllocated = true ∧ entryGetPhys (pte s d i j) = x

/-- A frame outside the allocator's region that is not the kernel's directory. -/
def Foreign (s : PagingState) (x : U32) : Prop := ¬ s.alloc.Managed x ∧ x ≠ s.kernelPd

/-- A table entry of the user range that frees no frame it does not own. -/
structure EntryOk (s : PagingState) (role : U32 → Role) (e : U32) : Prop where
  owned : hasFlag e ptePresent = true → hasFlag e pteAllocated = true →
    role (entryGetPhys e) = .free ∧ s.alloc.Marked (entryGetPhys e)
  foreign : hasFlag e ptePresent = true → hasFlag e pteAllocated = false →
    Foreign s (entryGetPhys e)
  demand : hasFlag e ptePresent = false → hasFlag e pteDemandZero = false

/-- The directories `ds` own their tables and their pages. -/
structure SpacesOwned (s : PagingState) (ds : Set U32) (role : U32 → Role) : Prop where
  tables : TablesOwned s ds role
  low : s.alloc.Low
  entries : ∀ {d i j}, d ∈ ds → UserIdx i → j < 1024 → EntryOk s role (pte s d i j)

/-- `ds` own their tables and pages in `s'`, and `cr3` is as in `s`. -/
structure SpacesKept (s s' : PagingState) (ds : Set U32) : Prop where
  spaces : ∃ role, SpacesOwned s' ds role
  kernelPd : s'.kernelPd = s.kernelPd
  cr3 : s'.cr3 = s.cr3

/-- No other directory maps a frame that destroying `d` would free. -/
def Unshared (s : PagingState) (ds : Set U32) (d : U32) : Prop :=
  ∀ d' x, d' ∈ ds → d' ≠ d → MapsOwn s d x → ¬ MapsOwn s d' x

/-! ## Entries -/

section Entries

variable {s s' : PagingState} {role role' : U32 → Role} {e : U32}

lemma pte_congr (htables : s'.tables = s.tables) (hactive : s'.active = s.active) (d : U32)
    (k l : ℕ) : pte s' d k l = pte s d k l := by
  rw [pte, pte, entry, entry, entry, entry, ptablePtr, ptablePtr, htables, hactive]

lemma entryOk_zero : EntryOk s role 0 := by
  refine ⟨fun h => ?_, fun h => ?_, fun _ => by decide⟩
  all_goals exact absurd h (by decide)

lemma EntryOk.mono (h : EntryOk s role e)
    (hkeeps : ∀ {y}, PageFrame s role y → PageFrame s' role' y)
    (hman : ∀ {y}, s'.alloc.Managed y ↔ s.alloc.Managed y) (hk : s'.kernelPd = s.kernelPd) :
    EntryOk s' role' e where
  owned := by
    intro hp ha
    obtain ⟨hfree, hmark⟩ := h.owned hp ha
    have hframe := hkeeps ⟨hfree, fun _ => hmark⟩
    exact ⟨hframe.1, hframe.2 (hman.mpr hmark.1)⟩
  foreign := by
    intro hp ha
    obtain ⟨hout, hne⟩ := h.foreign hp ha
    exact ⟨fun hm => hout (hman.mp hm), by rwa [hk]⟩
  demand := h.demand

lemma entryOk_of_owned (hp : hasFlag e ptePresent = true) (ha : hasFlag e pteAllocated = true)
    (hfree : role (entryGetPhys e) = .free) (hmark : s.alloc.Marked (entryGetPhys e)) :
    EntryOk s role e where
  owned := fun _ _ => ⟨hfree, hmark⟩
  foreign := fun _ h => by rw [ha] at h; cases h
  demand := fun h => by rw [hp] at h; cases h

end Entries

/-! ## Mapping pages -/

section Map

variable {s s' : PagingState} {ds : Set U32} {role role' : U32 → Role} {pd flags e virt : U32}
  {i j : ℕ}

lemma SpacesOwned.congr (h : SpacesOwned s ds role) (halloc : s'.alloc = s.alloc)
    (htables : s'.tables = s.tables) (hk : s'.kernelPd = s.kernelPd)
    (hactive : s'.active = s.active) : SpacesOwned s' ds role := by
  have hentry : ∀ ptr k, s'.entry ptr k = s.entry ptr k := by
    intro ptr k
    rw [entry, entry, htables]
  refine ⟨h.tables.congr halloc hk fun _ => by simp [hentry], by rw [halloc]; exact h.low, ?_⟩
  intro d k l hd hu hl
  rw [pte_congr htables hactive]
  refine (h.entries hd hu hl).mono ?_ (by rw [halloc]) hk
  intro y hy
  rwa [PageFrame, halloc]

lemma SpacesOwned.nextLow (h : SpacesOwned s ds role) : s.alloc.NextLow :=
  h.low.nextLow h.tables.wf

/-- A mapping of a fine entry, in the user range of a directory or in the kernel's
directory. -/
lemma SpacesOwned.map (h : SpacesOwned s ds role) (E : MapEffect s s' ds role role' pd i j flags e)
    (hi : pd ∈ ds → UserIdx i) (he : pd ∈ ds → EntryOk s' role' e) : SpacesOwned s' ds role' := by
  refine ⟨E.owned, E.low h.low, ?_⟩
  intro d k l hd hu hl
  by_cases hself : d = pd ∧ k = i ∧ l = j
  · obtain ⟨rfl, rfl, rfl⟩ := hself
    rw [E.self]
    exact he hd
  · have hne : k ≠ i ∨ l ≠ j ∨ (UserIdx i ∧ d ≠ pd) := by
      by_cases hk : k = i
      · by_cases hl' : l = j
        · exact .inr (.inr ⟨hk ▸ hu, fun hpd => hself ⟨hpd, hk, hl'⟩⟩)
        · exact .inr (.inl hl')
      · exact .inl hk
    rw [E.other (.inl hd) (by omega) hne]
    exact (h.entries hd hu hl).mono E.keeps E.managed_iff E.kernelPd

lemma SpacesOwned.alloc (h : SpacesOwned s ds role) {a : FrameAllocator} {x : U32}
    (A : AllocEffect s.alloc a x) : SpacesOwned { s with alloc := a } ds role := by
  refine ⟨h.tables.alloc A, A.low_iff.mpr h.low, ?_⟩
  intro d k l hd hu hl
  refine EntryOk.mono (h.entries hd hu hl) ?_ A.managed_iff rfl
  intro y hy
  refine ⟨hy.1, fun hm => ?_⟩
  have hmark := (hy.2 (A.managed_iff.mp hm)).frameAlloc
  rwa [A.eq] at hmark

end Map

/-- `s'` is `s` with more pages in the user range of `d`, on frames that were not in use. -/
structure PageStep (s s' : PagingState) (ds : Set U32) (d : U32) : Prop where
  spaces : ∃ role, SpacesOwned s' ds role
  kernelPd : s'.kernelPd = s.kernelPd
  active : s'.active = s.active
  cr3 : s'.cr3 = s.cr3
  managed : ∀ {y}, s'.alloc.Managed y ↔ s.alloc.Managed y
  marked : ∀ {y}, isPageAligned y = true → s.alloc.Marked y → s'.alloc.Marked y
  others : ∀ {d' k l}, Known s ds d' → k < 1024 → d' ≠ d ∨ ¬ UserIdx k →
    pte s' d' k l = pte s d' k l
  self : ∀ {i j}, UserIdx i → pte s' d i j = pte s d i j ∨
    ¬ s.alloc.Marked (entryGetPhys (pte s' d i j))

namespace PageStep

variable {s s' s'' : PagingState} {ds : Set U32} {role : U32 → Role} {d : U32}

lemma refl (h : SpacesOwned s ds role) (d : U32) : PageStep s s ds d :=
  ⟨⟨role, h⟩, rfl, rfl, rfl, Iff.rfl, fun _ h => h, fun _ _ _ => rfl, fun _ => .inl rfl⟩

lemma trans (h : PageStep s s' ds d) (h' : PageStep s' s'' ds d) : PageStep s s'' ds d where
  spaces := h'.spaces
  kernelPd := by rw [h'.kernelPd, h.kernelPd]
  active := by rw [h'.active, h.active]
  cr3 := by rw [h'.cr3, h.cr3]
  managed := h'.managed.trans h.managed
  marked := fun hy hm => h'.marked hy (h.marked hy hm)
  others := by
    intro d' k l hd hk hne
    have hd' : Known s' ds d' := by
      rw [Known, h.kernelPd]
      exact hd
    rw [h'.others hd' hk hne, h.others hd hk hne]
  self := by
    intro i j hu
    rcases h'.self (j := j) hu with heq | hun
    · rw [heq]
      exact h.self hu
    · exact .inr fun hm => hun (h.marked (aligned_entryGetPhys _) hm)

lemma bytes (h : SpacesOwned s ds role) (d : U32) (bytes : U32 → U8) :
    PageStep s { s with bytes := bytes } ds d :=
  ⟨⟨role, h.congr rfl rfl rfl rfl⟩, rfl, rfl, rfl, Iff.rfl, fun _ h => h, fun _ _ _ => rfl,
    fun _ => .inl rfl⟩

lemma withCr3 (h : PageStep s s' ds d) (c : U32) :
    PageStep { s with cr3 := c } { s' with cr3 := c } ds d := by
  obtain ⟨role', hrole⟩ := h.spaces
  exact ⟨⟨role', hrole.congr rfl rfl rfl rfl⟩, h.kernelPd, h.active, rfl, h.managed, h.marked,
    h.others, h.self⟩

end PageStep

section AllocPage

variable {s : PagingState} {ds : Set U32} {role : U32 → Role} {pd virt : U32}

lemma entryCreate_or_present (x flags own : U32) (h : own.getLsbD 0 = true) :
    hasFlag (entryCreate x (flags ||| own)) ptePresent = true := by
  rw [hasFlag_present, entryCreate_bit _ _ (by decide), BitVec.getLsbD_or, h, Bool.or_true]

lemma entryCreate_or_allocated (x flags own : U32) (h : own.getLsbD 10 = true) :
    hasFlag (entryCreate x (flags ||| own)) pteAllocated = true := by
  rw [hasFlag_allocated, entryCreate_bit _ _ (by decide), BitVec.getLsbD_or, h, Bool.or_true]

/-- A mapping in the user range of `pd` of a frame that was not in use, possibly marked just
before. -/
lemma MapEffect.pageStep {a : FrameAllocator} {s' : PagingState} {role' : U32 → Role} {i j : ℕ}
    {flags e : U32} (E : MapEffect { s with alloc := a } s' ds role role' pd i j flags e)
    (hman : ∀ {y}, a.Managed y ↔ s.alloc.Managed y)
    (hmark : ∀ {y}, isPageAligned y = true → s.alloc.Marked y → a.Marked y) (hu : UserIdx i)
    (hs' : SpacesOwned s' ds role') (he : ¬ s.alloc.Marked (entryGetPhys e))
    (hpd : pd ∈ ds) : PageStep s s' ds pd where
  spaces := ⟨role', hs'⟩
  kernelPd := E.kernelPd
  active := E.active
  cr3 := E.cr3
  managed := E.managed_iff.trans hman
  marked := by
    intro y hy hm
    have hm₁ := hmark hy hm
    rw [E.alloc]
    split_ifs
    · exact hm₁
    · exact hm₁.frameAlloc
  others := by
    intro d k l hd hk hne
    refine E.other hd hk ?_
    rcases hne with hne | hne
    · exact .inr (.inr ⟨hu, hne⟩)
    · exact .inl fun hki => hne (hki ▸ hu)
  self := by
    intro k l hk
    by_cases hkl : k = i ∧ l = j
    · obtain ⟨rfl, rfl⟩ := hkl
      rw [E.self]
      exact .inr he
    · refine .inl (E.other (.inl hpd) (by omega) ?_)
      by_cases hki : k = i
      · exact .inr (.inl fun hlj => hkl ⟨hki, hlj⟩)
      · exact .inl hki

lemma SpacesOwned.allocUserPage (h : SpacesOwned s ds role) (hpd : pd ∈ ds)
    (hu : UserIdx (virtToPdIndex virt)) (flags : U32) :
    PageStep s (pagingAllocUserPage s pd virt flags).1 ds pd := by
  have hvirt : virt < kernelVirtualBase := by
    have hidx := hu.2
    rw [virtToPdIndex_eq] at hidx
    rw [BitVec.lt_def]
    change virt.toNat < 0xC0000000
    omega
  rcases pagingAllocUserPage_spec h.tables (.inl hpd) virt flags (fun _ => hu) hvirt
      (fun A _ => (A.low_iff.mpr h.low).nextLow A.wf) with
    ⟨heq, -⟩ | ⟨a, x, A, ⟨heq, -⟩ | ⟨s', role', heq, -, E⟩⟩
  · rw [heq]
    exact .refl h pd
  · -- the frame is given back, so the same frames are in use as before
    have hmark : ∀ {y}, isPageAligned y = true →
        ((frameFree a x).Marked y ↔ s.alloc.Marked y) := by
      intro y hy
      rw [marked_frameFree A.wf A.aligned hy, A.marked_iff hy]
      constructor
      · rintro ⟨hm | rfl, hne⟩
        · exact hm
        · exact absurd rfl hne
      · rintro hm
        exact ⟨.inl hm, fun heq => A.unmarked (heq ▸ hm)⟩
    have hman : ∀ {y}, (frameFree a x).Managed y ↔ s.alloc.Managed y :=
      managed_frameFree.trans A.managed_iff
    have hx : role x = .free := h.tables.free_of_not_marked A.unmarked
    rw [heq]
    refine ⟨⟨role, ⟨(h.tables.alloc A).free A.aligned hx, ?_, ?_⟩⟩, rfl, rfl, rfl, hman,
      fun hy => (hmark hy).mpr, fun _ _ _ => rfl, fun _ => .inl rfl⟩
    · exact low_frameFree.mpr (A.low_iff.mpr h.low)
    · intro d k l hd hk hl
      have hold := h.entries hd hk hl
      exact
        { owned := fun hp ha =>
            ⟨(hold.owned hp ha).1, (hmark (aligned_entryGetPhys _)).mpr (hold.owned hp ha).2⟩
          foreign := fun hp ha =>
            ⟨fun hm => (hold.foreign hp ha).1 (hman.mp hm), (hold.foreign hp ha).2⟩
          demand := hold.demand }
  · have hx : role x = .free := h.tables.free_of_not_marked A.unmarked
    have hmark : a.Marked x := (A.marked_iff A.aligned).mpr (.inr rfl)
    have hframe : PageFrame s' role' x := E.keeps ⟨hx, fun _ => hmark⟩
    have hphys : entryGetPhys (entryCreate x (flags ||| pteUser ||| (ptePresent ||| pteAllocated))) =
        x := entryGetPhys_entryCreate_of_aligned A.aligned _
    have hs' : SpacesOwned s' ds role' := by
      refine (h.alloc A).map E (fun _ => hu) fun _ => ?_
      apply entryOk_of_owned (entryCreate_or_present _ _ _ (by decide))
        (entryCreate_or_allocated _ _ _ (by decide))
      · rw [hphys]
        exact hframe.1
      · rw [hphys]
        exact hframe.2 (E.managed_iff.mpr hmark.1)
    rw [heq]
    refine E.pageStep A.managed_iff (fun hy hm => (A.marked_iff hy).mpr (.inl hm)) hu hs' ?_ hpd
    rw [hphys]
    exact A.unmarked

end AllocPage

/-! ## New directories -/

section NewDirectory

variable {s s' : PagingState} {ds : Set U32} {role : U32 → Role} {d : U32}

/-- **`page_directory_create`**: nothing changes, or a directory with an empty user range
joins the live ones. -/
lemma SpacesOwned.create (h : SpacesOwned s ds role) :
    pageDirectoryCreate s = (s, 0) ∨
      ∃ s' d role', pageDirectoryCreate s = (s', d) ∧ d ≠ 0 ∧
        CreateEffect s s' ds role role' d ∧ SpacesOwned s' (insert d ds) role' := by
  rcases pageDirectoryCreate_spec h.tables h.nextLow with ⟨heq, -⟩ | ⟨s', d, role', heq, hne, E⟩
  · exact .inl heq
  · refine .inr ⟨s', d, role', heq, hne, E, E.owned, ?_, ?_⟩
    · rw [E.alloc]
      exact low_frameAlloc.mpr h.low
    · rintro d' i j (rfl | hd) hu hj
      · have hzero : pte s' d' i j = 0 := by
          rw [pte, E.user hu]
          rfl
        rw [hzero]
        exact entryOk_zero
      · rw [E.ptes (.inl hd) (by omega)]
        exact (h.entries hd hu hj).mono E.keeps E.managed_iff E.kernelPd

lemma SpacesOwned.mapsOwn (h : SpacesOwned s ds role) (hd : d ∈ ds) {x : U32}
    (hx : MapsOwn s d x) : role x = .free ∧ s.alloc.Marked x := by
  obtain ⟨i, j, hu, hj, hp, ha, rfl⟩ := hx
  exact (h.entries hd hu hj).owned hp ha

lemma PageStep.unshared_self (h : PageStep s s' ds d) (hs : SpacesOwned s ds role)
    (hempty : ∀ {i j}, UserIdx i → pte s d i j = 0) : Unshared s' ds d := by
  rintro d' x hd' hne ⟨i, j, hu, hj, hp, ha, rfl⟩ ⟨i', j', hu', hj', hp', ha', heq⟩
  rcases h.self (j := j) hu with hsame | hun
  · rw [hsame, hempty hu] at hp
    exact absurd hp (by decide)
  · rw [h.others (.inl hd') (by omega) (.inl hne)] at hp' ha' heq
    exact hun (heq ▸ ((hs.entries hd' hu' hj').owned hp' ha').2)

end NewDirectory

/-! ## `page_directory_destroy` -/

/-- `a'` is `a` after exactly the frames of `F` were freed. -/
structure Frees (F : U32 → Prop) (a a' : FrameAllocator) : Prop where
  wf : a.WellFormed → a'.WellFormed
  managed : ∀ {y}, a'.Managed y ↔ a.Managed y
  low : a'.Low ↔ a.Low
  marked : a.WellFormed → ∀ {y}, isPageAligned y = true → (a'.Marked y ↔ a.Marked y ∧ ¬ F y)

namespace Frees

variable {F G : U32 → Prop} {a a' a'' : FrameAllocator}

lemma refl (hF : ∀ y, ¬ F y) (a : FrameAllocator) : Frees F a a :=
  ⟨id, Iff.rfl, Iff.rfl, fun _ y _ => ⟨fun h => ⟨h, hF y⟩, fun h => h.1⟩⟩

lemma trans (h : Frees F a a') (h' : Frees G a' a'') : Frees (fun y => F y ∨ G y) a a'' where
  wf := fun hwf => h'.wf (h.wf hwf)
  managed := h'.managed.trans h.managed
  low := h'.low.trans h.low
  marked := by
    intro hwf y hy
    rw [h'.marked (h.wf hwf) hy, h.marked hwf hy, not_or, and_assoc]

lemma congr (h : Frees F a a') (hFG : ∀ y, F y ↔ G y) : Frees G a a' where
  wf := h.wf
  managed := h.managed
  low := h.low
  marked := fun hwf y hy => by rw [h.marked hwf hy, hFG y]

lemma free (a : FrameAllocator) {x : U32} (hx : isPageAligned x = true) :
    Frees (fun y => y = x) a (frameFree a x) where
  wf := fun hwf => hwf.frameFree x
  managed := managed_frameFree
  low := low_frameFree
  marked := fun hwf _ hy => marked_frameFree hwf hx hy

lemma foldl {α : Type} {F : α → U32 → Prop} (f : FrameAllocator → α → FrameAllocator) (l : List α)
    (hf : ∀ x ∈ l, ∀ a, Frees (F x) a (f a x)) (a : FrameAllocator) :
    Frees (fun y => ∃ x ∈ l, F x y) a (l.foldl f a) := by
  induction l generalizing a with
  | nil => exact refl (by simp) a
  | cons x l ih =>
    refine ((hf x mem_cons_self a).trans
      (ih (fun y hy => hf y (mem_cons_of_mem x hy)) (f a x))).congr fun y => ?_
    simp

end Frees

section Destroy

variable {s : PagingState} {ds : Set U32} {role : U32 → Role} {d : U32}

lemma present_of_pte {s : PagingState} {d : U32} {i j : ℕ}
    (h : hasFlag (pte s d i j) ptePresent = true) : hasFlag (s.entry d i) ptePresent = true := by
  by_contra hcon
  rw [pte, if_neg hcon] at h
  exact absurd h (by decide)

lemma hasFlag_getFlags_allocated (e : U32) :
    hasFlag (entryGetFlags e) pteAllocated = hasFlag e pteAllocated := by
  rw [hasFlag_allocated, hasFlag_allocated, entryGetFlags_bit _ (by decide)]

/-- What `page_directory_destroy` frees: the directory, its user tables and the pages it owns. -/
def DestroyFrees (s : PagingState) (d x : U32) : Prop :=
  x = physOf d ∨
    (∃ i, UserIdx i ∧ hasFlag (s.entry d i) ptePresent = true ∧ x = entryGetPhys (s.entry d i)) ∨
    MapsOwn s d x

lemma destroyTable_frees (T : TablesOwned s ds role) (hd : d ∈ ds) {i : ℕ} (hi : i < 768)
    (a : FrameAllocator) :
    Frees (fun x => UserIdx i ∧ hasFlag (s.entry d i) ptePresent = true ∧
      ((∃ j < 1024, hasFlag (pte s d i j) ptePresent = true ∧
        hasFlag (pte s d i j) pteAllocated = true ∧ x = entryGetPhys (pte s d i j)) ∨
        x = entryGetPhys (s.entry d i))) a (destroyTable s d a i) := by
  rw [destroyTable]
  cases hp : hasFlag (s.entry d i) ptePresent with
  | false => exact .refl (by simp) a
  | true =>
    cases ha : hasFlag (s.entry d i) pteAllocated with
    | false =>
      have hu : ¬ UserIdx i := fun hu => by
        rw [(T.pdeOwn hd hi hp).mpr hu] at ha
        cases ha
      exact .refl (fun y h => hu h.1) a
    | true =>
      have hu : UserIdx i := (T.pdeOwn hd hi hp).mp ha
      simp only [Bool.not_true, Bool.false_eq_true, if_false, if_true]
      have hentries : Frees (fun x => ∃ j ∈ List.range 1024, hasFlag (pte s d i j) ptePresent = true ∧
          hasFlag (pte s d i j) pteAllocated = true ∧ x = entryGetPhys (pte s d i j)) a
          ((List.range 1024).foldl
            (destroyEntry s (s.ptablePtr (entryGetPhys (s.entry d i)))) a) := by
        refine Frees.foldl _ _ (fun j hj a => ?_) a
        have hpte : s.entry (s.ptablePtr (entryGetPhys (s.entry d i))) j = pte s d i j := by
          rw [pte, if_pos hp]
        rw [destroyEntry, hpte, hasFlag_getFlags_allocated]
        split_ifs with hpj haj
        · exact (Frees.free a (aligned_entryGetPhys _)).congr fun y => by simp [hpj, haj]
        · exact .refl (by simp [haj]) a
        · exact .refl (by simp [hpj]) a
      refine (hentries.trans (.free _ (aligned_entryGetPhys _))).congr fun y => ?_
      simp only [mem_range, true_and]
      exact ⟨fun h => ⟨hu, h⟩, fun h => h.2⟩

/-- **Which frames `page_directory_destroy` frees.** -/
lemma pageDirectoryDestroy_frees (T : TablesOwned s ds role) (hd : d ∈ ds) :
    Frees (DestroyFrees s d) s.alloc (pageDirectoryDestroy s d).alloc := by
  rw [pageDirectoryDestroy, if_neg (T.dir_ne_zero hd)]
  have haligned : isPageAligned (physOf d) = true := (T.marked (by rw [(T.dir hd).2]; simp)).1
  refine ((Frees.foldl _ _ (fun i hi a => destroyTable_frees T hd (mem_range.mp hi) a)
    s.alloc).trans (.free _ haligned)).congr fun x => ?_
  constructor
  · rintro (⟨i, -, hu, hp, ⟨j, hj, hpj, haj, rfl⟩ | rfl⟩ | rfl)
    · exact .inr (.inr ⟨i, j, hu, hj, hpj, haj, rfl⟩)
    · exact .inr (.inl ⟨i, hu, hp, rfl⟩)
    · exact .inl rfl
  · have hrange : ∀ {i}, UserIdx i → i ∈ List.range kernelPdIndex := fun hu =>
      mem_range.mpr (lt_trans hu.2 (by decide))
    rintro (rfl | ⟨i, hu, hp, rfl⟩ | ⟨i, j, hu, hj, hpj, haj, rfl⟩)
    · exact .inr rfl
    · exact .inl ⟨i, hrange hu, hu, hp, .inr rfl⟩
    · exact .inl ⟨i, hrange hu, hu, present_of_pte hpj, .inl ⟨j, hj, hpj, haj, rfl⟩⟩

/-- The roles after directory `d` and its tables are gone. -/
def withoutDir (role : U32 → Role) (d x : U32) : Role :=
  match role x with
  | .dir => if x = physOf d then .free else .dir
  | .table d' i => if d' = d then .free else .table d' i
  | r => r

lemma withoutDir_eq {x : U32} {r : Role} (h : role x = r) (hdir : r = .dir → x ≠ physOf d)
    (htable : ∀ i, r ≠ .table d i) : withoutDir role d x = r := by
  rw [withoutDir, h]
  cases r with
  | dir => exact if_neg (hdir rfl)
  | table d' i => exact if_neg fun heq => htable i (by rw [heq])
  | _ => rfl

lemma role_of_withoutDir {x : U32} (h : withoutDir role d x ≠ .free) :
    role x ≠ .free ∧ (x = physOf d → role x ≠ .dir) ∧ ∀ i, role x ≠ .table d i := by
  rw [withoutDir] at h
  refine ⟨fun hr => ?_, fun hx hr => ?_, fun i hr => ?_⟩
  · rw [hr] at h
    exact h rfl
  · rw [hr] at h
    exact h (if_pos hx)
  · rw [hr] at h
    exact h (if_pos rfl)

/-- **`page_directory_destroy`** of a directory whose pages no other maps leaves the others
theirs. -/
lemma SpacesOwned.destroy (h : SpacesOwned s ds role) (hd : d ∈ ds) (hun : Unshared s ds d) :
    SpacesOwned (pageDirectoryDestroy s d) (ds \ {d}) (withoutDir role d) := by
  have T := h.tables
  have hdir := (T.dir hd).2
  have F := pageDirectoryDestroy_frees T hd
  have hs : pageDirectoryDestroy s d = { s with alloc := (pageDirectoryDestroy s d).alloc } := by
    rw [pageDirectoryDestroy, if_neg (T.dir_ne_zero hd)]
  generalize (pageDirectoryDestroy s d).alloc = a at F hs
  have htable : ∀ {x}, withoutDir role d x ≠ .free →
      isPageAligned x = true ∧ a.Marked x := by
    intro x hx
    obtain ⟨hne, hndir, hntable⟩ := role_of_withoutDir hx
    obtain ⟨halign, hmark⟩ := T.marked hne
    refine ⟨halign, (F.marked T.wf halign).mpr ⟨hmark, ?_⟩⟩
    rintro (hF | ⟨i, hu, hp, rfl⟩ | hF)
    · exact hndir hF (hF ▸ hdir)
    · exact hntable i (by rw [T.pde hd (by omega) hp, procRole, if_pos hu])
    · exact hne (h.mapsOwn hd hF).1
  have hpage : ∀ {x}, isPageAligned x = true → role x = .free → s.alloc.Marked x →
      ¬ MapsOwn s d x → a.Marked x := by
    intro x halign hfree hmark hnot
    refine (F.marked T.wf halign).mpr ⟨hmark, ?_⟩
    rintro (hF | ⟨i, hu, hp, rfl⟩ | hF)
    · rw [hF, hdir] at hfree
      cases hfree
    · rw [T.pde hd (by omega) hp, procRole, if_pos hu] at hfree
      cases hfree
    · exact hnot hF
  have hproc : ∀ {d' i}, d' ≠ d → procRole d' i ≠ .dir ∧ ∀ i', procRole d' i ≠ .table d i' := by
    intro d' i hne
    rw [procRole]
    split_ifs
    · exact ⟨by simp, fun i' => by simp [hne]⟩
    · exact ⟨by simp, fun i' => by simp⟩
  rw [hs]
  refine ⟨?_, F.low.mpr h.low, ?_⟩
  · exact
      { wf := F.wf T.wf
        marked := htable
        lt_oneGiB := fun hx => T.lt_oneGiB (role_of_withoutDir hx).1
        kernel := ⟨T.kernel.1, fun hm => T.kernel.2 (F.managed.mp hm)⟩
        kernelPtr := T.kernelPtr
        dir := fun hd' => ⟨(T.dir hd'.1).1, withoutDir_eq (T.dir hd'.1).2
          (fun _ hphys => hd'.2 (T.dir_ext hd'.1 hd hphys)) (by simp)⟩
        kpde := fun hi hp => withoutDir_eq (T.kpde hi hp) (by simp) (by simp)
        pde := fun hd' hi hp => withoutDir_eq (T.pde hd'.1 hi hp)
          (fun h => absurd h (hproc hd'.2).1) (hproc hd'.2).2
        pdeOwn := fun hd' hi hp => T.pdeOwn hd'.1 hi hp }
  · rintro d' i j ⟨hd', hne⟩ hu hj
    have hold := h.entries hd' hu hj
    refine ⟨fun hp ha => ?_, fun hp ha => ?_, hold.demand⟩
    · obtain ⟨hfree, hmark⟩ := hold.owned hp ha
      exact ⟨withoutDir_eq hfree (by simp) (by simp),
        hpage (aligned_entryGetPhys _) hfree hmark fun hF =>
          hun d' _ hd' hne hF ⟨i, j, hu, hj, hp, ha, rfl⟩⟩
    · obtain ⟨hout, hk⟩ := hold.foreign hp ha
      exact ⟨fun hm => hout (F.managed.mp hm), hk⟩

lemma pageDirectoryDestroy_eq (s : PagingState) (d : U32) :
    pageDirectoryDestroy s d = { s with alloc := (pageDirectoryDestroy s d).alloc } := by
  rw [pageDirectoryDestroy]
  split_ifs <;> rfl

@[simp] lemma pageDirectoryDestroy_cr3 (s : PagingState) (d : U32) :
    (pageDirectoryDestroy s d).cr3 = s.cr3 := by
  rw [pageDirectoryDestroy_eq]

@[simp] lemma pageDirectoryDestroy_kernelPd (s : PagingState) (d : U32) :
    (pageDirectoryDestroy s d).kernelPd = s.kernelPd := by
  rw [pageDirectoryDestroy_eq]

end Destroy

/-! ## A directory under construction -/

/-- `s'` has a new directory `pd` with pages of its own. -/
def NewSpace (s s' : PagingState) (ds : Set U32) (pd : U32) : Prop :=
  ∃ s₁ role role₁, SpacesOwned s ds role ∧ CreateEffect s s₁ ds role role₁ pd ∧
    SpacesOwned s₁ (insert pd ds) role₁ ∧
      PageStep { s₁ with cr3 := s'.cr3 } s' (insert pd ds) pd

namespace NewSpace

variable {s s' s'' : PagingState} {ds : Set U32} {pd : U32}

lemma spaces (h : NewSpace s s' ds pd) : ∃ role, SpacesOwned s' (insert pd ds) role := by
  obtain ⟨_, _, _, -, -, -, P⟩ := h
  exact P.spaces

lemma kernelPd (h : NewSpace s s' ds pd) : s'.kernelPd = s.kernelPd := by
  obtain ⟨_, _, _, -, E, -, P⟩ := h
  rw [P.kernelPd]
  exact E.kernelPd

lemma step (h : NewSpace s s' ds pd) (h' : PageStep s' s'' (insert pd ds) pd) :
    NewSpace s s'' ds pd := by
  obtain ⟨s₁, role, role₁, hs, E, hs₁, P⟩ := h
  refine ⟨s₁, role, role₁, hs, E, hs₁, ?_⟩
  rw [h'.cr3]
  exact P.trans h'

lemma withCr3 (h : NewSpace s s' ds pd) (c : U32) : NewSpace s { s' with cr3 := c } ds pd := by
  obtain ⟨s₁, role, role₁, hs, E, hs₁, P⟩ := h
  exact ⟨s₁, role, role₁, hs, E, hs₁, P.withCr3 c⟩

lemma discard (h : NewSpace s s' ds pd) (hcr3 : s'.cr3 = s.cr3) :
    SpacesKept s (pageDirectoryDestroy s' pd) ds := by
  have hkernelPd := h.kernelPd
  obtain ⟨s₁, role, role₁, -, E, hs₁, P⟩ := h
  obtain ⟨role', hs'⟩ := P.spaces
  have hempty : ∀ {i j}, UserIdx i → pte ({ s₁ with cr3 := s'.cr3 } : PagingState) pd i j = 0 := by
    intro i j hu
    change (if hasFlag (s₁.entry pd i) ptePresent = true then _ else _) = _
    rw [E.user hu]
    rfl
  have hgone := hs'.destroy (Set.mem_insert pd ds)
    (P.unshared_self (hs₁.congr rfl rfl rfl rfl) hempty)
  rw [Set.insert_sdiff_self_of_notMem E.notMem] at hgone
  refine ⟨⟨_, hgone⟩, ?_, ?_⟩
  · rw [pageDirectoryDestroy_kernelPd, hkernelPd]
  · rw [pageDirectoryDestroy_cr3, hcr3]

end NewSpace

end OpenHobbyOS.Paging
