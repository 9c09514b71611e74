/-
# Ownership of page-table frames

Every frame the allocator has handed out plays one role.  `TablesOwned` says that the directories
and tables found by following pointers agree with the roles; a role names its owner, so no table is
shared by two owners, and a frame the allocator hands out is none of them.
-/
import OpenHobbyOS.Paging.Directory

namespace OpenHobbyOS.Paging

open PagingState FrameAllocator Function

/-- What a frame is used for. -/
inductive Role where
  | free
  | dir
  | table (pd : U32) (i : ℕ)
  | kernelTable (i : ℕ)
  | data
  deriving DecidableEq

/-- The directory entries of the user range `[USER_BASE, USER_LIMIT)`. -/
abbrev UserIdx (i : ℕ) : Prop := 8 ≤ i ∧ i < 20

lemma userIdx_of_range {v : U32} (hlo : userBase ≤ v) (hhi : v < userLimit) :
    UserIdx (virtToPdIndex v) := user_pdIndex hlo hhi

/-- The role of a process directory's table: its own in the user range, the kernel's elsewhere. -/
def procRole (d : U32) (i : ℕ) : Role := if UserIdx i then .table d i else .kernelTable i

/-- The directories `ds`, the kernel's, and all their tables are where `role` says, and every frame
with a role is marked. -/
structure TablesOwned (s : PagingState) (ds : Set U32) (role : U32 → Role) : Prop where
  wf : s.alloc.WellFormed
  marked : ∀ {x}, role x ≠ .free → isPageAligned x = true ∧ s.alloc.Marked x
  lt_oneGiB : ∀ {x}, role x ≠ .free → x.toNat < 0x40000000
  kernel : s.kernelPd ≠ 0 ∧ ¬ s.alloc.Managed (physOf s.kernelPd)
  kernelPtr : physOf s.kernelPd = s.kernelPd
  dir : ∀ {d}, d ∈ ds → d = kernelVirtualBase + physOf d ∧ role (physOf d) = .dir
  kpde : ∀ {i}, i < 1024 → hasFlag (s.entry s.kernelPd i) ptePresent = true →
    role (entryGetPhys (s.entry s.kernelPd i)) = .kernelTable i
  pde : ∀ {d i}, d ∈ ds → i < 1024 → hasFlag (s.entry d i) ptePresent = true →
    role (entryGetPhys (s.entry d i)) = procRole d i
  pdeOwn : ∀ {d i}, d ∈ ds → i < 768 → hasFlag (s.entry d i) ptePresent = true →
    (hasFlag (s.entry d i) pteAllocated = true ↔ UserIdx i)

/-- The frame `x` holds no table and is not free: it can back a page. -/
def PageFrame (s : PagingState) (role : U32 → Role) (x : U32) : Prop :=
  role x = .free ∧ (s.alloc.Managed x → s.alloc.Marked x)

/-- A directory's table entry, `0` where it has no table. -/
def pte (s : PagingState) (d : U32) (i j : ℕ) : U32 :=
  if hasFlag (s.entry d i) ptePresent then
    s.entry (s.ptablePtr (entryGetPhys (s.entry d i))) j
  else 0

lemma pageGetPhys_eq (s : PagingState) {d : U32} (hd : d ≠ 0) (w : U32) :
    pageGetPhys s d w =
      if hasFlag (pte s d (virtToPdIndex w) (virtToPtIndex w)) ptePresent then
        entryGetPhys (pte s d (virtToPdIndex w) (virtToPtIndex w)) + pageOffset w
      else 0 := by
  rw [pageGetPhys, orCurrent, if_neg hd, walk, pte]
  cases hasFlag (s.entry d (virtToPdIndex w)) ptePresent with
  | false => simp [hasFlag]
  | true =>
    simp only [Bool.not_true, Bool.false_eq_true, if_false, if_true]
    split_ifs <;> simp_all

lemma pageIsPresent_eq (s : PagingState) {d : U32} (hd : d ≠ 0) (w : U32) :
    pageIsPresent s d w = hasFlag (pte s d (virtToPdIndex w) (virtToPtIndex w)) ptePresent := by
  rw [pageIsPresent, orCurrent, if_neg hd, walk, pte]
  cases hasFlag (s.entry d (virtToPdIndex w)) ptePresent with
  | false => simp
  | true => simp

namespace TablesOwned

variable {s : PagingState} {ds : Set U32} {role : U32 → Role} {d x : U32} {i j : ℕ}
variable {d' y : U32} {r : Role}

lemma managed (T : TablesOwned s ds role) (hx : role x ≠ .free) : s.alloc.Managed x :=
  (T.marked hx).2.1

lemma free_of_not_marked (T : TablesOwned s ds role) (hx : ¬ s.alloc.Marked x) :
    role x = .free := by
  by_contra h
  exact hx (T.marked h).2

lemma kernel_free (T : TablesOwned s ds role) : role (physOf s.kernelPd) = .free := by
  by_contra h
  exact T.kernel.2 (T.managed h)

lemma dir_ne_kernel (T : TablesOwned s ds role) (hd : d ∈ ds) : d ≠ s.kernelPd := by
  rintro rfl
  have hdir := (T.dir hd).2
  rw [T.kernel_free] at hdir
  cases hdir

lemma dir_ne_zero (T : TablesOwned s ds role) (hd : d ∈ ds) : d ≠ 0 := by
  obtain ⟨heq, hrole⟩ := T.dir hd
  rw [heq]
  exact higherHalf_ne_zero (T.lt_oneGiB (by rw [hrole]; simp))

lemma dir_ext (T : TablesOwned s ds role) (hd : d ∈ ds) (hd' : d' ∈ ds) (h : physOf d = physOf d') :
    d = d' := by
  rw [(T.dir hd).1, (T.dir hd').1, h]

/-- The role of the table a directory has at entry `i`. -/
def tableRole (s : PagingState) (d : U32) (i : ℕ) : Role :=
  if d = s.kernelPd then .kernelTable i else procRole d i

lemma tableRole_ne_free (s : PagingState) (d : U32) (i : ℕ) : tableRole s d i ≠ .free := by
  rw [tableRole, procRole]
  split_ifs <;> simp

lemma tableRole_ne_dir (s : PagingState) (d : U32) (i : ℕ) : tableRole s d i ≠ .dir := by
  rw [tableRole, procRole]
  split_ifs <;> simp

/-- A directory of the system: a process directory or the kernel's. -/
def Known (s : PagingState) (ds : Set U32) (d : U32) : Prop := d ∈ ds ∨ d = s.kernelPd

lemma role_table (T : TablesOwned s ds role) (hd : Known s ds d) (hi : i < 1024)
    (hp : hasFlag (s.entry d i) ptePresent = true) :
    role (entryGetPhys (s.entry d i)) = tableRole s d i := by
  rcases hd with hd | rfl
  · rw [tableRole, if_neg (T.dir_ne_kernel hd)]
    exact T.pde hd hi hp
  · rw [tableRole, if_pos rfl]
    exact T.kpde hi hp

lemma physOf_table (T : TablesOwned s ds role) (hd : Known s ds d) (hi : i < 1024)
    (hp : hasFlag (s.entry d i) ptePresent = true) :
    physOf (s.ptablePtr (entryGetPhys (s.entry d i))) = entryGetPhys (s.entry d i) := by
  apply physOf_ptablePtr
  apply T.lt_oneGiB
  rw [T.role_table hd hi hp]
  exact tableRole_ne_free s d i

lemma physOf_known_role (T : TablesOwned s ds role) (hd : Known s ds d) :
    role (physOf d) = .dir ∨ role (physOf d) = .free := by
  rcases hd with hd | rfl
  · exact .inl (T.dir hd).2
  · exact .inr T.kernel_free

lemma known_ne_zero (T : TablesOwned s ds role) (hd : Known s ds d) : d ≠ 0 := by
  rcases hd with hd | rfl
  · exact T.dir_ne_zero hd
  · exact T.kernel.1

lemma known_ext (T : TablesOwned s ds role) (hd : Known s ds d) (hd' : Known s ds d')
    (h : physOf d = physOf d') : d = d' := by
  rcases hd with hd | rfl <;> rcases hd' with hd' | rfl
  · exact T.dir_ext hd hd' h
  · have := (T.dir hd).2
    rw [h, T.kernel_free] at this
    cases this
  · have := (T.dir hd').2
    rw [← h, T.kernel_free] at this
    cases this
  · rfl

lemma tableRole_inj {i' : ℕ} (h : tableRole s d i = tableRole s d' i') :
    i = i' ∧ (UserIdx i → d = d') := by
  rw [tableRole, tableRole, procRole, procRole] at h
  split_ifs at h with h1 h2 h3 h4 h5 <;> simp_all

lemma marked_update (T : TablesOwned s ds role) {a : FrameAllocator} (A : AllocEffect s.alloc a x)
    (hy : update role x r y ≠ .free) :
    isPageAligned y = true ∧ a.Marked y := by
  by_cases hyx : y = x
  · rw [hyx]
    exact ⟨A.aligned, (A.marked_iff A.aligned).mpr (.inr rfl)⟩
  · rw [update_of_ne hyx] at hy
    obtain ⟨halign, hmark⟩ := T.marked hy
    exact ⟨halign, (A.marked_iff halign).mpr (.inl hmark)⟩

lemma lt_oneGiB_update (T : TablesOwned s ds role) (hx : x.toNat < 0x40000000)
    (hy : update role x r y ≠ .free) : y.toNat < 0x40000000 := by
  by_cases hyx : y = x
  · rwa [hyx]
  · rw [update_of_ne hyx] at hy
    exact T.lt_oneGiB hy

lemma table_ne_known (T : TablesOwned s ds role) (hd : Known s ds d) (hi : i < 1024)
    (hp : hasFlag (s.entry d i) ptePresent = true) (hd' : Known s ds d') :
    entryGetPhys (s.entry d i) ≠ physOf d' := by
  intro heq
  have hrole := T.role_table hd hi hp
  rw [heq] at hrole
  rcases T.physOf_known_role hd' with h | h <;> rw [h] at hrole
  · exact tableRole_ne_dir s d i hrole.symm
  · exact tableRole_ne_free s d i hrole.symm

/-- The entries of the directories after one of them was written. -/
lemma entry_setEntry_known (T : TablesOwned s ds role) (hd : Known s ds d) (hd' : Known s ds d')
    (e : U32) (k : ℕ) :
    (s.setEntry d' i e).entry d k = if d = d' ∧ k = i then e else s.entry d k := by
  rw [entry_setEntry]
  by_cases h : d = d'
  · simp [h]
  · have hne : physOf d ≠ physOf d' := fun heq => h (T.known_ext hd hd' heq)
    simp [h, hne]

/-! ### A frame that is handed out -/

section Fresh

variable {a : FrameAllocator}

lemma update_of_role (T : TablesOwned s ds role) (A : AllocEffect s.alloc a x)
    (hy : role y ≠ .free) : update role x r y = role y := by
  rw [update_of_ne]
  rintro rfl
  exact hy (T.free_of_not_marked A.unmarked)

lemma update_of_free (A : AllocEffect s.alloc a x) (hy : role y = .free) :
    update role x r y = .free ∨
      (update role x r y = r ∧ ¬ s.alloc.Marked y) := by
  by_cases hyx : y = x
  · rw [hyx, update_self]
    exact .inr ⟨rfl, A.unmarked⟩
  · rw [update_of_ne hyx]
    exact .inl hy

lemma known_ne_fresh (T : TablesOwned s ds role) (A : AllocEffect s.alloc a x)
    (hd : Known s ds d) : physOf d ≠ x := by
  rintro rfl
  rcases hd with hd | rfl
  · exact A.unmarked (T.marked (by rw [(T.dir hd).2]; simp)).2
  · exact T.kernel.2 A.managed

lemma table_ne_fresh (T : TablesOwned s ds role) (A : AllocEffect s.alloc a x)
    (hd : Known s ds d) (hi : i < 1024) (hp : hasFlag (s.entry d i) ptePresent = true) :
    entryGetPhys (s.entry d i) ≠ x := by
  rintro rfl
  have hne := tableRole_ne_free s d i
  rw [← T.role_table hd hi hp] at hne
  exact A.unmarked (T.marked hne).2

/-- The frame gets the role `r`, and the entries of the directories agree with the roles. -/
lemma extend (T : TablesOwned s ds role) (A : AllocEffect s.alloc a x) (hx : x.toNat < 0x40000000)
    {s' : PagingState} {ds' : Set U32} (halloc : s'.alloc = a) (hk : s'.kernelPd = s.kernelPd)
    (hdir : ∀ {d}, d ∈ ds' →
      d = kernelVirtualBase + physOf d ∧ update role x r (physOf d) = .dir)
    (hrole : ∀ {d i}, Known s ds' d → i < 1024 → hasFlag (s'.entry d i) ptePresent = true →
      update role x r (entryGetPhys (s'.entry d i)) = tableRole s d i)
    (hown : ∀ {d i}, d ∈ ds' → i < 768 → hasFlag (s'.entry d i) ptePresent = true →
      (hasFlag (s'.entry d i) pteAllocated = true ↔ UserIdx i)) :
    TablesOwned s' ds' (update role x r) where
  wf := by rw [halloc]; exact A.wf
  marked := by rw [halloc]; exact T.marked_update A
  lt_oneGiB := T.lt_oneGiB_update hx
  kernel := by rw [halloc, hk, A.managed_iff]; exact T.kernel
  kernelPtr := by rw [hk]; exact T.kernelPtr
  dir := hdir
  kpde := by
    intro i hi hp
    rw [hk] at hp ⊢
    rw [hrole (.inr rfl) hi hp, tableRole, if_pos rfl]
  pde := by
    intro d i hd hi hp
    rw [hrole (.inl hd) hi hp, tableRole, if_neg]
    -- the kernel's directory has no role
    rintro rfl
    have hfree := (hdir hd).2
    rw [update_of_ne (T.known_ne_fresh A (.inr rfl)), T.kernel_free] at hfree
    cases hfree
  pdeOwn := hown

end Fresh

/-- The invariant reads the directories' entries only up to presence, ownership and
frame. -/
lemma congr (T : TablesOwned s ds role) {s' : PagingState} (halloc : s'.alloc = s.alloc)
    (hk : s'.kernelPd = s.kernelPd)
    (hentry : ∀ {d i}, Known s ds d →
      hasFlag (s'.entry d i) ptePresent = hasFlag (s.entry d i) ptePresent ∧
      hasFlag (s'.entry d i) pteAllocated = hasFlag (s.entry d i) pteAllocated ∧
      entryGetPhys (s'.entry d i) = entryGetPhys (s.entry d i)) :
    TablesOwned s' ds role where
  wf := by rw [halloc]; exact T.wf
  marked := by rw [halloc]; exact T.marked
  lt_oneGiB := T.lt_oneGiB
  kernel := by rw [halloc, hk]; exact T.kernel
  kernelPtr := by rw [hk]; exact T.kernelPtr
  dir := T.dir
  kpde := by
    intro i hi hp
    obtain ⟨h1, -, h3⟩ := hentry (i := i) (.inr hk)
    rw [h1, hk] at hp
    rw [h3, hk]
    exact T.kpde hi hp
  pde := by
    intro d i hd hi hp
    obtain ⟨h1, -, h3⟩ := hentry (i := i) (.inl hd)
    rw [h1] at hp
    rw [h3]
    exact T.pde hd hi hp
  pdeOwn := by
    intro d i hd hi hp
    obtain ⟨h1, h2, -⟩ := hentry (i := i) (.inl hd)
    rw [h1] at hp
    rw [h2]
    exact T.pdeOwn hd hi hp

end TablesOwned

/-! ## Finding or creating a table -/

open TablesOwned

/-- What a call that needs the table behind entry `i` of `pd` does to the directories. -/
structure EntryEffect (s s' : PagingState) (ds : Set U32) (role role' : U32 → Role)
    (pd : U32) (i : ℕ) (flags : U32) : Prop where
  owned : TablesOwned s' ds role'
  mono : ∀ {y}, role y ≠ .free → role' y = role y
  grow : ∀ {y}, role y = .free →
    role' y = .free ∨ (role' y = tableRole s pd i ∧ ¬ s.alloc.Marked y)
  kernelPd : s'.kernelPd = s.kernelPd
  active : s'.active = s.active
  bytes : s'.bytes = s.bytes
  cr3 : s'.cr3 = s.cr3
  present : hasFlag (s'.entry pd i) ptePresent = true
  pdePhys : entryGetPhys (s'.entry pd i) =
    if hasFlag (s.entry pd i) ptePresent then entryGetPhys (s.entry pd i)
    else (frameAlloc s.alloc).2
  pdeUser : hasFlag (s'.entry pd i) pteUser =
    ((hasFlag (s.entry pd i) ptePresent && hasFlag (s.entry pd i) pteUser) || hasFlag flags pteUser)
  pdeRw : hasFlag (s'.entry pd i) pteRw =
    (!hasFlag (s.entry pd i) ptePresent || hasFlag (s.entry pd i) pteRw)
  pdeSame : ∀ {d k}, Known s ds d → d ≠ pd ∨ k ≠ i → s'.entry d k = s.entry d k
  alloc : s'.alloc =
    if hasFlag (s.entry pd i) ptePresent then s.alloc else (frameAlloc s.alloc).1

/-- `getTable` succeeds: the table `pt` behind entry `i` of `pd`, and every translation as
before. -/
structure TableFor (s s' : PagingState) (ds : Set U32) (role role' : U32 → Role)
    (pd : U32) (i : ℕ) (flags pt : U32) : Prop
    extends EntryEffect s s' ds role role' pd i flags where
  table : s'.ptablePtr (entryGetPhys (s'.entry pd i)) = pt
  tableRole : role' (physOf pt) = tableRole s pd i
  pteSame : ∀ {d k j}, Known s ds d → k < 1024 → pte s' d k j = pte s d k j

section GetTable

variable {s : PagingState} {ds : Set U32} {role : U32 → Role} {pd flags : U32} {i : ℕ}

lemma tableFor_of_present (T : TablesOwned s ds role) (hpd : Known s ds pd) (hi : i < 1024)
    (hp : hasFlag (s.entry pd i) ptePresent = true) {s' : PagingState} {e : U32}
    (hs' : s' = s.setEntry pd i e) (hphys : entryGetPhys e = entryGetPhys (s.entry pd i))
    (hbit : ∀ k ≠ 2, e.getLsbD k = (s.entry pd i).getLsbD k)
    (huser : hasFlag e pteUser = (hasFlag (s.entry pd i) pteUser || hasFlag flags pteUser)) :
    TableFor s s' ds role role pd i flags (s.ptablePtr (entryGetPhys (s.entry pd i))) := by
  have hentry : ∀ {d k}, Known s ds d →
      s'.entry d k = if d = pd ∧ k = i then e else s.entry d k := by
    intro d k hd
    rw [hs']
    exact T.entry_setEntry_known hd hpd e k
  have hpdi : s'.entry pd i = e := by
    rw [hentry hpd, if_pos ⟨rfl, rfl⟩]
  have hflag : ∀ {f : U32} {k : ℕ}, f = BitVec.twoPow 32 k → k < 32 → k ≠ 2 →
      hasFlag e f = hasFlag (s.entry pd i) f := by
    intro f k hf hk hk2
    rw [hasFlag_bit _ hf hk, hasFlag_bit _ hf hk, hbit k hk2]
  have hpresent : hasFlag e ptePresent = hasFlag (s.entry pd i) ptePresent :=
    hflag (k := 0) (by decide) (by decide) (by decide)
  have hsame : ∀ {d k}, Known s ds d →
      hasFlag (s'.entry d k) ptePresent = hasFlag (s.entry d k) ptePresent ∧
      hasFlag (s'.entry d k) pteAllocated = hasFlag (s.entry d k) pteAllocated ∧
      entryGetPhys (s'.entry d k) = entryGetPhys (s.entry d k) := by
    intro d k hd
    rw [hentry hd]
    split_ifs with h
    · obtain ⟨rfl, rfl⟩ := h
      exact ⟨hpresent, hflag (k := 10) (by decide) (by decide) (by decide), hphys⟩
    · exact ⟨rfl, rfl, rfl⟩
  have halloc : s'.alloc = s.alloc := by rw [hs', setEntry_alloc]
  have hactive : s'.active = s.active := by rw [hs', setEntry_active]
  have hptr : ∀ x, s'.ptablePtr x = s.ptablePtr x := by
    intro x
    rw [ptablePtr, ptablePtr, hactive]
  refine
    { owned := T.congr halloc (by rw [hs', setEntry_kernelPd]) hsame
      mono := fun _ => rfl
      grow := fun h => .inl h
      kernelPd := by rw [hs', setEntry_kernelPd]
      active := hactive
      bytes := by rw [hs', setEntry_bytes]
      cr3 := by rw [hs', setEntry_cr3]
      present := by rw [hpdi, hpresent, hp]
      table := by rw [hpdi, hphys, hptr]
      tableRole := by rw [T.physOf_table hpd hi hp, T.role_table hpd hi hp]
      pdePhys := by rw [hpdi, hphys, hp]; simp
      pdeUser := by rw [hpdi, huser, hp, Bool.true_and]
      pdeRw := ?_
      pdeSame := fun hd hne => by rw [hentry hd, if_neg (not_and_or.mpr hne)]
      pteSame := ?_
      alloc := by rw [halloc, hp]; simp }
  · rw [hpdi, hp, hflag (k := 1) (by decide) (by decide) (by decide)]
    simp
  · intro d k j hd hk
    obtain ⟨h1, -, h3⟩ := hsame (k := k) hd
    rw [pte, pte, h1, h3, hptr]
    split_ifs with hpk
    · rw [hs', entry_setEntry_of_ne]
      rw [T.physOf_table hd hk hpk]
      exact T.table_ne_known hd hk hpk hpd
    · rfl

lemma tableFor_of_absent (T : TablesOwned s ds role) (hpd : Known s ds pd)
    (hown : pd ∈ ds → UserIdx i) (hp : hasFlag (s.entry pd i) ptePresent = false)
    {a : FrameAllocator} {s' : PagingState} {x e : U32} (A : AllocEffect s.alloc a x)
    (hx : x.toNat < 0x40000000)
    (hs' : s' = (({ s with alloc := a } : PagingState).setEntry pd i e).clearTable (s.ptablePtr x))
    (hphys : entryGetPhys e = x) (hpe : hasFlag e ptePresent = true)
    (hae : hasFlag e pteAllocated = true) (hrw : hasFlag e pteRw = true)
    (huser : hasFlag e pteUser = hasFlag flags pteUser) :
    TableFor s s' ds role (update role x (tableRole s pd i)) pd i flags
      (s.ptablePtr x) := by
  have hpx : physOf (s.ptablePtr x) = x := physOf_ptablePtr s hx
  have hother : ∀ {ptr k}, physOf ptr ≠ x → s'.entry ptr k = (s.setEntry pd i e).entry ptr k := by
    intro ptr k hne
    rw [hs', entry_clearTable, hpx, if_neg hne]
    rfl
  have hentry : ∀ {d k}, Known s ds d →
      s'.entry d k = if d = pd ∧ k = i then e else s.entry d k := fun {d k} hd =>
    (hother (T.known_ne_fresh A hd)).trans (T.entry_setEntry_known hd hpd e k)
  have hpdi : s'.entry pd i = e := by
    rw [hentry hpd, if_pos ⟨rfl, rfl⟩]
  have halloc : s'.alloc = a := by rw [hs']; rfl
  have hkernel : s'.kernelPd = s.kernelPd := by rw [hs']; rfl
  have hptr : ∀ y, s'.ptablePtr y = s.ptablePtr y := by
    intro y
    rw [hs']
    rfl
  refine
    { owned := T.extend A hx halloc hkernel ?_ ?_ ?_
      mono := T.update_of_role A
      grow := update_of_free A
      kernelPd := hkernel
      active := by rw [hs']; rfl
      bytes := by rw [hs']; rfl
      cr3 := by rw [hs']; rfl
      present := by rw [hpdi, hpe]
      table := by rw [hpdi, hphys, hptr]
      tableRole := by rw [hpx, update_self]
      pdePhys := by rw [hpdi, hphys, hp, A.eq]; simp
      pdeUser := by rw [hpdi, huser, hp]; simp
      pdeRw := by rw [hpdi, hrw, hp]; simp
      pdeSame := fun hd hne => by rw [hentry hd, if_neg (not_and_or.mpr hne)]
      pteSame := ?_
      alloc := by rw [halloc, hp, A.eq]; simp }
  · intro d hd
    obtain ⟨hdeq, hdir⟩ := T.dir hd
    exact ⟨hdeq, by rw [T.update_of_role A (by rw [hdir]; simp), hdir]⟩
  · intro d k hd hk hpk
    rw [hentry hd] at hpk ⊢
    split_ifs at hpk ⊢ with h
    · obtain ⟨rfl, rfl⟩ := h
      rw [hphys, update_self]
    · rw [update_of_ne (T.table_ne_fresh A hd hk hpk), T.role_table hd hk hpk]
  · intro d k hd hk hpk
    rw [hentry (.inl hd)] at hpk ⊢
    split_ifs at hpk ⊢ with h
    · obtain ⟨rfl, rfl⟩ := h
      exact ⟨fun _ => hown hd, fun _ => hae⟩
    · exact T.pdeOwn hd hk hpk
  · intro d k j hd hk
    by_cases h : d = pd ∧ k = i
    · -- the new table is empty
      obtain ⟨rfl, rfl⟩ := h
      rw [pte, pte, hpdi, if_pos hpe, if_neg (by simp [hp]), hphys, hptr, hs', entry_clearTable,
        if_pos rfl]
    · rw [pte, pte, hentry hd, if_neg h]
      split_ifs with hpk
      · have hpt := T.physOf_table hd hk hpk
        rw [hptr, hother (by rw [hpt]; exact T.table_ne_fresh A hd hk hpk), entry_setEntry_of_ne]
        rw [hpt]
        exact T.table_ne_known hd hk hpk hpd
      · rfl

/-- **`getTable`** fails, changing nothing, exactly when a table is missing and no frame is left.  A
new table has to lie where the kernel's pointer to it reaches it. -/
lemma getTable_spec (T : TablesOwned s ds role) (hpd : Known s ds pd)
    (hown : pd ∈ ds → UserIdx i) (hi : i < 1024)
    (hnext : hasFlag (s.entry pd i) ptePresent = false → s.alloc.NextLow) (flags : U32) :
    (getTable s pd i flags = (s, none) ∧ hasFlag (s.entry pd i) ptePresent = false ∧
        s.alloc.freeCount = 0) ∨
      ∃ s' pt role', getTable s pd i flags = (s', some pt) ∧
        (hasFlag (s.entry pd i) ptePresent = true ∨ 0 < s.alloc.freeCount) ∧
        TableFor s s' ds role role' pd i flags pt := by
  rw [getTable]
  cases hp : hasFlag (s.entry pd i) ptePresent with
  | true =>
    right
    simp only [Bool.not_true, Bool.false_eq_true, if_false]
    refine ⟨_, _, role, rfl, .inl trivial, ?_⟩
    split_ifs with hu
    · rw [Bool.and_eq_true, Bool.not_eq_true'] at hu
      apply tableFor_of_present T hpd hi hp rfl (entryGetPhys_or_user _)
      · intro k hk
        exact or_user_bit _ hk
      · rw [hu.1, Bool.or_true, hasFlag_user, BitVec.getLsbD_or]
        simp [pteUser]
    · have hself : s = s.setEntry pd i (s.entry pd i) := by
        simp [setEntry, entry]
      apply tableFor_of_present T hpd hi hp hself rfl (fun _ _ => rfl)
      rw [Bool.and_eq_true, Bool.not_eq_true'] at hu
      cases hf : hasFlag flags pteUser with
      | false => simp
      | true =>
        rw [Bool.or_true]
        by_contra hne
        exact hu ⟨hf, by simpa using hne⟩
  | false =>
    simp only [Bool.not_false, if_true]
    rcases frameAlloc_spec T.wf with ⟨heq, hc⟩ | ⟨a, x, A⟩
    · left
      simp [heq, hc]
    · right
      simp only [A.eq, A.ne_zero, if_false]
      refine ⟨_, _, update role x (tableRole s pd i), rfl,
        .inr (by rw [← A.count]; omega), ?_⟩
      apply tableFor_of_absent T hpd hown hp A (A.lt_oneGiB (hnext hp)) rfl
        (entryGetPhys_entryCreate_of_aligned A.aligned _)
      · rw [hasFlag_present, entryCreate_bit _ _ (by decide)]
        split_ifs <;> decide
      · rw [hasFlag_allocated, entryCreate_bit _ _ (by decide)]
        split_ifs <;> decide
      · rw [hasFlag_rw, entryCreate_bit _ _ (by decide)]
        split_ifs <;> decide
      · rw [hasFlag_user, entryCreate_bit _ _ (by decide)]
        cases hasFlag flags pteUser <;> decide

end GetTable

end OpenHobbyOS.Paging
