/-
# Finding the root pointer of ACPI

`uacpi_kernel_get_rsdp` of `src/uacpi_port.c` searches the EBDA and the BIOS for the RSDP.  If the
EBDA is not where it can be, the first range is made empty and the second is left out.
-/
import OpenHobbyOS.Lib.Bytes
import OpenHobbyOS.Paging.Entry

namespace OpenHobbyOS.Acpi

open Lib List Option

/-! ## The code -/

/-- The signature `RSD PTR` and a blank, and bytes whose sum is zero. -/
def rsdpAt (mem : ℕ → U8) (addr : ℕ) : Bool :=
  window mem addr 8 = [0x52, 0x53, 0x44, 0x20, 0x50, 0x54, 0x52, 0x20] ∧
    (window mem addr 20).foldl (· + ·) 0 = 0

/-- The loop over the addresses of a range. -/
def searchRange (mem : ℕ → U8) (stop addr : ℕ) : Option ℕ :=
  if addr + 20 ≤ stop then
    if rsdpAt mem addr then some addr else searchRange mem stop (addr + 16)
  else none
termination_by stop - addr

/-- `ebda_base`. -/
def ebdaBase (mem : ℕ → U8) : ℕ := le16 mem 0x40E * 16

/-- The result and `uacpi_rsdp_address` afterwards. -/
def uacpiKernelGetRsdp (mem : ℕ → U8) (rsdpAddress : ℕ) : Option ℕ × ℕ :=
  if rsdpAddress ≠ 0 then (some rsdpAddress, rsdpAddress)
  else
    let ebda := ebdaBase mem
    let invalid := ebda < 0x80000 ∨ 0xA0000 ≤ ebda
    let ranges := [(ebda, if invalid then 0 else ebda + 1024), (0xE0000, 0x100000)]
    let numRanges := if invalid then 1 else 2
    let found := (ranges.take numRanges).findSome? fun (start, stop) =>
      if stop ≤ start then none else searchRange mem stop start
    (found, found.getD 0)

/-- `find_rsdp` of `src/power.c`, with the same ranges. -/
def findRsdp (mem : ℕ → U8) : Option ℕ :=
  let ebda := ebdaBase mem
  or (if 0x80000 ≤ ebda ∧ ebda < 0xA0000 then searchRange mem (ebda + 1024) ebda else none)
    (searchRange mem 0x100000 0xE0000)

/-! ## What is to be found -/

/-- The EBDA is where it can be. -/
def ValidEbda (mem : ℕ → U8) : Prop := 0x80000 ≤ ebdaBase mem ∧ ebdaBase mem < 0xA0000

/-- The first `need` bytes of a structure at a boundary of 16 are in a range. -/
def Counts (need : ℕ) (mem : ℕ → U8) (start stop a : ℕ) : Prop :=
  16 ∣ a ∧ start ≤ a ∧ a + need ≤ stop ∧ rsdpAt mem a = true

/-- The first structure in the order of the search. -/
def First (need : ℕ) (mem : ℕ → U8) (a : ℕ) : Prop :=
  ValidEbda mem ∧ IsLeast {b | Counts need mem (ebdaBase mem) (ebdaBase mem + 1024) b} a ∨
  (ValidEbda mem → ∀ b, ¬Counts need mem (ebdaBase mem) (ebdaBase mem + 1024) b) ∧
    IsLeast {b | Counts need mem 0xE0000 0x100000 b} a

/-! ## The search -/

variable {mem : ℕ → U8} {start stop a : ℕ}

lemma searchRange_eq_some (hstart : 16 ∣ start) :
    searchRange mem stop start = some a ↔ IsLeast {b | Counts 20 mem start stop b} a := by
  fun_induction searchRange mem stop start with
  | case1 addr hfits hrsdp =>
    have hleast : IsLeast {b | Counts 20 mem addr stop b} addr :=
      ⟨⟨hstart, le_rfl, hfits, hrsdp⟩, fun b hb => hb.2.1⟩
    constructor
    · intro h
      exact some.inj h ▸ hleast
    · intro h
      rw [hleast.unique h]
  | case2 addr hfits hrsdp ih =>
    have hsame : {b | Counts 20 mem addr stop b} = {b | Counts 20 mem (addr + 16) stop b} := by
      ext b
      constructor
      · rintro ⟨hb, hle, hstop, hat⟩
        have hne : addr ≠ b := fun h => hrsdp (h ▸ hat)
        exact ⟨hb, by omega, hstop, hat⟩
      · rintro ⟨hb, hle, hstop, hat⟩
        exact ⟨hb, by omega, hstop, hat⟩
    rw [hsame]
    exact ih (by omega)
  | case3 addr hfits =>
    constructor
    · intro h
      cases h
    · rintro ⟨⟨-, hle, hstop, -⟩, -⟩
      omega

lemma Counts.mono {need need' : ℕ} (hneed : need ≤ need') (h : Counts need' mem start stop a) :
    Counts need mem start stop a :=
  ⟨h.1, h.2.1, by have := h.2.2.1; omega, h.2.2.2⟩

lemma Counts.exists_isLeast {need : ℕ} (h : Counts need mem start stop a) :
    ∃ b, IsLeast {b | Counts need mem start stop b} b := by
  classical
  exact ⟨Nat.find ⟨a, h⟩, Nat.find_spec ⟨a, h⟩, fun b hb => Nat.find_min' ⟨a, h⟩ hb⟩

lemma searchRange_eq_none (hstart : 16 ∣ start) :
    searchRange mem stop start = none ↔ ∀ b, ¬Counts 20 mem start stop b := by
  constructor
  · intro h b hb
    obtain ⟨a, ha⟩ := hb.exists_isLeast
    cases h.symm.trans ((searchRange_eq_some hstart).mpr ha)
  · intro h
    cases hfound : searchRange mem stop start with
    | none => rfl
    | some a => exact absurd ((searchRange_eq_some hstart).mp hfound).1 (h a)

lemma uacpiKernelGetRsdp_eq_some :
    (uacpiKernelGetRsdp mem 0).1 = some a ↔ ValidEbda mem ∧ First 20 mem a := by
  have hdvd : 16 ∣ ebdaBase mem := Nat.dvd_mul_left ..
  by_cases hvalid : ValidEbda mem
  · have hinvalid : ¬(ebdaBase mem < 0x80000 ∨ 0xA0000 ≤ ebdaBase mem) := by
      rintro (h | h)
      · exact absurd hvalid.1 (by omega)
      · exact absurd hvalid.2 (by omega)
    simp only [uacpiKernelGetRsdp, hinvalid, First, hvalid, ne_eq, not_true_eq_false, if_false,
      take_succ_cons, take_zero, findSome?_cons, findSome?_nil, true_and, true_implies]
    rw [if_neg (by omega), if_neg (by norm_num)]
    cases hfound : searchRange mem (ebdaBase mem + 1024) (ebdaBase mem) with
    | some b =>
      have hb := (searchRange_eq_some hdvd).mp hfound
      constructor
      · intro h
        exact .inl (some.inj h ▸ hb)
      · rintro (h | ⟨h, -⟩)
        · rw [hb.unique h]
        · exact absurd hb.1 (h b)
    | none =>
      have hnone := (searchRange_eq_none hdvd).mp hfound
      have hbios : searchRange mem 0x100000 0xE0000 = some a ↔ _ :=
        searchRange_eq_some (by norm_num)
      constructor
      · intro h
        refine .inr ⟨hnone, hbios.mp ?_⟩
        cases hb : searchRange mem 0x100000 0xE0000 <;> simp_all
      · rintro (h | ⟨-, h⟩)
        · exact absurd h.1 (hnone a)
        · rw [hbios.mpr h]
  · have hinvalid : ebdaBase mem < 0x80000 ∨ 0xA0000 ≤ ebdaBase mem := by
      by_contra h
      exact hvalid ⟨by omega, by omega⟩
    simp [uacpiKernelGetRsdp, hinvalid, hvalid]

/-- `uacpi_rsdp_address` after `n` calls. -/
def rsdpAfter (mem : ℕ → U8) : ℕ → ℕ
  | 0 => 0
  | n + 1 => (uacpiKernelGetRsdp mem (rsdpAfter mem n)).2

lemma uacpiKernelGetRsdp_after (n : ℕ) :
    (uacpiKernelGetRsdp mem (rsdpAfter mem n)).1 = (uacpiKernelGetRsdp mem 0).1 := by
  -- the address kept is 0 or the one that the first call found
  have hkept : ∀ m, rsdpAfter mem m = 0 ∨
      rsdpAfter mem m ≠ 0 ∧ (uacpiKernelGetRsdp mem 0).1 = some (rsdpAfter mem m) := by
    intro m
    induction m with
    | zero => exact .inl rfl
    | succ m ih =>
      obtain h | ⟨h, hsome⟩ := ih
      · have hnext : rsdpAfter mem (m + 1) = (uacpiKernelGetRsdp mem 0).1.getD 0 := by
          rw [rsdpAfter, h]
          rfl
        rw [hnext]
        cases (uacpiKernelGetRsdp mem 0).1 with
        | none => exact .inl rfl
        | some b => exact (eq_or_ne b 0).imp id fun hb => ⟨hb, rfl⟩
      · have hnext : rsdpAfter mem (m + 1) = rsdpAfter mem m := by
          rw [rsdpAfter, uacpiKernelGetRsdp, if_pos h]
        rw [hnext]
        exact .inr ⟨h, hsome⟩
  obtain h | ⟨h, hsome⟩ := hkept n
  · rw [h]
  · rw [hsome, uacpiKernelGetRsdp, if_pos h]

/-- **The two searches.**  The kernel's own finds the first structure, and the port's finds it
exactly if the EBDA is valid. -/
theorem findRsdp_first (mem : ℕ → U8) (n a : ℕ) :
    (findRsdp mem = some a ↔ First 20 mem a) ∧
      ((uacpiKernelGetRsdp mem (rsdpAfter mem n)).1 = some a ↔
        ValidEbda mem ∧ findRsdp mem = some a) := by
  have hdvd : 16 ∣ ebdaBase mem := Nat.dvd_mul_left ..
  have hfirst : findRsdp mem = some a ↔ First 20 mem a := by
    rw [findRsdp, or_eq_some_iff, searchRange_eq_some (show 16 ∣ 0xE0000 by norm_num)]
    by_cases hvalid : 0x80000 ≤ ebdaBase mem ∧ ebdaBase mem < 0xA0000
    · rw [if_pos hvalid, searchRange_eq_some hdvd, searchRange_eq_none hdvd]
      simp only [First, ValidEbda, hvalid, and_self, true_and, true_implies]
    · rw [if_neg hvalid]
      simp [First, ValidEbda, hvalid]
  rw [hfirst, uacpiKernelGetRsdp_after, uacpiKernelGetRsdp_eq_some]
  exact ⟨Iff.rfl, Iff.rfl⟩

/-! ## The first structure -/

section First

variable {need : ℕ}

/-- All 20 bytes are in the range in which the structure starts. -/
def EndsInside (mem : ℕ → U8) (a : ℕ) : Prop :=
  a + 20 ≤ if a < 0xE0000 then ebdaBase mem + 1024 else 0x100000

lemma First.unique {b : ℕ} (ha : First need mem a) (hb : First need mem b) : a = b := by
  obtain ⟨hvalid, ha⟩ | ⟨hnone, ha⟩ := ha
  · obtain ⟨-, hb⟩ | ⟨hnone, -⟩ := hb
    · exact ha.unique hb
    · exact absurd ha.1 (hnone hvalid a)
  · obtain ⟨hvalid, hb⟩ | ⟨-, hb⟩ := hb
    · exact absurd hb.1 (hnone hvalid b)
    · exact ha.unique hb

lemma First.exists_of_inside (hneed : need ≤ 20) (h : First 20 mem a) : ∃ b, First need mem b := by
  obtain ⟨hvalid, h⟩ | ⟨-, h⟩ := h
  · obtain ⟨b, hb⟩ := (h.1.mono hneed).exists_isLeast
    exact ⟨b, .inl ⟨hvalid, hb⟩⟩
  · by_cases hebda : ValidEbda mem →
        ∀ b, ¬Counts need mem (ebdaBase mem) (ebdaBase mem + 1024) b
    · obtain ⟨b, hb⟩ := (h.1.mono hneed).exists_isLeast
      exact ⟨b, .inr ⟨hebda, hb⟩⟩
    · simp only [not_forall, not_not] at hebda
      obtain ⟨hvalid, c, hc⟩ := hebda
      obtain ⟨b, hb⟩ := hc.exists_isLeast
      exact ⟨b, .inl ⟨hvalid, hb⟩⟩

lemma First.inside (h : First 20 mem a) : EndsInside mem a := by
  obtain ⟨hvalid, ⟨-, -, hstop, -⟩, -⟩ | ⟨-, ⟨-, hstart, hstop, -⟩, -⟩ := h
  · have := hvalid.2
    rwa [EndsInside, if_pos (by omega)]
  · rwa [EndsInside, if_neg (by omega)]

lemma First.of_endsInside (hneed : need ≤ 20) (h : First need mem a) (hends : EndsInside mem a) :
    First 20 mem a := by
  obtain ⟨hvalid, ha, hleast⟩ | ⟨hnone, ha, hleast⟩ := h
  · have hstop : a + 20 ≤ ebdaBase mem + 1024 := by
      have := hvalid.2
      have := ha.2.2.1
      rwa [EndsInside, if_pos (by omega)] at hends
    exact .inl ⟨hvalid, ⟨ha.1, ha.2.1, hstop, ha.2.2.2⟩, fun b hb => hleast (hb.mono hneed)⟩
  · have hstop : a + 20 ≤ 0x100000 := by
      have := ha.2.1
      rwa [EndsInside, if_neg (by omega)] at hends
    exact .inr ⟨fun hvalid b hb => hnone hvalid b (hb.mono hneed),
      ⟨ha.1, ha.2.1, hstop, ha.2.2.2⟩, fun b hb => hleast (hb.mono hneed)⟩

/-- Every call finds the first structure exactly if there is none at all, or the EBDA is valid and
the first structure lies in its range as a whole. -/
theorem rsdp_found_iff (mem : ℕ → U8) (n need : ℕ) (hneed : need ≤ 20) :
    (∀ a, (uacpiKernelGetRsdp mem (rsdpAfter mem n)).1 = some a ↔ First need mem a) ↔
      ∀ a, First need mem a → ValidEbda mem ∧ EndsInside mem a := by
  simp only [uacpiKernelGetRsdp_after, uacpiKernelGetRsdp_eq_some]
  constructor
  · intro h a ha
    obtain ⟨hvalid, hfirst⟩ := (h a).mpr ha
    exact ⟨hvalid, hfirst.inside⟩
  · intro h a
    constructor
    · rintro ⟨-, hfirst⟩
      obtain ⟨b, hb⟩ := hfirst.exists_of_inside hneed
      rwa [hfirst.unique (hb.of_endsInside hneed (h b hb).2)]
    · intro ha
      exact ⟨(h a ha).1, ha.of_endsInside hneed (h a ha).2⟩

end First

/-- An RSDP at an address; the word for the EBDA gives the base. -/
def withRsdp (segment : U8 × U8) (addr : ℕ) : ℕ → U8 := fun a =>
  if a = 0x40E then segment.1
  else if a = 0x40F then segment.2
  else if a < addr then 0
  else [0x52, 0x53, 0x44, 0x20, 0x50, 0x54, 0x52, 0x20, 0xE1].getD (a - addr) 0

theorem rsdp_found_in_ebda :
    1 ≤ 20 ∧ ∀ a, (uacpiKernelGetRsdp (withRsdp (0xC0, 0x9F) 0x9FC00)
      (rsdpAfter (withRsdp (0xC0, 0x9F) 0x9FC00) 5)).1 = some a ↔
        First 1 (withRsdp (0xC0, 0x9F) 0x9FC00) a := by
  refine ⟨by norm_num, (rsdp_found_iff _ 5 1 (by norm_num)).mpr fun a ha => ?_⟩
  have hvalid : ValidEbda (withRsdp (0xC0, 0x9F) 0x9FC00) := by
    unfold ValidEbda
    decide +kernel
  have hfirst : First 1 (withRsdp (0xC0, 0x9F) 0x9FC00) 0x9FC00 :=
    .inl ⟨hvalid, ⟨by norm_num, by decide +kernel, by decide +kernel, by decide +kernel⟩,
      fun b hb => hb.2.1⟩
  rw [ha.unique hfirst]
  exact ⟨hvalid, by unfold EndsInside; decide +kernel⟩

theorem rsdp_in_bios_missed :
    First 20 (withRsdp (0, 0) 0xE0000) 0xE0000 ∧
      (uacpiKernelGetRsdp (withRsdp (0, 0) 0xE0000) 0).1 = none := by
  have hinvalid : ¬ValidEbda (withRsdp (0, 0) 0xE0000) := by
    unfold ValidEbda
    decide +kernel
  constructor
  · exact .inr ⟨fun h => absurd h hinvalid,
      ⟨by norm_num, le_rfl, by norm_num, by decide +kernel⟩, fun b hb => hb.2.1⟩
  · refine eq_none_iff_forall_ne_some.mpr fun a ha => ?_
    exact hinvalid (uacpiKernelGetRsdp_eq_some.mp ha).1

end OpenHobbyOS.Acpi
