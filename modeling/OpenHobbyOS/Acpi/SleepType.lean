/-
# The sleep type in the DSDT

`aml_extract_sleep_type` of `src/power.c` looks for the name of a sleep state and reads two integers
from the package behind it.  Addresses are distances from the start of the table; pointers are
compared as 32-bit numbers.

The count of the elements and the further bytes of a length are not skipped (`sleep_type_iff`), and
the search for the first integer does not stop at the end of the table (`sleep_type_confined_iff`).
-/
import OpenHobbyOS.Lib.Bytes
import OpenHobbyOS.Lib.Reading
import OpenHobbyOS.Paging.Entry

namespace OpenHobbyOS.Acpi

open BitVec hiding and_self cons_append
open Lib Reading Option List Nat

/-- A computation that reads bytes of the table. -/
abbrev Aml := Reading U32 U8

/-! ## The code -/

/-- `dsdt->length`. -/
def sdtLength : Aml U32 := do
  let bytes ← getAll [4, 5, 6, 7]
  return bytes.foldr (fun byte value => value <<< 8 ||| byte.setWidth 32) 0

/-- `aml + at >= end`, for a table at the address `table`. -/
def pastEnd (table length at_ : U32) : Bool := table + length ≤ table + at_

section

variable (past : U32 → Bool)

/-- The loop of `aml_read_pkg_length`: `*value` and `*used`. -/
def pkgLengthLoop (aml : U32) : ℕ → ℕ → U32 → U32 → Aml (Option (U32 × U32))
  | 0, _, result, used => pure (some (result, used))
  | n + 1, i, result, used =>
    if past (aml + used) then pure none
    else do
      let byte ← get (aml + used)
      pkgLengthLoop aml n (i + 1) (result ||| byte.setWidth 32 <<< (8 * i + 4)) (used + 1)

/-- `aml_read_pkg_length`. -/
def amlReadPkgLength (aml : U32) : Aml (Option (U32 × U32)) :=
  if past aml then pure none
  else do
    let lead ← get aml
    if lead &&& 0xC0 = 0 then return some ((lead &&& 0x3F).setWidth 32, 1)
    else pkgLengthLoop past aml ((lead >>> 4) &&& 3).toNat 0 ((lead &&& 0x0F).setWidth 32) 1

/-- The loop of `aml_read_integer` over the bytes of the value. -/
def integerLoop (aml : U32) : ℕ → ℕ → BitVec 64 → Aml (Option (BitVec 64))
  | 0, _, value => pure (some value)
  | n + 1, i, value =>
    if past (aml + 1 + .ofNat 32 i) then pure none
    else do
      let byte ← get (aml + 1 + .ofNat 32 i)
      integerLoop aml n (i + 1) (value ||| byte.setWidth 64 <<< (i * 8))

/-- The branch for `0x5B 0x30` is never reached and left out. -/
def amlReadInteger (aml : U32) : Aml (Option (BitVec 64)) :=
  if past aml then pure none
  else do
    let lead ← get aml
    if lead = 0x00 then return some 0
    else if lead = 0x01 then return some 1
    else if lead = 0x60 then return some 0xFFFFFFFF
    else if 0x0A ≤ lead ∧ lead ≤ 0x0D then
      integerLoop past aml (1 <<< (lead - 0x0A).toNat) 0 0
    else return none

/-- The bytes at which the search for the first integer stops. -/
def stopByte (byte : U8) : Bool :=
  byte = 0x0A || byte = 0x0B || byte = 0x0C || byte = 0x0D || byte = 0x00 || byte = 0x01

/-- That search; `none` if it needs more fuel. -/
def skipLoop : ℕ → U32 → Aml (Option U32)
  | 0, _ => pure none
  | fuel + 1, offset => do
    let byte ← get offset
    if stopByte byte then return some offset else skipLoop fuel (offset + 1)

/-- The search and the two integers: `some none` is `false`, `none` a lack of fuel. -/
def readIntegers (fuel : ℕ) (offset : U32) : Aml (Option (Option (BitVec 16 × BitVec 16))) := do
  match ← skipLoop fuel offset with
  | none => return none
  | some offset =>
    match ← amlReadInteger past offset with
    | none => return some none
    | some a =>
      match ← amlReadInteger past (offset + 1) with
      | none => return some none
      | some b => return some (some ((a &&& 7).setWidth 16, (b &&& 7).setWidth 16))

/-- What is read of a package, from its length on. -/
def readPackage (fuel : ℕ) (offset : U32) : Aml (Option (Option (BitVec 16 × BitVec 16))) := do
  match ← amlReadPkgLength past offset with
  | none => return some none
  | some (_, used) =>
    match ← amlReadInteger past (offset + used) with
    | none => return some none
    | some _ => readIntegers past fuel (offset + used)

/-- Whether the bytes are those given; it stops at the first that is not. -/
def compareBytes : List (U32 × U8) → Aml Bool
  | [] => pure true
  | (at_, byte) :: rest => do
    let b ← get at_
    if b = byte then compareBytes rest else return false

/-- `NameOp`, an underscore and the three characters behind it. -/
def nameAt (name : U8 × U8 × U8) (offset : U32) : List (U32 × U8) :=
  [(offset, 0x08), (offset + 1, 0x5F), (offset + 2, name.1), (offset + 3, name.2.1),
    (offset + 4, name.2.2)]

/-- The loop of `aml_extract_sleep_type`. -/
def scanLoop (name : U8 × U8 × U8) : ℕ → U32 → Aml (Option (Option (BitVec 16 × BitVec 16)))
  | 0, _ => pure none
  | fuel + 1, offset => do
    let length ← sdtLength
    if offset + 5 < length then
      if ← compareBytes (nameAt name offset) then
        let offset := offset + 5
        if past offset then scanLoop name fuel (offset + 1)
        else do
          let op ← get offset
          if op = 0x12 then readPackage past fuel (offset + 1)
          else scanLoop name fuel (offset + 1)
      else scanLoop name fuel (offset + 1)
    else return some none

end

/-- `aml_extract_sleep_type`. -/
def amlExtractSleepType (table : U32) (name : U8 × U8 × U8) (fuel : ℕ) :
    Aml (Option (Option (BitVec 16 × BitVec 16))) := do
  let length ← sdtLength
  scanLoop (pastEnd table length) name fuel 36

/-! ## Reads inside the table -/

section Inside

variable {d : U32 → U8} {past : U32 → Bool} {length aml offset : U32}

/-- A pointer that is not past the end is before the end, if it is not more than at it. -/
def Guards (past : U32 → Bool) (length : U32) : Prop :=
  ∀ at_, at_.toNat ≤ length.toNat → past at_ = false → at_.toNat < length.toNat

lemma guards_pastEnd (table length : U32) : Guards (pastEnd table length) length := by
  intro at_ hle hpast
  refine lt_of_le_of_ne hle fun heq => ?_
  rw [eq_of_toNat_eq heq, pastEnd, decide_eq_false_iff_not] at hpast
  exact hpast (BitVec.le_refl _)

/-- The computation reads the table only. -/
def Inside (d : U32 → U8) (length : U32) {α : Type} (m : Aml α) : Prop :=
  ∀ x ∈ touched d m, x.toNat < length.toNat

lemma inside_pure {α : Type} (a : α) : Inside d length (pure a : Aml α) :=
  fun _ hx => absurd hx not_mem_nil

lemma inside_bind {α β : Type} {m : Aml α} {k : α → Aml β} :
    Inside d length (m >>= k) ↔ Inside d length m ∧ Inside d length (k (run d m)) := by
  rw [Inside, touched_bind, forall_mem_append]
  rfl

lemma inside_get : Inside d length (get offset) ↔ offset.toNat < length.toNat := by
  rw [Inside, touched_get, forall_mem_singleton]

lemma inside_guarded {α : Type} {k : U8 → Aml α} {a : α} (hg : Guards past length)
    (h : offset.toNat ≤ length.toNat)
    (hk : offset.toNat < length.toNat → Inside d length (k (d offset))) :
    Inside d length (if past offset then pure a else get offset >>= k) := by
  split_ifs with hpast
  · exact inside_pure a
  · have hin := hg offset h (Bool.eq_false_iff.mpr hpast)
    exact inside_bind.mpr ⟨inside_get.mpr hin, hk hin⟩

lemma toNat_add_ofNat {x : U32} {n : ℕ} (h : x.toNat + n < 2 ^ 32) :
    (x + .ofNat 32 n).toNat = x.toNat + n := by
  rw [toNat_add, toNat_ofNat, add_mod_mod, mod_eq_of_lt h]

lemma toNat_add_one {x : U32} (h : x.toNat + 1 < 2 ^ 32) : (x + 1).toNat = x.toNat + 1 :=
  toNat_add_ofNat h

lemma toNat_add_one_le {x : U32} (h : x.toNat < length.toNat) : (x + 1).toNat ≤ length.toNat := by
  have hlt := length.isLt
  rwa [toNat_add_one (by omega)]

lemma integerLoop_inside (hg : Guards past length) (n i : ℕ) (value : BitVec 64)
    (h : aml.toNat + 1 + i ≤ length.toNat) :
    Inside d length (integerLoop past aml n i value) := by
  induction n generalizing i value with
  | zero => exact inside_pure _
  | succ n ih =>
    have hlt := length.isLt
    have hone : (aml + 1).toNat = aml.toNat + 1 := toNat_add_one (by omega)
    have hat : (aml + 1 + .ofNat 32 i).toNat = aml.toNat + 1 + i := by
      rw [toNat_add_ofNat (by omega), hone]
    exact inside_guarded hg (hat.trans_le h) fun hin => ih (i + 1) _ (by omega)

lemma amlReadInteger_inside (hg : Guards past length) (h : aml.toNat ≤ length.toNat) :
    Inside d length (amlReadInteger past aml) := by
  refine inside_guarded hg h fun hin => ?_
  split_ifs
  · exact inside_pure _
  · exact inside_pure _
  · exact inside_pure _
  · exact integerLoop_inside hg _ 0 0 hin
  · exact inside_pure _

lemma past_of_amlReadInteger {value : BitVec 64}
    (h : run d (amlReadInteger past aml) = some value) : past aml = false := by
  by_contra hpast
  rw [amlReadInteger, if_pos (Bool.not_eq_false _ ▸ hpast)] at h
  cases h

lemma pkgLengthLoop_inside (hg : Guards past length) (n i : ℕ) (result used : U32)
    (h : aml.toNat + used.toNat ≤ length.toNat) :
    Inside d length (pkgLengthLoop past aml n i result used) ∧
      ∀ value used', run d (pkgLengthLoop past aml n i result used) = some (value, used') →
        aml.toNat + used'.toNat ≤ length.toNat := by
  induction n generalizing i result used with
  | zero =>
    refine ⟨inside_pure _, fun value used' hrun => ?_⟩
    cases hrun
    exact h
  | succ n ih =>
    have hlt := length.isLt
    have hat : (aml + used).toNat = aml.toNat + used.toNat :=
      toNat_add_of_lt (by omega)
    have hnext : aml.toNat + used.toNat < length.toNat →
        aml.toNat + (used + 1).toNat ≤ length.toNat := by
      intro hin
      rw [toNat_add_one (by omega)]
      omega
    constructor
    · exact inside_guarded hg (hat.trans_le h) fun hin => (ih _ _ _ (hnext (hat ▸ hin))).1
    · intro value used' hrun
      cases hpast : past (aml + used) with
      | true =>
        rw [pkgLengthLoop, if_pos hpast] at hrun
        cases hrun
      | false =>
        rw [pkgLengthLoop, if_neg (Bool.eq_false_iff.mp hpast), run_bind, run_get] at hrun
        exact (ih _ _ _ (hnext (hat ▸ hg _ (hat.trans_le h) hpast))).2 value used' hrun

lemma amlReadPkgLength_inside (hg : Guards past length) (h : aml.toNat ≤ length.toNat) :
    Inside d length (amlReadPkgLength past aml) ∧
      ∀ value used, run d (amlReadPkgLength past aml) = some (value, used) →
        (aml + used).toNat ≤ length.toNat := by
  have hlt := length.isLt
  have hone : (1 : U32).toNat = 1 := rfl
  constructor
  · refine inside_guarded hg h fun hin => ?_
    split_ifs
    · exact inside_pure _
    · exact (pkgLengthLoop_inside hg _ 0 _ 1 (by omega)).1
  · intro value used hrun
    suffices aml.toNat + used.toNat ≤ length.toNat by
      rwa [toNat_add_of_lt (by omega)]
    cases hpast : past aml with
    | true =>
      rw [amlReadPkgLength, if_pos hpast] at hrun
      cases hrun
    | false =>
      have hin := hg aml h hpast
      rw [amlReadPkgLength, if_neg (Bool.eq_false_iff.mp hpast), run_bind, run_get] at hrun
      split_ifs at hrun
      · cases hrun
        omega
      · exact (pkgLengthLoop_inside hg _ 0 _ 1 (by omega)).2 value used hrun

/-- No byte before the `j`-th from `offset` on stops the search. -/
def Passes (d : U32 → U8) (offset : U32) (j : ℕ) : Prop :=
  ∀ i < j, stopByte (d (offset + .ofNat 32 i)) = false

lemma Passes.succ {j : ℕ} (h : Passes d offset j)
    (hj : stopByte (d (offset + .ofNat 32 j)) = false) : Passes d offset (j + 1) := by
  intro i hi
  obtain hlt | rfl := Nat.lt_succ_iff_lt_or_eq.mp hi
  · exact h i hlt
  · exact hj

lemma add_one_add_ofNat (x : U32) (j : ℕ) : x + 1 + .ofNat 32 j = x + .ofNat 32 (j + 1) := by
  rw [BitVec.add_assoc, BitVec.add_comm 1, ofNat_add]
  rfl

lemma passes_succ {j : ℕ} :
    Passes d offset (j + 1) ↔ stopByte (d offset) = false ∧ Passes d (offset + 1) j := by
  constructor
  · intro h
    refine ⟨by simpa using h 0 j.succ_pos, fun i hi => ?_⟩
    rw [add_one_add_ofNat]
    exact h (i + 1) (succ_lt_succ hi)
  · rintro ⟨hzero, hrest⟩ i hi
    cases i with
    | zero => simpa using hzero
    | succ i =>
      rw [← add_one_add_ofNat]
      exact hrest i (lt_of_succ_lt_succ hi)

/-- The first `n` bytes from `offset` on. -/
def ahead (offset : U32) (n : ℕ) : List U32 := (List.range n).map fun i => offset + .ofNat 32 i

lemma ahead_succ (offset : U32) (n : ℕ) :
    ahead offset (n + 1) = offset :: ahead (offset + 1) n := by
  rw [ahead, List.range_succ_eq_map, List.map_cons, List.map_map, BitVec.add_zero]
  exact congrArg _ (List.map_congr_left fun i _ => (add_one_add_ofNat offset i).symm)

lemma skipLoop_found {j : ℕ} (fuel : ℕ) (hpasses : Passes d offset j)
    (hstop : stopByte (d (offset + .ofNat 32 j)) = true) :
    run d (skipLoop (j + 1 + fuel) offset) = some (offset + .ofNat 32 j) ∧
      touched d (skipLoop (j + 1 + fuel) offset) = ahead offset (j + 1) := by
  induction j generalizing offset with
  | zero =>
    rw [BitVec.add_zero] at hstop ⊢
    rw [Nat.zero_add, Nat.add_comm, skipLoop, run_bind, touched_bind, run_get, touched_get,
      if_pos hstop, ahead_succ]
    exact ⟨rfl, rfl⟩
  | succ j ih =>
    obtain ⟨hzero, hrest⟩ := passes_succ.mp hpasses
    rw [← add_one_add_ofNat] at hstop ⊢
    obtain ⟨hrun, htouched⟩ := ih hrest hstop
    rw [Nat.add_right_comm, skipLoop, run_bind, touched_bind, run_get, touched_get,
      if_neg (Bool.eq_false_iff.mp hzero), ahead_succ, hrun, htouched]
    exact ⟨rfl, rfl⟩

lemma skipLoop_passes {fuel : ℕ} (hpasses : Passes d offset fuel) :
    run d (skipLoop fuel offset) = none ∧ touched d (skipLoop fuel offset) = ahead offset fuel := by
  induction fuel generalizing offset with
  | zero => exact ⟨rfl, rfl⟩
  | succ fuel ih =>
    obtain ⟨hzero, hrest⟩ := passes_succ.mp hpasses
    obtain ⟨hrun, htouched⟩ := ih hrest
    rw [skipLoop, run_bind, touched_bind, run_get, touched_get,
      if_neg (Bool.eq_false_iff.mp hzero), ahead_succ, hrun, htouched]
    exact ⟨rfl, rfl⟩

lemma passes_or_found (d : U32 → U8) (offset : U32) (fuel : ℕ) :
    Passes d offset fuel ∨
      ∃ j < fuel, Passes d offset j ∧ stopByte (d (offset + .ofNat 32 j)) = true := by
  induction fuel with
  | zero => exact .inl fun i hi => absurd hi i.not_lt_zero
  | succ fuel ih =>
    obtain hpasses | ⟨j, hj, hfound⟩ := ih
    · cases hstop : stopByte (d (offset + .ofNat 32 fuel)) with
      | true => exact .inr ⟨fuel, fuel.lt_succ_self, hpasses, hstop⟩
      | false => exact .inl (hpasses.succ hstop)
    · exact .inr ⟨j, hj.trans fuel.lt_succ_self, hfound⟩

lemma skipLoop_inside {j : ℕ} (hj : offset.toNat + j < length.toNat)
    (hstop : stopByte (d (offset + .ofNat 32 j)) = true) (fuel : ℕ) :
    Inside d length (skipLoop fuel offset) ∧
      ∀ m, run d (skipLoop fuel offset) = some m → m.toNat < length.toNat := by
  have hlt := length.isLt
  have hahead : ∀ n ≤ j + 1, ∀ x ∈ ahead offset n, x.toNat < length.toNat := by
    intro n hn x hx
    obtain ⟨i, hi, rfl⟩ := mem_map.mp hx
    have := mem_range.mp hi
    rw [toNat_add_ofNat (by omega)]
    omega
  have hle : ∀ n, Passes d offset n → n ≤ j := by
    intro n hn
    by_contra hlt
    rw [hn j (by omega)] at hstop
    cases hstop
  obtain hpasses | ⟨k, hk, hpasses, hfound⟩ := passes_or_found d offset fuel
  · obtain ⟨hrun, htouched⟩ := skipLoop_passes hpasses
    have := hle fuel hpasses
    refine ⟨?_, fun m hm => ?_⟩
    · rw [Inside, htouched]
      exact hahead fuel (by omega)
    · rw [hrun] at hm
      cases hm
  · obtain ⟨fuel, rfl⟩ := Nat.exists_eq_add_of_lt hk
    obtain ⟨hrun, htouched⟩ := skipLoop_found fuel hpasses hfound
    have := hle k hpasses
    rw [Nat.add_right_comm] at hrun htouched
    refine ⟨?_, fun m hm => ?_⟩
    · rw [Inside, htouched]
      exact hahead (k + 1) (by omega)
    · rw [hrun] at hm
      cases hm
      rw [toNat_add_ofNat (by omega)]
      omega

/-! ## The package -/

/-- The byte `0x60` behind the package's length, and no byte in the table that stops the search. -/
def Runaway (d : U32 → U8) (past : U32 → Bool) (length aml : U32) : Prop :=
  ∃ value used, run d (amlReadPkgLength past aml) = some (value, used) ∧
    past (aml + used) = false ∧ d (aml + used) = 0x60 ∧
    ∀ j, (aml + used).toNat + j < length.toNat →
      stopByte (d (aml + used + .ofNat 32 j)) = false

lemma stopByte_of_amlReadInteger {value : BitVec 64}
    (h : run d (amlReadInteger past aml) = some value) :
    d aml = 0x60 ∨ stopByte (d aml) = true := by
  have hpast := Bool.eq_false_iff.mp (past_of_amlReadInteger h)
  rw [amlReadInteger, if_neg hpast, run_bind, run_get] at h
  split_ifs at h with hzero hone hones hprefix
  · exact .inr (by rw [hzero]; rfl)
  · exact .inr (by rw [hone]; rfl)
  · exact .inl hones
  · refine .inr ?_
    generalize d aml = byte at hprefix
    revert byte
    decide
  · cases h

lemma readIntegers_inside (hg : Guards past length) {j : ℕ}
    (hj : offset.toNat + j < length.toNat)
    (hstop : stopByte (d (offset + .ofNat 32 j)) = true) (fuel : ℕ) :
    Inside d length (readIntegers past fuel offset) := by
  obtain ⟨hskip, hfound⟩ := skipLoop_inside hj hstop fuel
  refine inside_bind.mpr ⟨hskip, ?_⟩
  cases hm : run d (skipLoop fuel offset) with
  | none => exact inside_pure _
  | some m =>
    have hin := hfound m hm
    refine inside_bind.mpr ⟨amlReadInteger_inside hg hin.le, ?_⟩
    cases run d (amlReadInteger past m) with
    | none => exact inside_pure _
    | some a =>
      refine inside_bind.mpr ⟨amlReadInteger_inside hg (toNat_add_one_le hin), ?_⟩
      cases run d (amlReadInteger past (m + 1)) with
      | none => exact inside_pure _
      | some b => exact inside_pure _

lemma run_readIntegers_found {j : ℕ} (fuel : ℕ) (hpasses : Passes d offset j)
    (hstop : stopByte (d (offset + .ofNat 32 j)) = true) :
    run d (readIntegers past (j + 1 + fuel) offset) = some (
      (run d (amlReadInteger past (offset + .ofNat 32 j))).bind fun a =>
        (run d (amlReadInteger past (offset + .ofNat 32 j + 1))).map fun b =>
          ((a &&& 7).setWidth 16, (b &&& 7).setWidth 16)) := by
  rw [readIntegers, run_bind, (skipLoop_found fuel hpasses hstop).1]
  dsimp only
  rw [run_bind]
  cases run d (amlReadInteger past (offset + .ofNat 32 j)) with
  | none => rfl
  | some a =>
    dsimp only
    rw [run_bind]
    cases run d (amlReadInteger past (offset + .ofNat 32 j + 1)) with
    | none => rfl
    | some b => rfl

lemma run_readIntegers_passes {fuel : ℕ} (hpasses : Passes d offset fuel) :
    run d (readIntegers past fuel offset) = none := by
  rw [readIntegers, run_bind, (skipLoop_passes hpasses).1]
  rfl

lemma readPackage_inside (hg : Guards past length) (h : aml.toNat ≤ length.toNat)
    (hrunaway : ¬Runaway d past length aml) :
    (∀ fuel, Inside d length (readPackage past fuel aml)) ∧
      ∃ fuel r, run d (readPackage past fuel aml) = some r := by
  obtain ⟨hpkg, hused⟩ := amlReadPkgLength_inside hg h
  simp only [readPackage, inside_bind, run_bind]
  cases hlen : run d (amlReadPkgLength past aml) with
  | none => exact ⟨fun _ => ⟨hpkg, inside_pure _⟩, 0, none, rfl⟩
  | some pair =>
    obtain ⟨value, used⟩ := pair
    have hle := hused value used hlen
    have hfirst : Inside d length (amlReadInteger past (aml + used)) :=
      amlReadInteger_inside hg hle
    simp only [inside_bind, run_bind]
    cases hint : run d (amlReadInteger past (aml + used)) with
    | none => exact ⟨fun _ => ⟨hpkg, hfirst, inside_pure _⟩, 0, none, rfl⟩
    | some v =>
      have hpast := past_of_amlReadInteger hint
      -- there is a byte to stop at, at `aml + used` or behind it
      obtain ⟨j, hj, hstop⟩ : ∃ j, (aml + used).toNat + j < length.toNat ∧
          stopByte (d (aml + used + .ofNat 32 j)) = true := by
        obtain hones | hstop := stopByte_of_amlReadInteger hint
        · by_contra hnone
          refine hrunaway ⟨value, used, hlen, hpast, hones, fun j hj => ?_⟩
          exact Bool.eq_false_iff.mpr fun hstop => hnone ⟨j, hj, hstop⟩
        · exact ⟨0, hg _ hle hpast, by rwa [BitVec.add_zero]⟩
      refine ⟨fun fuel => ⟨hpkg, hfirst, readIntegers_inside hg hj hstop fuel⟩, ?_⟩
      obtain hpasses | ⟨k, -, hpasses, hfound⟩ := passes_or_found d (aml + used) (j + 1)
      · rw [hpasses j j.lt_succ_self] at hstop
        cases hstop
      · exact ⟨k + 1 + 0, _, run_readIntegers_found 0 hpasses hfound⟩

lemma mem_touched_skipLoop {j : ℕ} (hpasses : Passes d offset j) :
    offset + .ofNat 32 j ∈ touched d (skipLoop (j + 1) offset) := by
  have hmem : offset + .ofNat 32 j ∈ ahead offset (j + 1) :=
    mem_map.mpr ⟨j, mem_range.mpr j.lt_succ_self, rfl⟩
  cases hstop : stopByte (d (offset + .ofNat 32 j)) with
  | true => rwa [(skipLoop_found 0 hpasses hstop).2]
  | false => rwa [(skipLoop_passes (hpasses.succ hstop)).2]

lemma readPackage_outside (hg : Guards past length) (h : aml.toNat ≤ length.toNat)
    (hrunaway : Runaway d past length aml) :
    ∃ fuel, length ∈ touched d (readPackage past fuel aml) := by
  obtain ⟨value, used, hlen, hpast, hones, hpasses⟩ := hrunaway
  have hlt := length.isLt
  have hle := (amlReadPkgLength_inside hg h).2 value used hlen
  have hint : run d (amlReadInteger past (aml + used)) = some 0xFFFFFFFF := by
    rw [amlReadInteger, if_neg (Bool.eq_false_iff.mp hpast), run_bind, run_get, hones]
    rfl
  have hend : aml + used + .ofNat 32 (length.toNat - (aml + used).toNat) = length := by
    refine eq_of_toNat_eq ?_
    rw [toNat_add_ofNat (by omega)]
    omega
  have hsearch : Passes d (aml + used) (length.toNat - (aml + used).toNat) :=
    fun i hi => hpasses i (by omega)
  have hmem := mem_touched_skipLoop hsearch
  rw [hend] at hmem
  refine ⟨length.toNat - (aml + used).toNat + 1, ?_⟩
  rw [readPackage, touched_bind, hlen]
  refine mem_append_right _ ?_
  dsimp only
  rw [touched_bind, hint]
  refine mem_append_right _ ?_
  dsimp only
  rw [readIntegers, touched_bind]
  exact mem_append_left _ hmem

/-! ## The scan -/

variable {name : U8 × U8 × U8}

/-- The name stands at `offset`. -/
def Named (d : U32 → U8) (name : U8 × U8 × U8) (offset : U32) : Prop :=
  ∀ p ∈ nameAt name offset, d p.1 = p.2

instance (d : U32 → U8) (name : U8 × U8 × U8) (offset : U32) : Decidable (Named d name offset) :=
  List.decidableBAll _ _

/-- With a package behind it. -/
def PackageAt (d : U32 → U8) (past : U32 → Bool) (name : U8 × U8 × U8) (offset : U32) : Prop :=
  Named d name offset ∧ past (offset + 5) = false ∧ d (offset + 5) = 0x12

/-- Where the scan goes on, if there is no package. -/
def nextOffset (d : U32 → U8) (name : U8 × U8 × U8) (offset : U32) : U32 :=
  if Named d name offset then offset + 5 + 1 else offset + 1

/-- The offsets the scan comes to. -/
inductive Reached (d : U32 → U8) (past : U32 → Bool) (name : U8 × U8 × U8) : U32 → Prop
  | start : Reached d past name 36
  | next {offset : U32} (h : Reached d past name offset) (hlt : offset + 5 < run d sdtLength)
      (hpackage : ¬PackageAt d past name offset) :
      Reached d past name (nextOffset d name offset)

lemma run_compareBytes {l : List (U32 × U8)} :
    run d (compareBytes l) = true ↔ ∀ p ∈ l, d p.1 = p.2 := by
  induction l with
  | nil => simp [compareBytes]
  | cons p l ih =>
    rw [compareBytes, run_bind, run_get, forall_mem_cons]
    split_ifs with h
    · rw [ih, and_iff_right h]
    · simp [h]

lemma touched_compareBytes {l : List (U32 × U8)} {x : U32} (h : x ∈ touched d (compareBytes l)) :
    x ∈ l.map Prod.fst := by
  induction l with
  | nil => cases h
  | cons p l ih =>
    rw [compareBytes, touched_bind, touched_get, run_get] at h
    obtain h | h := mem_append.mp h
    · rw [mem_singleton.mp h]
      exact mem_cons_self
    · split_ifs at h
      · exact mem_cons_of_mem _ (ih h)
      · cases h

lemma touched_compareBytes_of_eq {l : List (U32 × U8)} (h : ∀ p ∈ l, d p.1 = p.2) :
    touched d (compareBytes l) = l.map Prod.fst := by
  induction l with
  | nil => rfl
  | cons p l ih =>
    rw [forall_mem_cons] at h
    rw [compareBytes, touched_bind, touched_get, run_get, if_pos h.1, ih h.2]
    rfl

lemma scanLoop_next (fuel : ℕ) (hlt : offset + 5 < run d sdtLength)
    (hpackage : ¬PackageAt d past name offset) :
    run d (scanLoop past name (fuel + 1) offset) =
        run d (scanLoop past name fuel (nextOffset d name offset)) ∧
      (Inside d (run d sdtLength) (scanLoop past name (fuel + 1) offset) ↔
        Inside d (run d sdtLength) sdtLength ∧
        Inside d (run d sdtLength) (compareBytes (nameAt name offset)) ∧
        (Named d name offset → past (offset + 5) = false →
          (offset + 5).toNat < (run d sdtLength).toNat) ∧
        Inside d (run d sdtLength) (scanLoop past name fuel (nextOffset d name offset))) := by
  simp only [scanLoop, run_bind, inside_bind, if_pos hlt, run_compareBytes]
  by_cases hname : Named d name offset
  · have hif : ∀ p ∈ nameAt name offset, d p.1 = p.2 := hname
    rw [if_pos hif, nextOffset, if_pos hname]
    cases hpast : past (offset + 5) with
    | true => simp
    | false =>
      have hop : d (offset + 5) ≠ 0x12 := fun h => hpackage ⟨hname, hpast, h⟩
      simp only [hname, hop, run_bind, run_get, inside_bind, inside_get, if_false, true_implies,
        Bool.false_eq_true, and_self]
  · have hif : ¬∀ p ∈ nameAt name offset, d p.1 = p.2 := hname
    rw [if_neg hif, nextOffset, if_neg hname]
    simp [hname]

lemma scanLoop_package (fuel : ℕ) (hlt : offset + 5 < run d sdtLength)
    (hpackage : PackageAt d past name offset) :
    run d (scanLoop past name (fuel + 1) offset) =
        run d (readPackage past fuel (offset + 5 + 1)) ∧
      (Inside d (run d sdtLength) (scanLoop past name (fuel + 1) offset) ↔
        Inside d (run d sdtLength) sdtLength ∧
        Inside d (run d sdtLength) (compareBytes (nameAt name offset)) ∧
        (offset + 5).toNat < (run d sdtLength).toNat ∧
        Inside d (run d sdtLength) (readPackage past fuel (offset + 5 + 1))) := by
  obtain ⟨hname, hpast, hop⟩ := hpackage
  have hif : ∀ p ∈ nameAt name offset, d p.1 = p.2 := hname
  simp only [scanLoop, run_bind, inside_bind, if_pos hlt, run_compareBytes]
  rw [if_pos hif, hpast]
  simp only [hop, run_bind, run_get, inside_bind, inside_get, if_false, if_true,
    Bool.false_eq_true, and_self]

lemma scanLoop_end (fuel : ℕ) (hlt : ¬offset + 5 < run d sdtLength) :
    run d (scanLoop past name (fuel + 1) offset) = some none ∧
      (Inside d (run d sdtLength) (scanLoop past name (fuel + 1) offset) ↔
        Inside d (run d sdtLength) sdtLength) := by
  simp only [scanLoop, run_bind, inside_bind, if_neg hlt]
  exact ⟨rfl, and_iff_left (inside_pure _)⟩

lemma inside_sdtLength : Inside d length sdtLength ↔ 8 ≤ length.toNat := by
  rw [sdtLength, inside_bind, and_iff_left (inside_pure _), Inside, touched_getAll]
  constructor
  · intro h
    exact h 7 (by decide)
  · intro h x hx
    have hlt : ∀ y ∈ ([4, 5, 6, 7] : List U32), y.toNat < 8 := by simp
    exact (hlt x hx).trans_le h

lemma inside_compareBytes (h : offset.toNat + 4 < length.toNat) :
    Inside d length (compareBytes (nameAt name offset)) := by
  intro x hx
  have hlt := length.isLt
  have hmem : x ∈ ahead offset 5 := by
    simpa [ahead, nameAt, range_succ] using touched_compareBytes hx
  obtain ⟨i, hi, rfl⟩ := mem_map.mp hmem
  have := mem_range.mp hi
  rw [toNat_add_ofNat (by omega)]
  omega

/-- Every search the scan comes to ends in the table, and no name lies so high that the offset
behind it overflows. -/
def Harmless (d : U32 → U8) (past : U32 → Bool) (name : U8 × U8 × U8) : Prop :=
  ∀ offset, Reached d past name offset → offset + 5 < run d sdtLength →
    (PackageAt d past name offset → ¬Runaway d past (run d sdtLength) (offset + 5 + 1)) ∧
    (Named d name offset → ¬PackageAt d past name offset → offset.toNat + 11 < 2 ^ 32)

lemma toNat_add_five {x : U32} (h : x.toNat + 5 < 2 ^ 32) : (x + 5).toNat = x.toNat + 5 :=
  toNat_add_ofNat h

lemma nextOffset_spec (hharmless : Harmless d past name) (hreached : Reached d past name offset)
    (hfive : offset.toNat + 5 < 2 ^ 32) (hlt : offset + 5 < run d sdtLength)
    (hpackage : ¬PackageAt d past name offset) :
    offset.toNat < (nextOffset d name offset).toNat ∧
      (nextOffset d name offset).toNat + 5 < 2 ^ 32 := by
  have hend := (run d sdtLength).isLt
  have hguard : offset.toNat + 5 < (run d sdtLength).toNat := by
    rw [← toNat_add_five hfive]
    exact hlt
  rw [nextOffset]
  split_ifs with hname
  · have hhigh := (hharmless offset hreached hlt).2 hname hpackage
    have hnat := toNat_add_five hfive
    rw [toNat_add_one (by omega)]
    omega
  · rw [toNat_add_one (by omega)]
    omega

lemma scanLoop_inside (hg : Guards past (run d sdtLength)) (height : 8 ≤ (run d sdtLength).toNat)
    (hharmless : Harmless d past name) (fuel : ℕ) (hreached : Reached d past name offset)
    (hfive : offset.toNat + 5 < 2 ^ 32) :
    Inside d (run d sdtLength) (scanLoop past name fuel offset) := by
  induction fuel generalizing offset with
  | zero => exact inside_pure _
  | succ fuel ih =>
    have hlength : Inside d (run d sdtLength) sdtLength := inside_sdtLength.mpr height
    have hnat := toNat_add_five hfive
    by_cases hlt : offset + 5 < run d sdtLength
    · have hguard : (offset + 5).toNat < (run d sdtLength).toNat := hlt
      have hcompare : Inside d (run d sdtLength) (compareBytes (nameAt name offset)) :=
        inside_compareBytes (by omega)
      by_cases hpackage : PackageAt d past name offset
      · have hle := toNat_add_one_le hguard
        refine (scanLoop_package fuel hlt hpackage).2.mpr ⟨hlength, hcompare, hguard, ?_⟩
        exact (readPackage_inside hg hle ((hharmless offset hreached hlt).1 hpackage)).1 fuel
      · refine (scanLoop_next fuel hlt hpackage).2.mpr ⟨hlength, hcompare, fun _ _ => hguard, ?_⟩
        exact ih (.next hreached hlt hpackage)
          (nextOffset_spec hharmless hreached hfive hlt hpackage).2
    · exact (scanLoop_end fuel hlt).2.mpr hlength

lemma scanLoop_ends (hg : Guards past (run d sdtLength)) (hharmless : Harmless d past name)
    (hreached : Reached d past name offset) (hfive : offset.toNat + 5 < 2 ^ 32) :
    ∃ fuel r, run d (scanLoop past name fuel offset) = some r := by
  -- the distance to the end of the table gets smaller
  induction hn : (run d sdtLength).toNat - offset.toNat using Nat.strong_induction_on
    generalizing offset with
  | _ n ih =>
    by_cases hlt : offset + 5 < run d sdtLength
    · have hnat := toNat_add_five hfive
      have hguard : (offset + 5).toNat < (run d sdtLength).toNat := hlt
      by_cases hpackage : PackageAt d past name offset
      · have hle := toNat_add_one_le hguard
        obtain ⟨fuel, r, hrun⟩ :=
          (readPackage_inside hg hle ((hharmless offset hreached hlt).1 hpackage)).2
        exact ⟨fuel + 1, r, (scanLoop_package fuel hlt hpackage).1.trans hrun⟩
      · obtain ⟨hup, hfive'⟩ := nextOffset_spec hharmless hreached hfive hlt hpackage
        obtain ⟨fuel, r, hrun⟩ := ih _ (by omega) (.next hreached hlt hpackage) hfive' rfl
        exact ⟨fuel + 1, r, (scanLoop_next fuel hlt hpackage).1.trans hrun⟩
    · exact ⟨1, none, (scanLoop_end 0 hlt).1⟩

/-! ## Runs that leave the table -/

lemma Reached.inside (h : ∀ fuel, Inside d (run d sdtLength) (scanLoop past name fuel 36))
    (hreached : Reached d past name offset) (fuel : ℕ) :
    Inside d (run d sdtLength) (scanLoop past name fuel offset) := by
  induction hreached generalizing fuel with
  | start => exact h fuel
  | next _ hlt hpackage ih => exact ((scanLoop_next fuel hlt hpackage).2.mp (ih (fuel + 1))).2.2.2

lemma Named.inside (hname : Named d name offset)
    (h : Inside d length (compareBytes (nameAt name offset))) {i : ℕ} (hi : i < 5) :
    (offset + .ofNat 32 i).toNat < length.toNat := by
  refine h _ ?_
  rw [touched_compareBytes_of_eq hname]
  have hmem : offset + .ofNat 32 i ∈ ahead offset 5 :=
    mem_map.mpr ⟨i, mem_range.mpr hi, rfl⟩
  simpa [ahead, nameAt, range_succ] using hmem

lemma mem_touched_compareBytes : offset ∈ touched d (compareBytes (nameAt name offset)) := by
  rw [nameAt, compareBytes, touched_bind, touched_get]
  exact mem_append_left _ (mem_singleton_self _)

lemma not_inside_high (height : 8 ≤ (run d sdtLength).toNat) (hhigh : 2 ^ 32 ≤ offset.toNat + 5) :
    ¬∀ fuel, Inside d (run d sdtLength) (scanLoop past name fuel offset) := by
  intro h
  have hend := (run d sdtLength).isLt
  have hoffset := offset.isLt
  induction hn : 2 ^ 32 - offset.toNat using Nat.strong_induction_on generalizing offset with
  | _ n ih =>
    have hlt : offset + 5 < run d sdtLength := by
      change (offset + 5).toNat < _
      rw [toNat_add, show (5 : U32).toNat = 5 from rfl]
      omega
    -- of the bytes of a name one would be the last of the address space
    have hname : Inside d (run d sdtLength) (compareBytes (nameAt name offset)) →
        ¬Named d name offset := by
      intro hin hname
      have := hname.inside hin (i := 2 ^ 32 - 1 - offset.toNat) (by omega)
      rw [toNat_add_ofNat (by omega)] at this
      omega
    by_cases hpackage : PackageAt d past name offset
    · exact hname ((scanLoop_package 0 hlt hpackage).2.mp (h 1)).2.1 hpackage.1
    · have hin := fun fuel => (scanLoop_next fuel hlt hpackage).2.mp (h (fuel + 1))
      have hbefore := (hin 0).2.1 offset mem_touched_compareBytes
      have hnext : nextOffset d name offset = offset + 1 := if_neg (hname (hin 0).2.1)
      have hone : (offset + 1).toNat = offset.toNat + 1 := toNat_add_one (by omega)
      refine ih (2 ^ 32 - (offset + 1).toNat) (by omega) (by omega) (fun fuel => ?_)
        (by omega) rfl
      rw [← hnext]
      exact (hin fuel).2.2.2

lemma harmless_of_inside (height : 8 ≤ (run d sdtLength).toNat)
    (hg : Guards past (run d sdtLength))
    (h : ∀ fuel, Inside d (run d sdtLength) (scanLoop past name fuel 36)) :
    Harmless d past name := by
  intro offset hreached hlt
  have hend := (run d sdtLength).isLt
  have hin := fun fuel => hreached.inside h fuel
  constructor
  · intro hpackage hrunaway
    have hpkg := fun fuel => (scanLoop_package fuel hlt hpackage).2.mp (hin (fuel + 1))
    have hle := toNat_add_one_le (hpkg 0).2.2.1
    obtain ⟨fuel, hmem⟩ := readPackage_outside hg hle hrunaway
    exact absurd ((hpkg fuel).2.2.2 _ hmem) (lt_irrefl _)
  · intro hname hpackage
    have hnext := fun fuel => (scanLoop_next fuel hlt hpackage).2.mp (hin (fuel + 1))
    by_contra hhigh
    by_cases hfive : offset.toNat + 5 < 2 ^ 32
    · have hguard : (offset + 5).toNat < (run d sdtLength).toNat := hlt
      have hnat := toNat_add_five hfive
      refine not_inside_high height ?_ fun fuel => (hnext fuel).2.2.2
      rw [nextOffset, if_pos hname, toNat_add_one (by omega)]
      omega
    · exact not_inside_high height (by omega) hin

/-- **Leaving the table.**  The call ends and stays in the table exactly if the table has a length
field, and what the scan comes to is harmless. -/
theorem sleep_type_confined_iff (d : U32 → U8) (table : U32) (name : U8 × U8 × U8) :
    ((∃ fuel r, run d (amlExtractSleepType table name fuel) = some r) ∧
      ∀ fuel, Inside d (run d sdtLength) (amlExtractSleepType table name fuel)) ↔
    8 ≤ (run d sdtLength).toNat ∧ Harmless d (pastEnd table (run d sdtLength)) name := by
  have hg := guards_pastEnd table (run d sdtLength)
  simp only [amlExtractSleepType, run_bind, inside_bind]
  constructor
  · rintro ⟨-, hin⟩
    have height := inside_sdtLength.mp (hin 0).1
    exact ⟨height, harmless_of_inside height hg fun fuel => (hin fuel).2⟩
  · rintro ⟨height, hharmless⟩
    refine ⟨scanLoop_ends hg hharmless .start (by decide), fun fuel => ?_⟩
    exact ⟨inside_sdtLength.mpr height,
      scanLoop_inside hg height hharmless fuel .start (by decide)⟩

/-! ## What is read of a package -/

/-- An integer of a package, with the bytes of its value. -/
inductive Element where
  | zero
  | one
  | byte (a : U8)
  | word (a b : U8)
  | dword (a b c d : U8)

/-- The encoding of an element. -/
def Element.bytes : Element → List U8
  | zero => [0x00]
  | one => [0x01]
  | byte a => [0x0A, a]
  | word a b => [0x0B, a, b]
  | dword a b c d => [0x0C, a, b, c, d]

/-- The integer of an element. -/
def Element.value : Element → ℕ
  | zero => 0
  | one => 1
  | byte a => a.toNat
  | word a b => a.toNat + 256 * b.toNat
  | dword a b c d => a.toNat + 256 * (b.toNat + 256 * (c.toNat + 256 * d.toNat))

/-- In the long encodings the two highest bits of the first byte say how many bytes follow, and the
next two are 0. -/
inductive PkgLength : List U8 → ℕ → Prop
  | short (lead : U8) (h : lead.toNat < 64) : PkgLength [lead] lead.toNat
  | long (lead : U8) (bytes : List U8) (nibble : ℕ) (hpos : 0 < bytes.length)
      (hlead : lead.toNat = 64 * bytes.length + nibble) (hnibble : nibble < 16) :
      PkgLength (lead :: bytes) (nibble + 16 * ofDigits 256 (bytes.map BitVec.toNat))

/-- A package with the first two elements `e₁` and `e₂` stands behind the name at `offset`. -/
def Package (d : U32 → U8) (length offset : U32) (e₁ e₂ : Element) : Prop :=
  ∃ pkg count rest,
    let body := pkg ++ count :: (e₁.bytes ++ e₂.bytes ++ rest)
    PkgLength pkg body.length ∧ 2 ≤ count.toNat ∧ offset.toNat + 6 + body.length ≤ length.toNat ∧
      Holds (fun i => d (offset + .ofNat 32 i)) 5 (0x12 :: body)

/-- The integers that are read: the first at the byte behind the first of the length, or, if that is
`0x60`, at the next byte of an integer; the second at the byte behind. -/
def ReadsAs (d : U32 → U8) (past : U32 → Bool) (offset : U32) (e₁ e₂ : Element) : Prop :=
  ∃ j a b, Passes d offset j ∧ stopByte (d (offset + .ofNat 32 j)) = true ∧
    (j = 0 ∨ d offset = 0x60) ∧
    run d (amlReadInteger past (offset + .ofNat 32 j)) = some a ∧
    run d (amlReadInteger past (offset + .ofNat 32 j + 1)) = some b ∧
    a.toNat % 8 = e₁.value % 8 ∧ b.toNat % 8 = e₂.value % 8

lemma PkgLength.lead {pkg : List U8} {n : ℕ} (h : PkgLength pkg n) :
    ∃ lead bytes, pkg = lead :: bytes ∧ (lead &&& 0xC0 = 0 ∨ (lead >>> 4) &&& 3 = 0) := by
  cases h with
  | short lead h =>
    refine ⟨lead, [], rfl, .inl ?_⟩
    revert lead
    decide
  | long lead bytes nibble hpos hlead hnibble =>
    refine ⟨lead, bytes, rfl, .inr (eq_of_toNat_eq ?_)⟩
    rw [toNat_and, toNat_ushiftRight, show (3 : U8).toNat = 2 ^ 2 - 1 from rfl,
      and_two_pow_sub_one_eq_mod, shiftRight_eq_div_pow]
    change _ = 0
    omega

lemma run_amlReadPkgLength (hpast : past aml = false)
    (hlead : d aml &&& 0xC0 = 0 ∨ (d aml >>> 4) &&& 3 = 0) :
    ∃ value, run d (amlReadPkgLength past aml) = some (value, 1) := by
  rw [amlReadPkgLength, if_neg (Bool.eq_false_iff.mp hpast), run_bind, run_get]
  split_ifs with hshort
  · exact ⟨_, rfl⟩
  · rw [hlead.resolve_left hshort]
    exact ⟨_, rfl⟩

lemma low_three_bits (a b : BitVec 64) (x y : ℕ) :
    (((a &&& 7).setWidth 16, (b &&& 7).setWidth 16) : BitVec 16 × BitVec 16) =
      (.ofNat 16 (x % 8), .ofNat 16 (y % 8)) ↔ a.toNat % 8 = x % 8 ∧ b.toNat % 8 = y % 8 := by
  have hlow : ∀ (c : BitVec 64) (z : ℕ),
      (c &&& 7).setWidth 16 = BitVec.ofNat 16 (z % 8) ↔ c.toNat % 8 = z % 8 := by
    intro c z
    rw [← toNat_inj, toNat_setWidth, toNat_and, toNat_ofNat,
      show (7 : BitVec 64).toNat = 2 ^ 3 - 1 from rfl, and_two_pow_sub_one_eq_mod]
    omega
  rw [Prod.mk.injEq, hlow, hlow]

lemma readIntegers_iff {e₁ e₂ : Element} :
    (∃ fuel, run d (readIntegers past fuel offset) =
        some (some (.ofNat 16 (e₁.value % 8), .ofNat 16 (e₂.value % 8)))) ↔
      ∃ j a b, Passes d offset j ∧ stopByte (d (offset + .ofNat 32 j)) = true ∧
        run d (amlReadInteger past (offset + .ofNat 32 j)) = some a ∧
        run d (amlReadInteger past (offset + .ofNat 32 j + 1)) = some b ∧
        a.toNat % 8 = e₁.value % 8 ∧ b.toNat % 8 = e₂.value % 8 := by
  constructor
  · rintro ⟨fuel, h⟩
    obtain hpasses | ⟨j, hj, hpasses, hstop⟩ := passes_or_found d offset fuel
    · rw [run_readIntegers_passes hpasses] at h
      cases h
    · obtain ⟨fuel, rfl⟩ := Nat.exists_eq_add_of_lt hj
      rw [Nat.add_right_comm, run_readIntegers_found fuel hpasses hstop, some.injEq,
        bind_eq_some_iff] at h
      obtain ⟨a, ha, h⟩ := h
      obtain ⟨b, hb, h⟩ := map_eq_some_iff.mp h
      exact ⟨j, a, b, hpasses, hstop, ha, hb, (low_three_bits a b _ _).mp h⟩
  · rintro ⟨j, a, b, hpasses, hstop, ha, hb, hvalues⟩
    refine ⟨j + 1 + 0, ?_⟩
    rw [run_readIntegers_found 0 hpasses hstop, ha, hb, bind_some, map_some,
      (low_three_bits a b _ _).mpr hvalues]

lemma run_readPackage {value used : U32} (fuel : ℕ)
    (hpkg : run d (amlReadPkgLength past aml) = some (value, used)) :
    run d (readPackage past fuel aml) =
      if (run d (amlReadInteger past (aml + used))).isSome then
        run d (readIntegers past fuel (aml + used)) else some none := by
  rw [readPackage, run_bind, hpkg]
  dsimp only
  rw [run_bind]
  cases run d (amlReadInteger past (aml + used)) <;> rfl

lemma readPackage_iff {e₁ e₂ : Element} (hlen : past aml = false) (hpast : past (aml + 1) = false)
    (hlead : d aml &&& 0xC0 = 0 ∨ (d aml >>> 4) &&& 3 = 0) :
    (∃ fuel, run d (readPackage past fuel aml) =
        some (some (.ofNat 16 (e₁.value % 8), .ofNat 16 (e₂.value % 8)))) ↔
      ReadsAs d past (aml + 1) e₁ e₂ := by
  obtain ⟨value, hpkg⟩ := run_amlReadPkgLength hlen hlead
  simp only [run_readPackage _ hpkg]
  constructor
  · rintro ⟨fuel, h⟩
    cases hint : run d (amlReadInteger past (aml + 1)) with
    | none =>
      rw [hint] at h
      simp at h
    | some v =>
      rw [hint, isSome_some, if_pos rfl] at h
      obtain ⟨j, a, b, hpasses, hstop, hrest⟩ := readIntegers_iff.mp ⟨fuel, h⟩
      refine ⟨j, a, b, hpasses, hstop, ?_, hrest⟩
      obtain hones | hzero := stopByte_of_amlReadInteger hint
      · exact .inr hones
      · refine .inl (Nat.eq_zero_of_not_pos fun hpos => ?_)
        have := hpasses 0 hpos
        rw [BitVec.add_zero, hzero] at this
        cases this
  · rintro ⟨j, a, b, hpasses, hstop, hfirst, ha, hrest⟩
    have hint : (run d (amlReadInteger past (aml + 1))).isSome = true := by
      obtain rfl | hones := hfirst
      · rw [BitVec.add_zero] at ha
        rw [ha]
        rfl
      · rw [amlReadInteger, if_neg (Bool.eq_false_iff.mp hpast), run_bind, run_get, hones]
        rfl
    obtain ⟨fuel, h⟩ := readIntegers_iff.mpr ⟨j, a, b, hpasses, hstop, ha, hrest⟩
    exact ⟨fuel, (if_pos hint).trans h⟩

lemma Reached.run_iff {r : Option (BitVec 16 × BitVec 16)}
    (hreached : Reached d past name offset) :
    (∃ fuel, run d (scanLoop past name fuel 36) = some r) ↔
      ∃ fuel, run d (scanLoop past name fuel offset) = some r := by
  induction hreached with
  | start => exact Iff.rfl
  | next _ hlt hpackage ih =>
    rw [ih]
    constructor
    · rintro ⟨_ | fuel, h⟩
      · cases h
      · exact ⟨fuel, (scanLoop_next fuel hlt hpackage).1.symm.trans h⟩
    · rintro ⟨fuel, h⟩
      exact ⟨fuel + 1, (scanLoop_next fuel hlt hpackage).1.trans h⟩

lemma reached_first {o : U32} (hstart : 36 ≤ o.toNat)
    (hfirst : ∀ o' : U32, 36 ≤ o'.toNat → o'.toNat < o.toNat → ¬Named d name o')
    (hlt : o.toNat + 5 < (run d sdtLength).toNat) : Reached d past name o := by
  have hend := (run d sdtLength).isLt
  have hall : ∀ k, 36 + k ≤ o.toNat → Reached d past name (.ofNat 32 (36 + k)) := by
    intro k
    induction k with
    | zero => exact fun _ => .start
    | succ k ih =>
      intro hk
      have hnat : (BitVec.ofNat 32 (36 + k)).toNat = 36 + k := by
        rw [toNat_ofNat, mod_eq_of_lt (by omega)]
      have hname := hfirst (.ofNat 32 (36 + k)) (by omega) (by omega)
      have hguard : BitVec.ofNat 32 (36 + k) + 5 < run d sdtLength := by
        change (BitVec.ofNat 32 (36 + k) + 5).toNat < _
        rw [toNat_add_five (by omega)]
        omega
      have hnext := Reached.next (ih (by omega)) hguard fun h => hname h.1
      rw [nextOffset, if_neg hname] at hnext
      rwa [← Nat.add_assoc, ofNat_add]
  have := hall (o.toNat - 36) (by omega)
  rwa [Nat.add_sub_cancel' hstart, ofNat_toNat, setWidth_eq] at this

lemma pastEnd_of_lt {table at_ : U32} (hfits : table.toNat + length.toNat < 2 ^ 32)
    (h : at_.toNat < length.toNat) : pastEnd table length at_ = false := by
  rw [pastEnd, decide_eq_false_iff_not, BitVec.not_le, BitVec.lt_def,
    toNat_add_of_lt (by omega), toNat_add_of_lt hfits]
  omega

lemma Package.head {e₁ e₂ : Element} (h : Package d length offset e₁ e₂) :
    offset.toNat + 7 < length.toNat ∧ d (offset + 5) = 0x12 ∧
      (d (offset + 5 + 1) &&& 0xC0 = 0 ∨ (d (offset + 5 + 1) >>> 4) &&& 3 = 0) := by
  obtain ⟨pkg, count, rest, hpkg, -, hin, hholds⟩ := h
  obtain ⟨lead, bytes, rfl, hlead⟩ := hpkg.lead
  rw [cons_append, holds_cons, holds_cons] at hholds
  obtain ⟨hop, hfirst, -⟩ := hholds
  have hone : 0 < e₁.bytes.length := by cases e₁ <;> exact succ_pos _
  refine ⟨?_, hop, ?_⟩
  · simp only [length_append, length_cons] at hin
    omega
  · rw [show offset + 5 + 1 = offset + .ofNat 32 (5 + 1) by rw [BitVec.add_assoc]; rfl, hfirst]
    exact hlead

/-- **The two integers.**  The call gives the low three bits of the first two elements exactly if
the bytes from the second byte behind the opcode on read as two integers with these bits. -/
theorem sleep_type_iff {d : U32 → U8} {table o : U32} {name : U8 × U8 × U8} {e₁ e₂ : Element}
    (hfits : table.toNat + (run d sdtLength).toNat < 2 ^ 32) (hstart : 36 ≤ o.toNat)
    (hname : Named d name o)
    (hfirst : ∀ o' : U32, 36 ≤ o'.toNat → o'.toNat < o.toNat → ¬Named d name o')
    (hpackage : Package d (run d sdtLength) o e₁ e₂) :
    (∃ fuel, run d (amlExtractSleepType table name fuel) =
        some (some (.ofNat 16 (e₁.value % 8), .ofNat 16 (e₂.value % 8)))) ↔
      ReadsAs d (pastEnd table (run d sdtLength)) (o + 7) e₁ e₂ := by
  obtain ⟨hin, hop, hlead⟩ := hpackage.head
  have hend := (run d sdtLength).isLt
  have hfive : (o + 5).toNat = o.toNat + 5 := toNat_add_five (by omega)
  have hsix : (o + 5 + 1).toNat = o.toNat + 6 := by
    rw [toNat_add_one (by omega), hfive]
  have hseven : (o + 5 + 1 + 1).toNat = o.toNat + 7 := by
    rw [toNat_add_one (by omega), hsix]
  have hpast : ∀ at_ : U32, at_.toNat < (run d sdtLength).toNat →
      pastEnd table (run d sdtLength) at_ = false := fun at_ => pastEnd_of_lt hfits
  have hlt : o + 5 < run d sdtLength := by
    change (o + 5).toNat < _
    omega
  have hat : PackageAt d (pastEnd table (run d sdtLength)) name o :=
    ⟨hname, hpast _ (by omega), hop⟩
  simp only [amlExtractSleepType, run_bind]
  rw [(reached_first hstart hfirst (by omega)).run_iff,
    show o + 7 = o + 5 + 1 + 1 by simp only [BitVec.add_assoc]; rfl,
    ← readPackage_iff (hpast _ (by omega)) (hpast _ (by omega)) hlead]
  constructor
  · rintro ⟨_ | fuel, h⟩
    · cases h
    · exact ⟨fuel, (scanLoop_package fuel hlt hat).1.symm.trans h⟩
  · rintro ⟨fuel, h⟩
    exact ⟨fuel + 1, (scanLoop_package fuel hlt hat).1.trans h⟩

end Inside

/-- A table with this byte code. -/
def sdt (code : List U8) : U32 → U8 := fun x =>
  ([0, 0, 0, 0, BitVec.ofNat 8 (36 + code.length), 0, 0, 0] ++ List.replicate 28 0 ++ code).getD
    x.toNat 0xFF

/-- A package of 96 elements, `One` and 5 the first. -/
def wide : U32 → U8 :=
  sdt [0x08, 0x5F, 0x53, 0x35, 0x5F, 0x12, 0x05, 0x60, 0x01, 0x0A, 0x05]

lemma package_wide : Package wide (run wide sdtLength) 36 .one (.byte 5) := by
  refine ⟨[0x05], 0x60, [], .short 0x05 (by decide), by decide, ?_, ?_⟩
  · decide +kernel
  · unfold Holds
    decide +kernel

theorem sleep_type_wide :
    Package wide (run wide sdtLength) 36 .one (.byte 5) ∧
      ∃ fuel, run wide (amlExtractSleepType 0 (0x53, 0x35, 0x5F) fuel) = some (some (1, 5)) := by
  refine ⟨package_wide, (sleep_type_iff (o := 36) (by decide +kernel) (by decide)
    (by decide +kernel) (fun o' hle hlt => ?_) package_wide).mpr ?_⟩
  · exact absurd (hle.trans_lt hlt) (lt_irrefl _)
  · refine ⟨1, 1, 5, ?_, by decide +kernel, .inr (by decide +kernel), by decide +kernel,
      by decide +kernel, by decide, by decide⟩
    intro i hi
    rw [lt_one_iff.mp hi]
    decide +kernel

/-- A package of four elements, 5 and 5 the first. -/
def usual : U32 → U8 :=
  sdt [0x08, 0x5F, 0x53, 0x35, 0x5F, 0x12, 0x08, 0x04, 0x0A, 0x05, 0x0A, 0x05, 0x00, 0x00]

theorem sleep_type_usual :
    Named usual (0x53, 0x35, 0x5F) 36 ∧
      Package usual (run usual sdtLength) 36 (.byte 5) (.byte 5) ∧
      run usual (amlExtractSleepType 0 (0x53, 0x35, 0x5F) 1) = some none := by
  refine ⟨by decide +kernel, ⟨[0x08], 0x04, [0, 0], .short 0x08 (by decide), by decide, ?_, ?_⟩, ?_⟩
  · decide +kernel
  · unfold Holds
    decide +kernel
  · decide +kernel

/-- A table that ends behind a count of 96. -/
def cut : U32 → U8 := sdt [0x08, 0x5F, 0x53, 0x35, 0x5F, 0x12, 0x06, 0x60]

theorem sleep_type_leaves :
    run cut sdtLength = 44 ∧ 44 ∈ touched cut (amlExtractSleepType 0 (0x53, 0x35, 0x5F) 3) := by
  decide +kernel

end OpenHobbyOS.Acpi
