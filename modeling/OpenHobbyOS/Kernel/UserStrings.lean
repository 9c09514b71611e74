/-
# Strings from user memory

`task_copy_string_from_user` of `src/task.c`.  The loop stops one byte before the end of the
destination; an address outside the user area is refused before anything is written there.
-/
import OpenHobbyOS.Kernel.Tasks

namespace OpenHobbyOS

open Paging Nat Function

/-! ## The code -/

/-- The destination after the call, the addresses that were read, and the result. -/
structure StringCopy where
  dest : ℕ → U8
  reads : List U32
  ok : Bool

/-- The loop, with `left` bytes still to fill. -/
def copyLoop (mem : U32 → U8) (base : U32) : ℕ → ℕ → (ℕ → U8) → StringCopy
  | 0, _, dest => ⟨dest, [], false⟩
  | left + 1, used, dest =>
    let src := base + BitVec.ofNat 32 used
    if src < userLimit then
      let dest := update dest used (mem src)
      if mem src = 0 then ⟨dest, [src], true⟩
      else
        let r := copyLoop mem base left (used + 1) dest
        ⟨r.dest, src :: r.reads, r.ok⟩
    else ⟨dest, [], false⟩

/-- `task_copy_string_from_user`. -/
def taskCopyStringFromUser (mem : U32 → U8) (dest : ℕ → U8) (destSize : ℕ) (base : U32) :
    StringCopy :=
  if destSize = 0 ∨ base < userBase ∨ userLimit ≤ base then ⟨dest, [], false⟩
  else
    let r := copyLoop mem base (destSize - 1) 0 dest
    if r.ok then r else ⟨update r.dest (destSize - 1) 0, r.reads, false⟩

/-- The size of the path buffers of the system calls. -/
def syscallPathMax : ℕ := 256

/-! ## What a copy should do -/

/-- Byte `i` at the user address `base` is a zero byte of the user area. -/
def NulAt (mem : U32 → U8) (base : U32) (i : ℕ) : Prop :=
  userBase ≤ base ∧ base.toNat + i < userLimit.toNat ∧ mem (base + BitVec.ofNat 32 i) = 0

/-- The destination holds the string that ends at byte `i`. -/
def HoldsString (mem : U32 → U8) (base : U32) (dest : ℕ → U8) (i : ℕ) : Prop :=
  NulAt mem base i ∧ (∀ j < i, ¬ NulAt mem base j) ∧
    ∀ j ≤ i, dest j = mem (base + BitVec.ofNat 32 j)

/-- What the callers expect of a copy. -/
structure StringCopied (mem : U32 → U8) (base : U32) (n : ℕ) (r : StringCopy) : Prop where
  succeeds : r.ok = true ↔ ∃ i < n, NulAt mem base i
  holds : r.ok = true → ∃ i < n, HoldsString mem base r.dest i
  ends : r.ok = false → ∃ i < n, r.dest i = 0
  inside : ∀ a ∈ r.reads, userBase ≤ a ∧ a < userLimit

/-! ## The loop -/

variable {mem : U32 → U8} {base : U32}

lemma src_toNat {used : ℕ} (hused : base.toNat + used ≤ userLimit.toNat) :
    (base + BitVec.ofNat 32 used).toNat = base.toNat + used := by
  have hlimit : userLimit.toNat = 0x05000000 := rfl
  rw [BitVec.toNat_add, BitVec.toNat_ofNat, mod_eq_of_lt (by omega : used < 2 ^ 32)]
  exact mod_eq_of_lt (by omega)

/-- **The loop** finds the first zero byte among the next `left` bytes of the user area, or there is
none. -/
lemma copyLoop_spec (hbase : userBase ≤ base) (left used : ℕ) (dest : ℕ → U8)
    (hused : base.toNat + used ≤ userLimit.toNat) :
    (∀ a ∈ (copyLoop mem base left used dest).reads, userBase ≤ a ∧ a < userLimit) ∧
      (∀ j < used, (copyLoop mem base left used dest).dest j = dest j) ∧
      if (copyLoop mem base left used dest).ok then
        ∃ i, used ≤ i ∧ i < used + left ∧ NulAt mem base i ∧ (∀ j, used ≤ j → j < i →
          ¬ NulAt mem base j) ∧ ∀ j, used ≤ j → j ≤ i →
            (copyLoop mem base left used dest).dest j = mem (base + BitVec.ofNat 32 j)
      else ∀ i, used ≤ i → i < used + left → ¬ NulAt mem base i := by
  induction left generalizing used dest with
  | zero =>
    refine ⟨by simp [copyLoop], fun _ _ => rfl, fun i hi hi' => ?_⟩
    omega
  | succ left ih =>
    have hsrc := src_toNat hused
    simp only [copyLoop]
    by_cases hlt : base + BitVec.ofNat 32 used < userLimit
    swap
    · -- the user area ends here
      rw [if_neg hlt]
      refine ⟨by simp, fun _ _ => rfl, fun i hi _ hnul => hlt ?_⟩
      rw [BitVec.lt_def, hsrc]
      have := hnul.2.1
      omega
    have hread : userBase ≤ base + BitVec.ofNat 32 used ∧
        base + BitVec.ofNat 32 used < userLimit := by
      refine ⟨?_, hlt⟩
      rw [BitVec.le_def, hsrc]
      exact (BitVec.le_def.mp hbase).trans (le_add_right _ _)
    rw [BitVec.lt_def, hsrc] at hlt
    rw [if_pos hread.2]
    by_cases hzero : mem (base + BitVec.ofNat 32 used) = 0
    · rw [if_pos hzero]
      refine ⟨by simpa using hread, fun j hj => update_of_ne hj.ne _ _, used, le_rfl,
        by omega, ⟨hbase, hlt, hzero⟩, fun j hj hj' => ?_, fun j hj hj' => ?_⟩
      · omega
      · obtain rfl : j = used := by omega
        exact update_self _ _ _
    · rw [if_neg hzero]
      obtain ⟨hreads, hkept, hrest⟩ :=
        ih (used + 1) (update dest used (mem (base + BitVec.ofNat 32 used))) (by omega)
      generalize copyLoop mem base left (used + 1) _ = r at hreads hkept hrest ⊢
      refine ⟨by simpa using ⟨hread, hreads⟩, fun j hj => ?_, ?_⟩
      · rw [hkept j (by omega), update_of_ne hj.ne]
      · have hthis : ¬ NulAt mem base used := fun h => hzero h.2.2
        split_ifs at hrest ⊢
        · obtain ⟨i, hi, hi', hnul, hfirst, hdest⟩ := hrest
          refine ⟨i, by omega, by omega, hnul, fun j hj hji => ?_, fun j hj hji => ?_⟩
          · rcases hj.eq_or_lt with rfl | hj
            · exact hthis
            · exact hfirst j hj hji
          · rcases hj.eq_or_lt with rfl | hj
            · rw [hkept used (by omega), update_self]
            · exact hdest j hj hji
        · intro i hi hi'
          rcases hi.eq_or_lt with rfl | hi
          · exact hthis
          · exact hrest i hi (by omega)

/-! ## The function -/

/-- **Copying a string.**  In the user area the copy is right unless the zero byte is the last byte
that would fit; elsewhere the destination is left. -/
theorem string_copied_iff (mem : U32 → U8) (dest : ℕ → U8) {n : ℕ} (hn : 0 < n) (base : U32) :
    StringCopied mem base n (taskCopyStringFromUser mem dest n base) ↔
      if userBase ≤ base ∧ base < userLimit then
        NulAt mem base (n - 1) → ∃ i < n - 1, NulAt mem base i
      else ∃ i < n, dest i = 0 := by
  rw [taskCopyStringFromUser]
  by_cases hbase : userBase ≤ base ∧ base < userLimit
  swap
  · have hno : ∀ i, ¬ NulAt mem base i := fun i h => hbase ⟨h.1, BitVec.lt_def.mpr (by
      have := h.2.1
      omega)⟩
    have hrefused : n = 0 ∨ base < userBase ∨ userLimit ≤ base := by
      rw [not_and_or, BitVec.not_le, BitVec.not_lt] at hbase
      exact .inr hbase
    rw [if_pos hrefused, if_neg hbase]
    exact ⟨fun h => h.ends rfl, fun h => ⟨by simp [hno], by simp, fun _ => h, by simp⟩⟩
  have hok : ¬ (n = 0 ∨ base < userBase ∨ userLimit ≤ base) := by
    rw [not_or, not_or, BitVec.not_lt, BitVec.not_le]
    exact ⟨hn.ne', hbase⟩
  rw [if_neg hok, if_pos hbase]
  obtain ⟨hreads, -, hloop⟩ := @copyLoop_spec mem base hbase.1 (n - 1) 0 dest
    (BitVec.lt_def.mp hbase.2).le
  generalize copyLoop mem base (n - 1) 0 dest = r at hreads hloop ⊢
  dsimp only
  split_ifs at hloop ⊢ with hfound
  · obtain ⟨i, -, hi, hnul, hfirst, hdest⟩ := hloop
    rw [zero_add] at hi
    refine iff_of_true ⟨iff_of_true hfound ⟨i, by omega, hnul⟩, fun _ => ⟨i, by omega, hnul,
      fun j => hfirst j (zero_le j), fun j => hdest j (zero_le j)⟩, fun h => ?_, hreads⟩
      fun _ => ⟨i, hi, hnul⟩
    rw [hfound] at h
    cases h
  · -- only the last byte that would fit is left
    have hnone : ∀ i < n - 1, ¬ NulAt mem base i := fun i hi =>
      hloop i (zero_le i) (by omega)
    constructor
    · intro h hlast
      exact absurd (h.succeeds.mpr ⟨n - 1, by omega, hlast⟩) Bool.false_ne_true
    · intro h
      refine ⟨iff_of_false Bool.false_ne_true ?_, by simp, fun _ =>
        ⟨n - 1, by omega, update_self _ _ _⟩, hreads⟩
      rintro ⟨i, hi, hnul⟩
      rcases lt_or_ge i (n - 1) with hlt | hge
      · exact hnone i hlt hnul
      · obtain rfl : i = n - 1 := by omega
        obtain ⟨j, hj, hnul'⟩ := h hnul
        exact hnone j hj hnul'

/-- The user area holds the string `path` with its zero byte at `base`. -/
structure UserString (mem : U32 → U8) (base : U32) (path : List U8) : Prop where
  low : userBase ≤ base
  high : base.toNat + path.length < userLimit.toNat
  bytes : ∀ i, (h : i < path.length) → mem (base + BitVec.ofNat 32 i) = path[i]
  nul_free : 0 ∉ path
  ends : mem (base + BitVec.ofNat 32 path.length) = 0

lemma copied_iff {path : List U8} (h : UserString mem base path) (dest : ℕ → U8) {n : ℕ}
    (hn : 0 < n) : (taskCopyStringFromUser mem dest n base).ok = true ↔ path.length < n - 1 := by
  have hhigh := h.high
  have hok : ¬ (n = 0 ∨ base < userBase ∨ userLimit ≤ base) := by
    rw [not_or, not_or, BitVec.not_lt, BitVec.not_le, BitVec.lt_def]
    exact ⟨hn.ne', h.low, by omega⟩
  obtain ⟨-, -, hloop⟩ := @copyLoop_spec mem base h.low (n - 1) 0 dest (by omega)
  rw [taskCopyStringFromUser, if_neg hok]
  generalize copyLoop mem base (n - 1) 0 dest = r at hloop ⊢
  dsimp only
  split_ifs at hloop ⊢ with hfound
  · obtain ⟨i, -, hi, hnul, -, -⟩ := hloop
    refine iff_of_true hfound ?_
    by_contra hlong
    -- a zero byte inside the string
    have hlt : i < path.length := by omega
    have hzero : path[i] = 0 := by rw [← h.bytes i hlt, hnul.2.2]
    exact h.nul_free (hzero ▸ List.getElem_mem hlt)
  · refine iff_of_false not_false fun hlt => ?_
    exact hloop path.length (zero_le _) (by omega) ⟨h.low, hhigh, h.ends⟩

/-- Memory with the string `abc` at the start of the user area. -/
def abcMemory (a : U32) : U8 :=
  if a = userBase then 97 else if a = userBase + 1 then 98 else if a = userBase + 2 then 99 else 0

/-- `abc` goes into five bytes. -/
theorem string_copied_abc :
    StringCopied abcMemory userBase 5 (taskCopyStringFromUser abcMemory (fun _ => 1) 5 userBase) :=
  (string_copied_iff abcMemory (fun _ => 1) (by decide) userBase).mpr (by
    rw [if_pos (by decide)]
    exact fun _ => ⟨3, by decide, by decide, by decide, by decide⟩)

/-- `abc` and its zero byte fill four bytes, and the copy is refused. -/
theorem string_refused_abc :
    ¬ StringCopied abcMemory userBase 4
      (taskCopyStringFromUser abcMemory (fun _ => 1) 4 userBase) := by
  intro h
  have hfound := h.succeeds.mpr ⟨3, by decide, by decide, by decide, by decide⟩
  exact absurd hfound (by decide)

end OpenHobbyOS
