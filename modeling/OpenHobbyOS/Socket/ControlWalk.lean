/-
# The walk over the control data

`sys_sendmsg` of `src/syscall.c` follows the entries of the control data by their lengths.  The test
that an entry ends inside the buffer and the step to the next one are sums of 32 bits, which an
entry with a length close to `2 ^ 32` wraps round.
-/
import OpenHobbyOS.Paging.Isolation
import OpenHobbyOS.Socket.Messages

namespace OpenHobbyOS

open Paging Lib List

/-! ## Entries -/

section Entries

variable (control : ℕ → U8) (len offset : U32)

/-- `cmsg_len` of the entry at `offset`. -/
def entryLen : U32 := BitVec.ofNat 32 (le32 control offset.toNat)

/-- The entry passes the tests of the loop. -/
def taken : Prop :=
  ¬ len < offset + cmsghdrSize ∧
    ¬ (entryLen control offset < cmsghdrSize ∨ len < offset + entryLen control offset)

/-- The entry is `SCM_RIGHTS`. -/
def isRights : Bool :=
  le32 control (offset.toNat + 4) = solSocket.toNat ∧
    le32 control (offset.toNat + 8) = scmRights.toNat

/-- Where the descriptors of the entry are. -/
def fdWords : List ℕ :=
  if isRights control offset then
    (List.range ((entryLen control offset - cmsghdrSize).toNat / 4)).map fun i =>
      offset.toNat + cmsghdrSize.toNat + 4 * i
  else []

end Entries

namespace Kernel

variable (k : Kernel) (control : ℕ → U8) (len : U32)

/-- The nodes with those of the entry at `offset`. -/
def passEntry (offset : U32) (nodes : List ℕ) : Except ℤ (List ℕ) :=
  if isRights control offset then
    k.passFds control ((entryLen control offset - cmsghdrSize).toNat / 4)
      (offset.toNat + cmsghdrSize.toNat) nodes
  else .ok nodes

/-- The walk gets to `offset` with these nodes, taken from the descriptors at these places. -/
inductive Visited : U32 → List ℕ → List ℕ → Prop
  | start : Visited 0 [] []
  | next {offset : U32} {nodes words nodes' : List ℕ} (h : Visited offset nodes words)
      (ht : taken control len offset) (hp : k.passEntry control offset nodes = .ok nodes') :
      Visited (offset + cmsgAlign (entryLen control offset)) nodes'
        (words ++ fdWords control offset)

/-- The walk ends; it reads headers and descriptors inside the buffer; and the nodes come from as
many different descriptors. -/
structure WalkSound : Prop where
  ends : ∃ fuel r, k.walkControl control len fuel 0 [] = some r
  header : ∀ {offset nodes words}, k.Visited control len offset nodes words →
    ¬ len < offset + cmsghdrSize → offset.toNat + cmsghdrSize.toNat ≤ len.toNat
  descriptors : ∀ {offset nodes words}, k.Visited control len offset nodes words →
    taken control len offset → ∀ w ∈ fdWords control offset, w + 4 ≤ len.toNat
  counted : ∀ {offset nodes words}, k.Visited control len offset nodes words →
    nodes.length = words.length ∧ words.Pairwise (· < ·) ∧ ∀ w ∈ words, w + 4 ≤ len.toNat

/-- Every entry taken lies inside the buffer, read or not. -/
def EntriesInside : Prop :=
  ∀ {offset nodes words}, k.Visited control len offset nodes words →
    taken control len offset → offset.toNat + (entryLen control offset).toNat ≤ len.toNat

/-- No entry that is taken has an end beyond `2 ^ 32`. -/
def NoWrap : Prop :=
  ∀ {offset nodes words}, k.Visited control len offset nodes words →
    taken control len offset → offset.toNat + (entryLen control offset).toNat < 2 ^ 32

end Kernel

/-! ## One round -/

lemma cmsgAlign_toNat {n : U32} (h : n.toNat + 3 < 2 ^ 32) :
    (cmsgAlign n).toNat = (n.toNat + 3) / 4 * 4 := by
  have hsum : (n + 3).toNat = n.toNat + 3 := BitVec.toNat_add_of_lt h
  have hmask : ∀ i < 32, (~~~3 : U32).getLsbD i = decide (2 ≤ i) := by decide
  rw [cmsgAlign, and_mask_toNat _ hmask, hsum]
  omega

namespace Kernel

variable {k : Kernel} {control : ℕ → U8} {len offset : U32} {nodes nodes' words : List ℕ}

lemma walkControl_of_taken (fuel : ℕ) (h : taken control len offset) :
    k.walkControl control len (fuel + 1) offset nodes =
      match k.passEntry control offset nodes with
      | .error v => some (.error v)
      | .ok nodes =>
        k.walkControl control len fuel (offset + cmsgAlign (entryLen control offset)) nodes := by
  rw [walkControl, if_neg h.1]
  exact if_neg h.2

lemma walkControl_of_not_taken (fuel : ℕ) (h : ¬ taken control len offset) :
    k.walkControl control len (fuel + 1) offset nodes = some (.ok nodes) := by
  rw [walkControl]
  by_cases h₁ : len < offset + cmsghdrSize
  · rw [if_pos h₁]
  · rw [if_neg h₁]
    exact if_pos (by_contra fun h₂ => h ⟨h₁, h₂⟩)

lemma length_passFds {n i : ℕ} (h : k.passFds control n i nodes = .ok nodes') :
    nodes'.length = nodes.length + n := by
  induction n generalizing i nodes with
  | zero =>
    cases h
    rfl
  | succ n ih =>
    rw [passFds] at h
    cases hnode : k.passedNode (BitVec.ofNat 32 (le32 control i)).toInt with
    | none => simp [hnode] at h
    | some node =>
      simp only [hnode] at h
      split_ifs at h
      rw [ih h, length_append, length_singleton]
      omega

lemma length_passEntry (h : k.passEntry control offset nodes = .ok nodes') :
    nodes'.length = nodes.length + (fdWords control offset).length := by
  rw [passEntry] at h
  rw [fdWords]
  split_ifs at h ⊢
  · rw [length_passFds h, length_map, length_range]
  · cases h
    rfl

/-! ## The walk -/

/-- The walk is 4 bytes beyond the buffer at most, and the descriptors so far are different ones
before its place. -/
structure OnTrack (len offset : U32) (nodes words : List ℕ) : Prop where
  near : offset.toNat ≤ len.toNat + 3
  count : nodes.length = words.length
  sorted : words.Pairwise (· < ·)
  before : ∀ w ∈ words, w + 4 ≤ offset.toNat ∧ w + 4 ≤ len.toNat

lemma taken_inside (ht : taken control len offset)
    (hwrap : offset.toNat + (entryLen control offset).toNat < 2 ^ 32) :
    12 ≤ (entryLen control offset).toNat ∧
      offset.toNat + (entryLen control offset).toNat ≤ len.toNat := by
  obtain ⟨-, hentry⟩ := ht
  rw [not_or, BitVec.not_lt, BitVec.not_lt, BitVec.le_def, BitVec.le_def, BitVec.toNat_add,
    Nat.mod_eq_of_lt hwrap] at hentry
  exact hentry

lemma fdWords_inside (ht : taken control len offset)
    (hwrap : offset.toNat + (entryLen control offset).toNat < 2 ^ 32) :
    ∀ w ∈ fdWords control offset,
      offset.toNat ≤ w ∧ w + 4 ≤ offset.toNat + (entryLen control offset).toNat := by
  intro w hw
  obtain ⟨hmin, -⟩ := taken_inside ht hwrap
  have hdata : (entryLen control offset - cmsghdrSize).toNat =
      (entryLen control offset).toNat - 12 :=
    BitVec.toNat_sub_of_le (BitVec.le_def.mpr hmin)
  have hhdr : cmsghdrSize.toNat = 12 := rfl
  rw [fdWords] at hw
  split_ifs at hw
  · obtain ⟨i, hi, rfl⟩ := mem_map.mp hw
    rw [mem_range, hdata] at hi
    omega
  · cases hw

lemma OnTrack.next (h : OnTrack len offset nodes words) (hlen : len.toNat < 2 ^ 31)
    (ht : taken control len offset) (hp : k.passEntry control offset nodes = .ok nodes')
    (hwrap : offset.toNat + (entryLen control offset).toNat < 2 ^ 32) :
    OnTrack len (offset + cmsgAlign (entryLen control offset)) nodes'
        (words ++ fdWords control offset) ∧
      offset.toNat < (offset + cmsgAlign (entryLen control offset)).toNat := by
  have hoff := h.near
  obtain ⟨hmin, hin⟩ := taken_inside ht hwrap
  have halign := cmsgAlign_toNat (n := entryLen control offset) (by omega)
  have hnext : (offset + cmsgAlign (entryLen control offset)).toNat =
      offset.toNat + ((entryLen control offset).toNat + 3) / 4 * 4 := by
    rw [BitVec.toNat_add_of_lt (by omega), halign]
  have hwords := fdWords_inside ht hwrap
  refine ⟨⟨?_, ?_, ?_, fun w hw => ?_⟩, ?_⟩
  · omega
  · rw [length_passEntry hp, h.count, length_append]
  · refine pairwise_append.mpr ⟨h.sorted, ?_, fun w hw w' hw' => ?_⟩
    · rw [fdWords]
      split_ifs
      · refine pairwise_map.mpr (pairwise_lt_range.imp fun hlt => ?_)
        omega
      · exact .nil
    · have hb := (h.before w hw).1
      have hw₁ := (hwords w' hw').1
      omega
  · rcases mem_append.mp hw with hw | hw
    · have hb := h.before w hw
      omega
    · have hw₁ := (hwords w hw).2
      omega
  · omega

lemma onTrack_of_noWrap (hlen : len.toNat < 2 ^ 31) (hwrap : k.NoWrap control len)
    (hv : k.Visited control len offset nodes words) : OnTrack len offset nodes words := by
  induction hv with
  | start => exact ⟨Nat.zero_le _, rfl, .nil, by simp⟩
  | next h ht hp ih => exact (ih.next hlen ht hp (hwrap h ht)).1

lemma walkControl_ends (hlen : len.toNat < 2 ^ 31) (hwrap : k.NoWrap control len) (m : ℕ)
    (hv : k.Visited control len offset nodes words) (hm : len.toNat + 4 ≤ offset.toNat + m) :
    ∃ r, k.walkControl control len m offset nodes = some r := by
  induction m generalizing offset nodes words with
  | zero =>
    have hoff := (onTrack_of_noWrap hlen hwrap hv).near
    omega
  | succ m ih =>
    by_cases ht : taken control len offset
    · rw [walkControl_of_taken m ht]
      cases hp : k.passEntry control offset nodes with
      | error v => exact ⟨_, rfl⟩
      | ok nodes' =>
        have hon := (onTrack_of_noWrap hlen hwrap hv).next hlen ht hp (hwrap hv ht)
        exact ih (hv.next ht hp) (by omega)
    · exact ⟨_, walkControl_of_not_taken m ht⟩

/-- **The walk over the control data** is sound, with its entries inside the buffer, exactly if no
entry that it takes wraps round.  Where the data of one that wraps are not read, the walk may end
all the same, at a header further down. -/
theorem control_walk_sound_iff {mem : UserMemory} {msg : Msghdr} (heap : ℕ → U8)
    (hrange : taskValidateUserRange msg.control msg.controllen = true) :
    (k.WalkSound (controlCopy mem msg heap) msg.controllen ∧
        k.EntriesInside (controlCopy mem msg heap) msg.controllen) ↔
      k.NoWrap (controlCopy mem msg heap) msg.controllen := by
  have hlen : msg.controllen.toNat < 2 ^ 31 := by
    have hlimit : userLimit.toNat = 0x05000000 := rfl
    simp only [taskValidateUserRange, Bool.not_eq_true', Bool.or_eq_false_iff,
      decide_eq_false_iff_not, BitVec.not_lt, BitVec.le_def, BitVec.toNat_add] at hrange
    omega
  constructor
  · rintro ⟨-, h⟩ _ _ _ hv ht
    have hin := h hv ht
    omega
  · intro h
    refine ⟨⟨⟨_, walkControl_ends hlen h (msg.controllen.toNat + 4) .start ?_⟩, fun hv ht => ?_,
      fun hv ht w hw => ?_, fun hv => ?_⟩, fun hv ht => (taken_inside ht (h hv ht)).2⟩
    · omega
    · have hnear := (onTrack_of_noWrap hlen h hv).near
      have hhdr : cmsghdrSize.toNat = 12 := rfl
      rw [BitVec.not_lt, BitVec.le_def, BitVec.toNat_add_of_lt (by omega)] at ht
      exact ht
    · have hin := (taken_inside ht (h hv ht)).2
      have hword := (fdWords_inside ht (h hv ht) w hw).2
      omega
    · have hon := onTrack_of_noWrap hlen h hv
      exact ⟨hon.count, hon.sorted, fun w hw => (hon.before w hw).2⟩

/-- 24 bytes: an entry of twelve bytes and one with the length `n`. -/
def twoEntries (n : U32) : ℕ → U8 :=
  controlCopy
    (fun a => (wordBytes 12 ++ List.replicate 8 0 ++ wordBytes n).getD (a - userBase).toNat 0)
    ⟨0, 0, 0, 0, userBase, 24, 0⟩ fun _ => 0

/-- Two headers without data. -/
theorem control_walk_sound_two :
    (boot MapSystem.smallBoot MapSystem.blank).WalkSound (twoEntries 12) 24 := by
  generalize boot MapSystem.smallBoot MapSystem.blank = k
  refine ((control_walk_sound_iff _ (by decide)).mpr fun hv ht => ?_).1
  have hplace : ∀ {offset nodes words}, k.Visited (twoEntries 12) 24 offset nodes words →
      offset = 0 ∨ offset = 12 ∨ offset = 24 := by
    intro offset nodes words hv
    induction hv with
    | start => exact .inl rfl
    | next h ht hp ih =>
      rcases ih with rfl | rfl | rfl
      · exact .inr (.inl (by decide))
      · exact .inr (.inr (by decide))
      · exact absurd ht.1 (by decide)
  rcases hplace hv with rfl | rfl | rfl <;> decide

/-- The length `0xFFFFFFFF` is rounded up to nothing, and the walk stays where it is. -/
theorem control_walk_stuck :
    ¬ (boot MapSystem.smallBoot MapSystem.blank).WalkSound (twoEntries 0xFFFFFFFF) 24 := by
  generalize boot MapSystem.smallBoot MapSystem.blank = k
  rintro ⟨⟨fuel, r, hends⟩, -⟩
  have hpass : ∀ offset, isRights (twoEntries 0xFFFFFFFF) offset = false →
      k.passEntry (twoEntries 0xFFFFFFFF) offset [] = .ok [] := by
    intro offset h
    rw [passEntry, h]
    rfl
  have hstuck : ∀ fuel, k.walkControl (twoEntries 0xFFFFFFFF) 24 fuel 12 [] = none := by
    intro fuel
    induction fuel with
    | zero => rfl
    | succ fuel ih =>
      rw [walkControl_of_taken fuel ⟨by decide, by decide⟩, hpass 12 (by decide)]
      exact ih
  cases fuel with
  | zero => cases hends
  | succ fuel =>
    rw [walkControl_of_taken fuel ⟨by decide, by decide⟩, hpass 0 (by decide)] at hends
    cases (hstuck fuel).symm.trans hends

end Kernel

end OpenHobbyOS
