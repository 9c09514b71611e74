/-
# Aligned allocation and `kfree`

`kmalloc_aligned` stores the pointer of `kmalloc` in front of the address it returns, but `kfree`
takes the twelve bytes before any pointer for the header.  For an alignment above 8 these are other
bytes, and the block is not released; up to 8 the pointer is that of `kmalloc`, a multiple of 4 and
not always of 8.
-/
import OpenHobbyOS.Memory.Requests

namespace OpenHobbyOS.Memory

open Paging Lib BitVec Option

/-- The flag of the block `b` is set. -/
def release (b c : Block) : Block := if c = b then { c with free := true } else c

/-- `kfree` of `p` releases the block `b` and changes nothing else. -/
def Releases (h : HeapMemory) (p : U32) (b : Block) : Prop :=
  ∃ h', h.kfree p = some h' ∧ h'.blocks = mergeBlocks (h.blocks.map (release b)) ∧
    (∀ c ∈ h.blocks, c.free = false → c ≠ b → c ∈ h'.blocks) ∧ h'.bytes = h.bytes

/-- A pointer that is returned is aligned, and `kfree` of it releases its block. -/
def Paired (h : HeapMemory) (size alignment : U32) : Prop :=
  ∃ h' p, h.kmallocAligned size alignment = some (h', p) ∧ (p ≠ 0 →
    alignment.toNat ∣ p.toNat ∧
      ∃ b ∈ h'.blocks, b.free = false ∧ (∀ c ∈ h.blocks, c.free = false → c ≠ b) ∧
        Releases h' p b)

/-- Up to 8 the pointer of the block is aligned already; above, there is no pointer: no block is
found, or the address wraps around to null. -/
def Pairable (l : List Block) (size alignment : U32) : Prop :=
  if alignment ≤ 8 then ∀ b, handed l size = some b → alignment.toNat ∣ b.payload.toNat
  else ∀ b, handed l (size + alignment + 4) = some b → alignedFrom b.payload alignment = 0

section Pairs

variable {h : HeapMemory} {l l' : List Block} {b b' : Block} {needed p size alignment : U32} {k : ℕ}

/-! ## Powers of two -/

lemma mask_of_pow (hk : alignment.toNat = 2 ^ k) :
    ∀ i < 32, (~~~(alignment - 1)).getLsbD i = decide (k ≤ i) := by
  intro i hi
  have hone : (alignment - 1).toNat = 2 ^ k - 1 := by
    have hpos : 0 < 2 ^ k := Nat.two_pow_pos k
    bv_omega
  rw [getLsbD_not, decide_eq_true hi, Bool.true_and, ← testBit_toNat, hone,
    Nat.testBit_two_pow_sub_one, ← decide_not, decide_eq_decide, not_lt]

lemma alignedFrom_eq (hk : alignment.toNat = 2 ^ k) (raw : U32) :
    (alignedFrom raw alignment).toNat =
      (raw + 4 + alignment - 1).toNat - (raw + 4 + alignment - 1).toNat % 2 ^ k := by
  rw [alignedFrom, and_mask_toNat _ (mask_of_pow hk)]

lemma alignedFrom_ne (hk : alignment.toNat = 2 ^ k) (h8 : ¬ alignment ≤ 8) {raw : U32}
    (hraw : raw.toNat + 4 ≤ 2 ^ 32) (hne : alignedFrom raw alignment ≠ 0) :
    alignedFrom raw alignment ≠ raw := by
  intro heq
  have hal := alignment.isLt
  by_cases hwrap : raw.toNat + alignment.toNat + 3 < 2 ^ 32
  · have hlo := (alignedFrom_bounds raw h8 hwrap).1
    rw [heq] at hlo
    omega
  · -- the sum wraps around to less than one alignment
    have hsum : (raw + 4 + alignment - 1).toNat < 2 ^ k := by
      rw [← hk]
      bv_omega
    have hval := alignedFrom_eq hk raw
    rw [Nat.mod_eq_of_lt hsum, Nat.sub_self] at hval
    exact hne (eq_of_toNat_eq hval)

/-! ## Releasing -/

lemma map_markFree_eq (hs : HeapSound l) (hb : b ∈ l) :
    l.map (markFree b.payload) = l.map (release b) := by
  refine List.map_congr_left fun c hc => ?_
  rw [release]
  split_ifs with hcb
  · rw [hcb, markFree, if_pos]
    rw [Block.payload]
    bv_omega
  · exact markFree_eq_self fun hpay => hcb (hs.eq_of_addr hc hb (payload_inj hpay))

lemma releases_payload (hs : HeapSound h.blocks) (hb : b ∈ h.blocks) :
    Releases h b.payload b := by
  have hne := hs.payload_ne_zero hb
  refine ⟨_, kfree_memory hb hne, ?_, ?_, rfl⟩
  · rw [Memory.kfree, if_neg hne, map_markFree_eq hs hb]
  · intro c hc hused hcb
    exact mem_kfree hc hused fun hpay => hcb (hs.eq_of_addr hc hb (payload_inj hpay))

lemma not_mem_release (hused : b.free = false) : b ∉ mergeBlocks (l.map (release b)) := by
  intro hmem
  obtain ⟨c, -, hcb⟩ := List.mem_map.mp (mem_of_mem_mergeBlocks hmem hused)
  rw [release] at hcb
  split_ifs at hcb with heq
  · rw [← hcb] at hused
    cases hused
  · exact heq hcb

lemma not_releases (hb : b ∈ h.blocks) (hused : b.free = false) (hp : p ≠ b.payload) :
    ¬ Releases h p b := by
  rintro ⟨h', hfree, hblocks, -, -⟩
  -- the block is still in use afterwards
  have hstill : b ∈ h'.blocks := by
    rw [HeapMemory.kfree] at hfree
    split_ifs at hfree
    · cases hfree
      exact hb
    · cases hfree
      exact mem_kfree hb hused hp.symm
    · obtain ⟨h₁, hstore, rfl⟩ := map_eq_some_iff.mp hfree
      rw [store_blocks hstore]
      exact mem_mergeBlocks hb hused
  rw [hblocks] at hstill
  exact not_mem_release hused hstill

lemma Served.eq_of_new (S : Served needed l l' b b') {c : Block} (hc : c ∈ l')
    (hused : c.free = false) (hnew : ∀ d ∈ l, d.free = false → d ≠ c) : c = b' := by
  rcases (S.others c hused).mp hc with heq | hold
  · exact heq
  · exact absurd rfl (hnew c hold hused)

/-! ## The pair -/

lemma paired_small_iff (hs : HeapSound h.blocks) (h8 : alignment ≤ 8) :
    Paired h size alignment ↔ Pairable h.blocks size alignment := by
  rw [Paired, Pairable, if_pos h8, HeapMemory.kmallocAligned, if_pos h8]
  rcases kmalloc_memory hs size with ⟨hnone, hk⟩ | ⟨b, b', l', hsome, hb, hfree, hk, S⟩
  · rw [hk]
    refine iff_of_true ⟨h, 0, rfl, fun h0 => absurd rfl h0⟩ fun b hb => ?_
    rw [hnone] at hb
    cases hb
  · have hp := hs.payload_ne_zero hb
    rw [hk, hsome]
    simp only [some.injEq, forall_eq']
    constructor
    · rintro ⟨h', p, heq, himp⟩
      cases heq
      exact (himp hp).1
    · intro hdvd
      refine ⟨_, _, rfl, fun _ => ⟨hdvd, b', S.mem, S.used, fun c hc hused => ?_, ?_⟩⟩
      · exact S.fresh hs hb hfree hc hused
      · rw [← S.payload]
        exact releases_payload S.sound S.mem

lemma paired_large_iff (hs : HeapSound h.blocks) (h8 : ¬ alignment ≤ 8)
    (hpow : alignment.toNat = 2 ^ k) :
    Paired h size alignment ↔ Pairable h.blocks size alignment := by
  rw [Paired, Pairable, if_neg h8, HeapMemory.kmallocAligned, if_neg h8]
  rcases kmalloc_memory hs (size + alignment + 4) with
    ⟨hnone, hk⟩ | ⟨b, b', l', hsome, hb, hfree, hk, S⟩
  · simp only [hk, if_true]
    refine iff_of_true ⟨h, 0, rfl, fun h0 => absurd rfl h0⟩ fun b hb => ?_
    rw [hnone] at hb
    cases hb
  · have hp := hs.payload_ne_zero hb
    simp only [hk, if_neg hp, hsome, some.injEq, forall_eq']
    constructor
    · rintro ⟨h', p, heq, himp⟩
      obtain ⟨h₁, hstore, heq⟩ := map_eq_some_iff.mp heq
      cases heq
      by_contra hne
      obtain ⟨-, c, hc, hused, hnew, hrel⟩ := himp hne
      have hblocks : h'.blocks = l' := store_blocks hstore
      obtain rfl := S.eq_of_new (hblocks ▸ hc) hused hnew
      have hroom : b.payload.toNat + 4 ≤ 2 ^ 32 := by
        have hstop := hs.below b hb
        have haligned := hs.aligned b hb
        rw [hs.payload hb]
        simp only [Block.stop, headerSize_toNat] at hstop
        omega
      refine not_releases hc hused ?_ hrel
      rw [S.payload]
      exact alignedFrom_ne hpow h8 hroom hne
    · intro hzero
      rw [hzero, store_last_word S.sound]
      exact ⟨_, 0, rfl, fun h0 => absurd rfl h0⟩

end Pairs

/-- **Aligned allocation.**  On every sound heap the pointer is aligned and `kfree` releases its
block if and only if the alignment is at most 8 and divides the pointer of `kmalloc`, or no pointer
is returned. -/
theorem paired_iff (h : HeapMemory) (size alignment : U32) (k : ℕ) (hs : HeapSound h.blocks)
    (hk : alignment.toNat = 2 ^ k) :
    Paired h size alignment ↔ Pairable h.blocks size alignment := by
  by_cases h8 : alignment ≤ 8
  · exact paired_small_iff hs h8
  · exact paired_large_iff hs h8 hk

/-! ## The heap of a machine without modules -/

/-- A heap of one free block. -/
def plainMemory : HeapMemory := ⟨plainHeap.blocks, fun _ => 0⟩

lemma sound_plainMemory : HeapSound plainMemory.blocks :=
  sound_memoryInit memoryInit_plainBoot ⟨by decide, by decide⟩ (by decide)

/-- An alignment of 4 is what `kmalloc` gives. -/
theorem paired_four : Paired plainMemory 100 4 := by
  refine (paired_iff plainMemory 100 4 2 sound_plainMemory rfl).mpr ?_
  rw [Pairable, if_pos (by decide)]
  intro b hb
  obtain rfl : (⟨0x200000, 0x1DEFFF4, true⟩ : Block) = b := Option.some.inj hb
  decide

/-- The first pointer is no multiple of 8; a buffer of the network card gets an address four bytes
behind its header, and `kfree` of it writes into the header's link; and behind a block of 24 bytes
it stays in use. -/
theorem aligned_not_paired :
    (plainMemory.kmallocAligned 100 8).map Prod.snd = some 0x20000C ∧
      ¬ Paired plainMemory 100 8 ∧
      (plainMemory.kmallocAligned 0x2010 16).map Prod.snd = some 0x200010 ∧
      ((plainMemory.kmallocAligned 0x2010 16).bind fun r => r.1.kfree r.2).isNone = true ∧
      ¬ Paired plainMemory 0x2010 16 ∧
      (((plainMemory.kmalloc 24).1.kmallocAligned 0x2010 16).bind fun r => r.1.kfree r.2).map
          HeapMemory.blocks =
        some [⟨0x200000, 24, false⟩, ⟨0x200024, 0x2028, false⟩, ⟨0x202058, 0x1DEDF9C, true⟩] := by
  refine ⟨by decide, ?_, by decide, by decide, ?_, by decide⟩
  · rw [paired_small_iff sound_plainMemory (by decide), Pairable, if_pos (by decide)]
    intro hdvd
    exact absurd (hdvd ⟨0x200000, 0x1DEFFF4, true⟩ rfl) (by decide)
  · rw [paired_large_iff sound_plainMemory (by decide) (show (16 : U32).toNat = 2 ^ 4 from rfl),
      Pairable, if_neg (by decide)]
    intro hzero
    exact absurd (hzero ⟨0x200000, 0x1DEFFF4, true⟩ rfl) (by decide)

end OpenHobbyOS.Memory
