/-
# Requests of the kernel's allocator

`kmalloc`, `kcalloc`, `kmalloc_aligned`, `krealloc` and `kfree` of `src/memory.c` on the heap in
memory: the list of headers, and the bytes that are no part of a header.  `none` is a store that
would overwrite a header, or a `krealloc` of a pointer without a header in the list.  Sizes are
words and wrap around.
-/
import OpenHobbyOS.Memory.Coalescing

namespace OpenHobbyOS.Memory

open Paging Lib Option List

/-! ## The heap in memory -/

/-- The blocks, and the bytes in memory. -/
structure HeapMemory where
  blocks : List Block
  /-- The bytes that are no part of a header. -/
  bytes : U32 → U8

/-- A store of `n` bytes from `dst` on hits the header of the block. -/
def hitsHeader (dst : U32) (n : ℕ) (b : Block) : Bool :=
  (List.range headerSize.toNat).any fun j => decide ((b.addr + BitVec.ofNat 32 j - dst).toNat < n)

/-- The first free block that is large enough. -/
def fitting (needed : U32) (blocks : List Block) : Option Block :=
  blocks.find? fun b => b.free && decide (needed ≤ b.size)

/-- The block that `kmalloc` takes for a request of `asked` bytes. -/
def handed (blocks : List Block) (asked : U32) : Option Block :=
  if asked = 0 then none else fitting (alignUp asked 8) blocks

/-- The address that `kmalloc_aligned` computes from the pointer it got. -/
def alignedFrom (raw alignment : U32) : U32 := (raw + 4 + alignment - 1) &&& ~~~(alignment - 1)

namespace HeapMemory

variable (h : HeapMemory)

/-- Stores the byte `f i` at `dst + i` for every `i < n`. -/
def store (dst : U32) (n : ℕ) (f : ℕ → U8) : Option HeapMemory :=
  if h.blocks.any (hitsHeader dst n) then none
  else
    some ⟨h.blocks, fun a => if (a - dst).toNat < n then f (a - dst).toNat else h.bytes a⟩

/-- Returns the null pointer where no block is found. -/
def kmalloc (size : U32) : HeapMemory × U32 :=
  match Memory.kmalloc h.blocks size with
  | none => (h, 0)
  | some (blocks, p) => (⟨blocks, h.bytes⟩, p)

/-- `kcalloc`. -/
def kcalloc (count size : U32) : Option (HeapMemory × U32) :=
  let total := count * size
  let r := h.kmalloc total
  if r.2 = 0 then some r
  else (r.1.store r.2 total.toNat fun _ => 0).map fun h => (h, r.2)

/-- `kmalloc_aligned`, with the pointer in the word before. -/
def kmallocAligned (size alignment : U32) : Option (HeapMemory × U32) :=
  if alignment ≤ 8 then some (h.kmalloc size)
  else
    let r := h.kmalloc (size + alignment + 4)
    if r.2 = 0 then some r
    else
      let aligned := alignedFrom r.2 alignment
      (r.1.store (aligned - 4) 4 fun i => (r.2 >>> (8 * i)).setWidth 8).map fun h => (h, aligned)

/-- `kfree`, whether or not there is a header. -/
def kfree (ptr : U32) : Option HeapMemory :=
  if ptr = 0 then some h
  else if ∃ b ∈ h.blocks, b.addr = ptr - headerSize then
    some ⟨Memory.kfree h.blocks ptr, h.bytes⟩
  else
    (h.store (ptr - headerSize + 4) 1 fun _ => 1).map fun h => ⟨mergeBlocks h.blocks, h.bytes⟩

/-- `krealloc`. -/
def krealloc (ptr newSize : U32) : Option (HeapMemory × U32) :=
  if ptr = 0 then some (h.kmalloc newSize)
  else if newSize = 0 then (h.kfree ptr).map fun h => (h, 0)
  else
    match h.blocks.find? fun b => b.addr = ptr - headerSize with
    | none => none
    | some block =>
      if newSize ≤ block.size then some (h, ptr)
      else
        let r := h.kmalloc newSize
        if r.2 = 0 then some r
        else
          match r.1.store r.2 block.size.toNat fun i => h.bytes (ptr + BitVec.ofNat 32 i) with
          | none => none
          | some h => (h.kfree ptr).map fun h => (h, r.2)

end HeapMemory

/-! ## Sound lists of blocks -/

/-- The blocks lie one after the other behind the kernel image, at multiples of 4. -/
structure HeapSound (l : List Block) : Prop where
  sorted : l.Pairwise fun b c => b.stop ≤ c.start
  above : ∀ b ∈ l, 0x100000 ≤ b.addr.toNat
  below : ∀ b ∈ l, b.stop < 2 ^ 32
  aligned : ∀ b ∈ l, b.addr.toNat % 4 = 0

section Rounding

lemma alignUp_eight_le (size : U32) : (alignUp size 8).toNat ≤ size.toNat + 7 := by
  rw [alignUp, and_mask_toNat _ mask_eight]
  have hsum : (size + 8 - 1).toNat = (size.toNat + 7) % 2 ^ 32 := by bv_omega
  omega

lemma alignUp_eight_mod (size : U32) : (alignUp size 8).toNat % 8 = 0 := by
  rw [alignUp, and_mask_toNat _ mask_eight]
  omega

lemma le_alignUp_eight {size : U32} (h : size.toNat ≤ 0xFFFFFFF8) :
    size.toNat ≤ (alignUp size 8).toNat := by
  rw [alignUp, and_mask_toNat _ mask_eight]
  have hsum : (size + 8 - 1).toNat = size.toNat + 7 := by bv_omega
  omega

lemma alignUp_eight_wraps {size : U32} (h : 0xFFFFFFF8 < size.toNat) :
    (alignUp size 8).toNat = 0 := by
  rw [alignUp, and_mask_toNat _ mask_eight]
  have hsum : (size + 8 - 1).toNat = size.toNat + 7 - 2 ^ 32 := by bv_omega
  have := size.isLt
  omega

lemma and_not_bounds (x m : U32) :
    (x &&& ~~~m).toNat ≤ x.toNat ∧ x.toNat ≤ (x &&& ~~~m).toNat + m.toNat := by
  have hapart : (x &&& ~~~m) &&& (x &&& m) = 0#32 := by
    ext i hi
    simp
    grind
  have hjoin : (x &&& ~~~m) + (x &&& m) = x := by
    rw [BitVec.add_eq_or_of_and_eq_zero _ _ hapart]
    ext i hi
    simp
    grind
  have hsum := BitVec.toNat_add_of_and_eq_zero hapart
  rw [hjoin] at hsum
  have hle : (x &&& m).toNat ≤ m.toNat := by
    rw [BitVec.toNat_and]
    exact Nat.and_le_right
  omega

end Rounding

/-! ## One request -/

/-- A served request for `needed` bytes: `b` gives the block `b'`, and the blocks in use are the
same otherwise. -/
structure Served (needed : U32) (l l' : List Block) (b b' : Block) : Prop where
  sound : HeapSound l'
  mem : b' ∈ l'
  used : b'.free = false
  addr : b'.addr = b.addr
  enough : needed.toNat ≤ b'.size.toNat
  cut : b'.size.toNat ≤ needed.toNat + 20
  others : ∀ c, c.free = false → (c ∈ l' ↔ c = b' ∨ c ∈ l)

section List

variable {needed asked : U32} {b c : Block} {l l₁ l₂ : List Block}

namespace HeapSound

lemma apart (h : HeapSound l) (hb : b ∈ l) (hc : c ∈ l) :
    b = c ∨ b.stop ≤ c.start ∨ c.stop ≤ b.start :=
  Tiles.apart h.sorted hb hc

lemma eq_of_addr (h : HeapSound l) (hb : b ∈ l) (hc : c ∈ l) (haddr : b.addr = c.addr) :
    b = c := by
  rcases h.apart hb hc with heq | hlt | hlt
  · exact heq
  all_goals
    simp only [Block.stop, Block.start, haddr, headerSize_toNat] at hlt
    omega

lemma payload (h : HeapSound l) (hb : b ∈ l) : b.payload.toNat = b.addr.toNat + 12 :=
  payload_toNat (h.below b hb)

lemma payload_ne_zero (h : HeapSound l) (hb : b ∈ l) : b.payload ≠ 0 := by
  intro h0
  have hnat := h.payload hb
  rw [h0] at hnat
  simp at hnat

lemma replace (h : HeapSound (l₁ ++ b :: l₂)) {m : List Block} {a : ℕ}
    (hm : Tiles Block.start Block.stop b.start a m) (ha : a ≤ b.stop)
    (haligned : ∀ c ∈ m, c.addr.toNat % 4 = 0) : HeapSound (l₁ ++ (m ++ l₂)) := by
  have hinside : ∀ c ∈ m, b.start ≤ c.start ∧ c.stop ≤ b.stop := fun c hc =>
    ⟨(hm.mem hc).1, (hm.mem hc).2.2.trans ha⟩
  obtain ⟨hleft, hright, hcross⟩ := pairwise_append.mp h.sorted
  obtain ⟨hnext, hright⟩ := pairwise_cons.mp hright
  have hb : b ∈ l₁ ++ b :: l₂ := by simp
  -- a block of the new list is an old one or lies in `b`
  have hold : ∀ {P : Block → Prop}, (∀ c ∈ l₁ ++ b :: l₂, P c) → (∀ c ∈ m, P c) →
      ∀ c ∈ l₁ ++ (m ++ l₂), P c := by
    intro P hl hm c hc
    simp only [mem_append] at hc
    rcases hc with hc | hc | hc
    · exact hl c (by simp [hc])
    · exact hm c hc
    · exact hl c (by simp [hc])
  refine ⟨?_, hold h.above fun c hc => (h.above b hb).trans (hinside c hc).1,
    hold h.below fun c hc => (hinside c hc).2.trans_lt (h.below b hb), hold h.aligned haligned⟩
  refine pairwise_append.mpr ⟨hleft, pairwise_append.mpr ⟨hm.pairwise, hright, ?_⟩, ?_⟩
  · exact fun c hc d hd => (hinside c hc).2.trans (hnext d hd)
  · intro c hc d hd
    rcases mem_append.mp hd with hd | hd
    · exact (hcross c hc b mem_cons_self).trans (hinside d hd).1
    · exact hcross c hc d (mem_cons_of_mem _ hd)

end HeapSound

variable {dst : U32} {n : ℕ} {h : HeapMemory}

lemma firstFit_eq (needed : U32) (l : List Block) :
    (fitting needed l = none ∧ firstFit needed l = none) ∨
      ∃ l₁ b l₂, fitting needed l = some b ∧ l = l₁ ++ b :: l₂ ∧ b.free = true ∧
        needed ≤ b.size ∧ firstFit needed l = some (l₁ ++ (takeBlock needed b ++ l₂), b.payload) := by
  induction l with
  | nil => exact .inl ⟨rfl, rfl⟩
  | cons d l ih =>
    rw [fitting, find?_cons, firstFit]
    by_cases hfit : d.free = true ∧ needed ≤ d.size
    · refine .inr ⟨[], d, l, ?_, rfl, hfit.1, hfit.2, ?_⟩
      · simp [hfit.1, hfit.2]
      · rw [if_pos hfit]
        rfl
    · have htest : (d.free && decide (needed ≤ d.size)) = false := by
        rw [Bool.and_eq_false_iff, decide_eq_false_iff_not, ← Bool.not_eq_true]
        exact not_and_or.mp hfit
      rw [htest, if_neg hfit]
      rcases ih with ⟨hnone, hfirst⟩ | ⟨l₁, b, l₂, hsome, rfl, hfree, hle, hfirst⟩
      · exact .inl ⟨hnone, by rw [hfirst]; rfl⟩
      · exact .inr ⟨d :: l₁, b, l₂, hsome, rfl, hfree, hle, by rw [hfirst]; rfl⟩

lemma takeBlock_eq (hroom : needed.toNat + 20 < 2 ^ 32) (hle : needed ≤ b.size) :
    ∃ b' rest, takeBlock needed b = b' :: rest ∧ b'.addr = b.addr ∧ b'.free = false ∧
      needed.toNat ≤ b'.size.toNat ∧ b'.size.toNat ≤ needed.toNat + 20 ∧
      ∀ c ∈ rest, c.free = true ∧ c.addr = b.payload + needed := by
  have hsum : (needed + headerSize + 8).toNat = needed.toNat + 20 := by
    rw [headerSize]
    bv_omega
  rw [takeBlock]
  split_ifs with hcut
  · exact ⟨_, _, rfl, rfl, rfl, le_rfl, by simp, by simp⟩
  · rw [BitVec.not_lt, BitVec.le_def, hsum] at hcut
    exact ⟨_, _, rfl, rfl, rfl, hle, hcut, by simp⟩

/-- **One request.**  It is refused, and nothing changes, or it is served from the first block
that is free and large enough. -/
theorem kmalloc_cases (h : HeapSound l) (asked : U32) :
    (handed l asked = none ∧ kmalloc l asked = none) ∨
      ∃ b b' l', handed l asked = some b ∧ b ∈ l ∧ b.free = true ∧
        kmalloc l asked = some (l', b.payload) ∧ Served (alignUp asked 8) l l' b b' := by
  rw [handed, kmalloc]
  split_ifs with hzero
  · exact .inl ⟨rfl, rfl⟩
  rcases firstFit_eq (alignUp asked 8) l with hnone | ⟨l₁, b, l₂, hfit, heq, hfree, hle, hfirst⟩
  · exact .inl hnone
  have hmod := alignUp_eight_mod asked
  generalize alignUp asked 8 = needed at *
  have hb : b ∈ l := by simp [heq]
  have hstop := h.below b hb
  have habove := h.above b hb
  have haligned := h.aligned b hb
  have hpay := h.payload hb
  have hle' : needed.toNat ≤ b.size.toNat := hle
  have hroom : needed.toNat + 20 < 2 ^ 32 := by
    simp only [Block.stop, headerSize_toNat] at hstop
    omega
  obtain ⟨b', rest, htake, haddr, hused, henough, hcut, hrest⟩ := takeBlock_eq hroom hle
  have htiles := tiles_takeBlock hle hroom hstop
  have hpieces : ∀ c ∈ takeBlock needed b, c.addr.toNat % 4 = 0 := by
    intro c hc
    rw [htake] at hc
    rcases mem_cons.mp hc with rfl | hc
    · rw [haddr]
      exact haligned
    · have hsum : (b.payload + needed).toNat = b.addr.toNat + 12 + needed.toNat := by
        simp only [Block.stop, headerSize_toNat] at hstop
        rw [BitVec.toNat_add, hpay]
        exact Nat.mod_eq_of_lt (by omega)
      rw [(hrest c hc).2, hsum]
      omega
  refine .inr ⟨b, b', l₁ ++ (takeBlock needed b ++ l₂), hfit, hb, hfree, hfirst, ?_⟩
  refine ⟨(heq ▸ h).replace htiles le_rfl hpieces, by simp [htake], hused, haddr, henough, hcut, ?_⟩
  intro c hc
  have hne : c ≠ b := by
    rintro rfl
    rw [hc] at hfree
    cases hfree
  have hnot : c ∉ rest := by
    intro hmem
    rw [(hrest c hmem).1] at hc
    cases hc
  rw [htake, heq]
  simp only [cons_append, mem_append, mem_cons, hne, hnot, false_or]
  tauto

/-! ## Giving back -/

lemma HeapSound.mergeFrom {d : Block} (h : HeapSound (d :: l)) :
    HeapSound (Memory.mergeFrom d l) := by
  induction l generalizing d with
  | nil => exact h
  | cons c l ih =>
    obtain ⟨hfirst, hrest⟩ := pairwise_cons.mp h.sorted
    have htail : HeapSound (c :: l) :=
      ⟨hrest, fun b hb => h.above b (.tail d hb), fun b hb => h.below b (.tail d hb),
        fun b hb => h.aligned b (.tail d hb)⟩
    rw [Memory.mergeFrom]
    split_ifs with hfree
    · have hdc := hfirst c mem_cons_self
      have hstop := h.below c (by simp)
      obtain ⟨hnext, hrest⟩ := pairwise_cons.mp hrest
      have hsize : (d.size + (headerSize + c.size)).toNat =
          d.size.toNat + 12 + c.size.toNat := by
        simp only [Block.stop, Block.start, headerSize_toNat] at hdc hstop
        rw [headerSize]
        bv_omega
      have hjoined : ({ d with size := d.size + (headerSize + c.size) } : Block).stop ≤ c.stop := by
        simp only [Block.stop, Block.start, headerSize_toNat, hsize] at hdc ⊢
        omega
      refine ih ⟨pairwise_cons.mpr ⟨fun b hb => hjoined.trans (hnext b hb), hrest⟩, ?_, ?_, ?_⟩
      · rintro b hb
        rcases mem_cons.mp hb with rfl | hb
        · exact h.above d mem_cons_self
        · exact htail.above b (.tail c hb)
      · rintro b hb
        rcases mem_cons.mp hb with rfl | hb
        · exact hjoined.trans_lt hstop
        · exact htail.below b (.tail c hb)
      · rintro b hb
        rcases mem_cons.mp hb with rfl | hb
        · exact h.aligned d mem_cons_self
        · exact htail.aligned b (.tail c hb)
    · have hmerged := ih htail
      refine ⟨pairwise_cons.mpr ⟨fun b hb => ?_, hmerged.sorted⟩, ?_, ?_, ?_⟩
      · -- the first block of the rest has not moved, and the others come behind it
        obtain ⟨e, l', heq, haddr, -⟩ := head_mergeFrom c l
        have hsorted := hmerged.sorted
        rw [heq] at hb hsorted
        have hde : d.stop ≤ e.start := by
          rw [Block.start, haddr]
          exact hfirst c mem_cons_self
        rcases mem_cons.mp hb with rfl | hb
        · exact hde
        · have hle := (pairwise_cons.mp hsorted).1 b hb
          simp only [Block.start, Block.stop] at hde hle ⊢
          omega
      · exact forall_mem_cons.mpr ⟨h.above d mem_cons_self, hmerged.above⟩
      · exact forall_mem_cons.mpr ⟨h.below d mem_cons_self, hmerged.below⟩
      · exact forall_mem_cons.mpr ⟨h.aligned d mem_cons_self, hmerged.aligned⟩

lemma HeapSound.mergeBlocks (h : HeapSound l) : HeapSound (mergeBlocks l) := by
  cases l with
  | nil => exact h
  | cons d l => exact h.mergeFrom

lemma HeapSound.markFree (h : HeapSound l) (ptr : U32) : HeapSound (l.map (markFree ptr)) := by
  have haddr : ∀ b : Block, (Memory.markFree ptr b).addr = b.addr := by
    intro b
    rw [Memory.markFree]
    split_ifs <;> rfl
  refine ⟨?_, ?_, ?_, ?_⟩
  · rw [pairwise_map]
    simpa using h.sorted
  all_goals
    rintro b hb
    obtain ⟨c, hc, rfl⟩ := mem_map.mp hb
  · rw [haddr]
    exact h.above c hc
  · rw [markFree_stop]
    exact h.below c hc
  · rw [haddr]
    exact h.aligned c hc

lemma HeapSound.kfree (h : HeapSound l) (ptr : U32) : HeapSound (kfree l ptr) := by
  rw [Memory.kfree]
  split_ifs
  · exact h
  · exact (h.markFree ptr).mergeBlocks

lemma mem_kfree {ptr : U32} (hb : b ∈ l) (hused : b.free = false) (hne : b.payload ≠ ptr) :
    b ∈ kfree l ptr := by
  rw [kfree]
  split_ifs
  · exact hb
  · exact mem_mergeBlocks (mem_map.mpr ⟨b, hb, markFree_eq_self hne⟩) hused

/-! ## Stores -/

lemma hitsHeader_eq_false (hb : b.stop < 2 ^ 32) (hn : dst.toNat + n ≤ 2 ^ 32)
    (h : b.addr.toNat + 12 ≤ dst.toNat ∨ dst.toNat + n ≤ b.addr.toNat) :
    hitsHeader dst n b = false := by
  simp only [Block.stop, headerSize_toNat] at hb
  simp only [hitsHeader, List.any_eq_false, List.mem_range, headerSize_toNat, decide_eq_true_eq,
    not_lt]
  intro j hj
  have hsum : (b.addr + BitVec.ofNat 32 j).toNat = b.addr.toNat + j := by
    rw [BitVec.toNat_add, BitVec.toNat_ofNat]
    omega
  rw [BitVec.toNat_sub, hsum]
  have := dst.isLt
  omega

lemma store_inside (hs : HeapSound h.blocks) (hb : b ∈ h.blocks) (hlo : b.payload.toNat ≤ dst.toNat)
    (hhi : dst.toNat + n ≤ b.stop) (f : ℕ → U8) :
    h.store dst n f =
      some ⟨h.blocks, fun a => if (a - dst).toNat < n then f (a - dst).toNat else h.bytes a⟩ := by
  rw [HeapMemory.store, if_neg]
  rw [Bool.not_eq_true, List.any_eq_false]
  intro c hc
  have hpay := hs.payload hb
  have hstop := hs.below b hb
  rw [hitsHeader_eq_false (hs.below c hc) (by omega)]
  · simp
  · rcases hs.apart hb hc with rfl | hlt | hlt
    · omega
    · rw [Block.start] at hlt
      omega
    · simp only [Block.stop, Block.start, headerSize_toNat] at hlt
      omega

lemma store_blocks {h' : HeapMemory} {f : ℕ → U8} (hstore : h.store dst n f = some h') :
    h'.blocks = h.blocks := by
  rw [HeapMemory.store] at hstore
  split_ifs at hstore
  cases hstore
  rfl

end List

/-! ## What a request asks for -/

/-- A request for memory. -/
inductive Request where
  | kmalloc (size : U32)
  | kcalloc (count size : U32)
  | krealloc (ptr size : U32)
  | kmallocAligned (size alignment : U32)

namespace Request

/-- The bytes the caller asks for. -/
def bytes : Request → ℕ
  | .kmalloc size => size.toNat
  | .kcalloc count size => count.toNat * size.toNat
  | .krealloc _ size => size.toNat
  | .kmallocAligned size _ => size.toNat

/-- The pointer the caller gives up. -/
def given : Request → U32
  | .krealloc ptr _ => ptr
  | _ => 0

/-- What a request does. -/
def call (h : HeapMemory) : Request → Option (HeapMemory × U32)
  | .kmalloc size => some (h.kmalloc size)
  | .kcalloc count size => h.kcalloc count size
  | .krealloc ptr size => h.krealloc ptr size
  | .kmallocAligned size alignment => h.kmallocAligned size alignment

/-- A pointer for `krealloc` is null or the pointer of a block in use. -/
def Proper (l : List Block) : Request → Prop
  | .krealloc ptr _ => ptr = 0 ∨ ∃ b ∈ l, b.free = false ∧ b.payload = ptr
  | _ => True

end Request

/-- The `n` bytes from `p` on lie in one block in use that is none of those in use before, which are
all still there. -/
def OwnedBytes (l l' : List Block) (given p : U32) (n : ℕ) : Prop :=
  ∃ b ∈ l', b.free = false ∧ b.payload.toNat ≤ p.toNat ∧ p.toNat + n ≤ b.stop ∧
    ∀ c ∈ l, c.free = false → c.payload ≠ given → c ∈ l' ∧ c ≠ b

/-- The bytes of a returned pointer are the caller's, and those of the pointer given up are
preserved. -/
def Fulfilled (h : HeapMemory) (r : Request) : Prop :=
  ∃ h' p, r.call h = some (h', p) ∧ (p ≠ 0 →
    OwnedBytes h.blocks h'.blocks r.given p r.bytes ∧
    ∀ b ∈ h.blocks, b.payload = r.given → ∀ i < min b.size.toNat r.bytes,
      h'.bytes (p + BitVec.ofNat 32 i) = h.bytes (r.given + BitVec.ofNat 32 i))

/-- The largest request that can be rounded up. -/
def roundable : ℕ := 0xFFFFFFF8

/-- The size does not wrap around, or there is no block. -/
def Request.Fits (l : List Block) : Request → Prop
  | .kmalloc size => size.toNat ≤ roundable ∨ handed l size = none
  | .kcalloc count size => count.toNat * size.toNat ≤ roundable ∨ handed l (count * size) = none
  | .krealloc _ size => size.toNat ≤ roundable ∨ handed l size = none
  | .kmallocAligned size alignment =>
    if alignment ≤ 8 then size.toNat ≤ roundable ∨ handed l size = none
    else size.toNat + alignment.toNat + 4 ≤ roundable ∨
      ∀ b, handed l (size + alignment + 4) = some b → alignedFrom b.payload alignment = 0

section Calls

variable {h : HeapMemory} {l l' : List Block} {b b' : Block} {needed given p : U32} {n : ℕ}

lemma kmalloc_memory (hs : HeapSound h.blocks) (asked : U32) :
    (handed h.blocks asked = none ∧ h.kmalloc asked = (h, 0)) ∨
      ∃ b b' l', handed h.blocks asked = some b ∧ b ∈ h.blocks ∧ b.free = true ∧
        h.kmalloc asked = (⟨l', h.bytes⟩, b.payload) ∧
        Served (alignUp asked 8) h.blocks l' b b' := by
  rw [HeapMemory.kmalloc]
  rcases kmalloc_cases hs asked with ⟨hnone, hk⟩ | ⟨b, b', l', hb, hmem, hfree, hk, hserved⟩
  · exact .inl ⟨hnone, by rw [hk]⟩
  · exact .inr ⟨b, b', l', hb, hmem, hfree, by rw [hk], hserved⟩

namespace Served

lemma payload (S : Served needed l l' b b') : b'.payload = b.payload := by
  rw [Block.payload, Block.payload, S.addr]

lemma fresh (S : Served needed l l' b b') (hs : HeapSound l) (hb : b ∈ l) (hfree : b.free = true)
    {c : Block} (hc : c ∈ l) (hused : c.free = false) : c ≠ b' := by
  rintro rfl
  rw [hs.eq_of_addr hc hb S.addr, hfree] at hused
  cases hused

lemma owned (S : Served needed l l' b b') (hs : HeapSound l) (hb : b ∈ l) (hfree : b.free = true)
    (hlo : b.payload.toNat ≤ p.toNat) (hhi : p.toNat + n ≤ b'.stop) :
    OwnedBytes l l' given p n := by
  refine ⟨b', S.mem, S.used, by rw [S.payload]; exact hlo, hhi, fun c hc hused _ => ?_⟩
  exact ⟨(S.others c hused).mpr (.inr hc), S.fresh hs hb hfree hc hused⟩

lemma inside_of_owned (S : Served needed l l' b b') (hs : HeapSound l)
    (h : OwnedBytes l l' 0 p n) : b.payload.toNat ≤ p.toNat ∧ p.toNat + n ≤ b'.stop := by
  obtain ⟨c, hc, hused, hlo, hhi, hothers⟩ := h
  rcases (S.others c hused).mp hc with rfl | hold
  · exact ⟨S.payload ▸ hlo, hhi⟩
  · exact absurd rfl (hothers c hold hused (hs.payload_ne_zero hold)).2

lemma stop_eq (S : Served needed l l' b b') (hs : HeapSound l) (hb : b ∈ l) :
    b'.stop = b.payload.toNat + b'.size.toNat := by
  rw [Block.stop, S.addr, hs.payload hb, headerSize_toNat]

end Served

lemma not_owned_of_large (hs : HeapSound l') (hn : roundable < n) :
    ¬ OwnedBytes l l' given p n := by
  rintro ⟨b, hb, -, hlo, hhi, -⟩
  have hpay := hs.payload hb
  have habove := hs.above b hb
  have hbelow := hs.below b hb
  rw [roundable] at hn
  omega

lemma preserved_of_null (hs : HeapSound l) {P : Block → ℕ → Prop} :
    ∀ b ∈ l, b.payload = 0 → ∀ i < min b.size.toNat n, P b i :=
  fun _ hb h0 => absurd h0 (hs.payload_ne_zero hb)

lemma fulfilled_kmalloc_iff (hs : HeapSound h.blocks) (size : U32) :
    Fulfilled h (.kmalloc size) ↔ Request.Fits h.blocks (.kmalloc size) := by
  rw [Fulfilled, Request.Fits, Request.call]
  rcases kmalloc_memory hs size with ⟨hnone, hk⟩ | ⟨b, b', l', hsome, hb, hfree, hk, S⟩
  · rw [hk]
    exact iff_of_true ⟨h, 0, rfl, fun h0 => absurd rfl h0⟩ (.inr hnone)
  · have hp := hs.payload_ne_zero hb
    have hstop := S.stop_eq hs hb
    have henough := S.enough
    rw [hk, hsome]
    constructor
    · rintro ⟨h', p, heq, himp⟩
      cases heq
      by_contra hlarge
      simp only [reduceCtorEq, or_false, not_le] at hlarge
      exact not_owned_of_large S.sound hlarge (himp hp).1
    · rintro (hsize | hnone)
      · have hround := le_alignUp_eight hsize
        refine ⟨_, _, rfl, fun _ => ⟨S.owned hs hb hfree le_rfl ?_, preserved_of_null hs⟩⟩
        rw [hstop, Request.bytes]
        omega
      · cases hnone

lemma fulfilled_kcalloc_iff (hs : HeapSound h.blocks) (count size : U32) :
    Fulfilled h (.kcalloc count size) ↔ Request.Fits h.blocks (.kcalloc count size) := by
  rw [Fulfilled, Request.Fits, Request.call, HeapMemory.kcalloc]
  rcases kmalloc_memory hs (count * size) with ⟨hnone, hk⟩ | ⟨b, b', l', hsome, hb, hfree, hk, S⟩
  · simp only [hk, if_true]
    exact iff_of_true ⟨h, 0, rfl, fun h0 => absurd rfl h0⟩ (.inr hnone)
  · have hp := hs.payload_ne_zero hb
    have hstop := S.stop_eq hs hb
    have henough := S.enough
    simp only [hk, if_neg hp]
    rw [hsome]
    constructor
    · rintro ⟨h', p, heq, himp⟩
      obtain ⟨h₁, hstore, heq⟩ := map_eq_some_iff.mp heq
      cases heq
      by_contra hlarge
      simp only [reduceCtorEq, or_false, not_le] at hlarge
      have hblocks : h'.blocks = l' := store_blocks hstore
      exact not_owned_of_large (hblocks ▸ S.sound) hlarge (himp hp).1
    · rintro (hsize | hnone)
      · have htotal : (count * size).toNat = count.toNat * size.toNat := by
          rw [BitVec.toNat_mul]
          exact Nat.mod_eq_of_lt (hsize.trans_lt (by decide))
        have hround := le_alignUp_eight (show (count * size).toNat ≤ _ by rw [htotal]; exact hsize)
        have hend : b.payload.toNat + count.toNat * size.toNat ≤ b'.stop := by omega
        have hlo : b'.payload.toNat ≤ b.payload.toNat := by rw [S.payload]
        rw [store_inside (h := ⟨l', h.bytes⟩) S.sound S.mem hlo (by rw [htotal]; exact hend)]
        exact ⟨_, _, rfl, fun _ => ⟨S.owned hs hb hfree le_rfl hend, preserved_of_null hs⟩⟩
      · cases hnone

/-! ### `kmalloc_aligned` -/

lemma alignedFrom_bounds (raw : U32) {alignment : U32} (h8 : ¬ alignment ≤ 8)
    (h : raw.toNat + alignment.toNat + 3 < 2 ^ 32) :
    raw.toNat + 4 ≤ (alignedFrom raw alignment).toNat ∧
      (alignedFrom raw alignment).toNat ≤ raw.toNat + alignment.toNat + 3 := by
  have hsum : (raw + 4 + alignment - 1).toNat = raw.toNat + alignment.toNat + 3 := by bv_omega
  have hpos : 8 < alignment.toNat := BitVec.not_le.mp h8
  have hmask : (alignment - 1).toNat = alignment.toNat - 1 := by bv_omega
  have hbounds := and_not_bounds (raw + 4 + alignment - 1) (alignment - 1)
  rw [hsum, hmask] at hbounds
  rw [alignedFrom]
  omega

lemma alignedFrom_low (raw : U32) {alignment : U32} (h : 2 ^ 32 - 31 ≤ alignment.toNat) :
    (alignedFrom raw alignment).toNat ≤ 31 := by
  have hmask : (~~~(alignment - 1)).toNat ≤ 31 := by
    rw [BitVec.toNat_not]
    bv_omega
  rw [alignedFrom, BitVec.toNat_and]
  exact Nat.and_le_right.trans hmask

/-- Where the size with its slack wraps around, the bytes asked for do not lie in the block. -/
lemma not_inside_of_wrap (hs : HeapSound h.blocks) (hb : b ∈ h.blocks) {size alignment : U32}
    (hlarge : roundable < size.toNat + alignment.toNat + 4)
    (S : Served (alignUp (size + alignment + 4) 8) h.blocks l' b b')
    (hlo : b.payload.toNat ≤ (alignedFrom b.payload alignment).toNat)
    (hhi : (alignedFrom b.payload alignment).toNat + size.toNat ≤ b'.stop) : False := by
  have hstop := S.stop_eq hs hb
  have hpay := hs.payload hb
  have habove := hs.above b hb
  have hcut := S.cut
  have hasked : (size + alignment + 4).toNat =
      (size.toNat + alignment.toNat + 4) % 2 ^ 32 := by bv_omega
  have hsize := size.isLt
  have hal := alignment.isLt
  rw [roundable] at hlarge
  -- the block is hardly larger than what is left of the sum
  have hsmall : (alignUp (size + alignment + 4) 8).toNat + 2 ^ 32 ≤
      size.toNat + alignment.toNat + 11 := by
    by_cases hwrap : 0xFFFFFFF8 < (size + alignment + 4).toNat
    · rw [alignUp_eight_wraps hwrap]
      omega
    · have := alignUp_eight_le (size + alignment + 4)
      omega
  have hlow := alignedFrom_low b.payload (show 2 ^ 32 - 31 ≤ alignment.toNat by omega)
  omega

/-- The word before the null address is the last one of the address space, where no header lies. -/
lemma store_last_word {bytes : U32 → U8} (hs : HeapSound l) (f : ℕ → U8) :
    (⟨l, bytes⟩ : HeapMemory).store (0 - 4) 4 f =
      some ⟨l, fun a => if (a - (0 - 4)).toNat < 4 then f (a - (0 - 4)).toNat else bytes a⟩ := by
  rw [HeapMemory.store, if_neg]
  rw [Bool.not_eq_true, List.any_eq_false]
  intro c hc
  have hstop := hs.below c hc
  have haligned := hs.aligned c hc
  simp only [Block.stop, headerSize_toNat] at hstop
  rw [hitsHeader_eq_false (hs.below c hc) (by decide) (.inl _)]
  · simp
  · change c.addr.toNat + 12 ≤ 0xFFFFFFFC
    omega

lemma fulfilled_kmallocAligned_iff (hs : HeapSound h.blocks) (size alignment : U32) :
    Fulfilled h (.kmallocAligned size alignment) ↔
      Request.Fits h.blocks (.kmallocAligned size alignment) := by
  by_cases h8 : alignment ≤ 8
  · -- the request is passed on
    have hcall : Request.call h (.kmallocAligned size alignment) = some (h.kmalloc size) := by
      rw [Request.call, HeapMemory.kmallocAligned, if_pos h8]
    have hfits : Request.Fits h.blocks (.kmallocAligned size alignment) ↔
        Request.Fits h.blocks (.kmalloc size) := by
      simp only [Request.Fits, if_pos h8]
    rw [hfits, ← fulfilled_kmalloc_iff hs size, Fulfilled, Fulfilled, hcall]
    rfl
  rw [Fulfilled, Request.Fits, Request.call, HeapMemory.kmallocAligned, if_neg h8, if_neg h8]
  rcases kmalloc_memory hs (size + alignment + 4) with
    ⟨hnone, hk⟩ | ⟨b, b', l', hsome, hb, hfree, hk, S⟩
  · simp only [hk, if_true]
    refine iff_of_true ⟨h, 0, rfl, fun h0 => absurd rfl h0⟩ (.inr fun b hb => ?_)
    rw [hnone] at hb
    cases hb
  have hp := hs.payload_ne_zero hb
  simp only [hk, if_neg hp, hsome, some.injEq, forall_eq']
  constructor
  · rintro ⟨h', p, heq, himp⟩
    obtain ⟨h₁, hstore, heq⟩ := map_eq_some_iff.mp heq
    cases heq
    by_contra hbad
    simp only [not_or, not_le] at hbad
    have hblocks : h'.blocks = l' := store_blocks hstore
    have howned := (himp hbad.2).1
    rw [hblocks] at howned
    obtain ⟨hlo, hhi⟩ := S.inside_of_owned hs howned
    exact not_inside_of_wrap hs hb hbad.1 S hlo hhi
  · have hstop := S.stop_eq hs hb
    have henough := S.enough
    have hbelow := S.sound.below b' S.mem
    rintro (hsize | hzero)
    · have hasked : (size + alignment + 4).toNat = size.toNat + alignment.toNat + 4 := by
        rw [roundable] at hsize
        bv_omega
      have hround :=
        le_alignUp_eight (show (size + alignment + 4).toNat ≤ _ by rw [hasked]; exact hsize)
      obtain ⟨hlo, hhi⟩ := alignedFrom_bounds b.payload h8 (by omega)
      generalize alignedFrom b.payload alignment = p at hlo hhi
      have hsub : (p - 4).toNat = p.toNat - 4 := by bv_omega
      rw [store_inside (h := ⟨l', h.bytes⟩) S.sound S.mem (by rw [S.payload]; omega)
        (by omega : (p - 4).toNat + 4 ≤ b'.stop)]
      refine ⟨_, _, rfl, fun _ => ⟨S.owned hs hb hfree (by omega) ?_, preserved_of_null hs⟩⟩
      rw [Request.bytes]
      omega
    · rw [hzero, store_last_word S.sound]
      exact ⟨_, 0, rfl, fun h0 => absurd rfl h0⟩

/-! ### `krealloc` -/

lemma find_header (hs : HeapSound l) (hb : b ∈ l) :
    (l.find? fun c => c.addr = b.payload - headerSize) = some b := by
  have haddr : b.payload - headerSize = b.addr := by
    rw [Block.payload]
    bv_omega
  rw [haddr]
  cases hfind : l.find? fun c => c.addr = b.addr with
  | none =>
    have := find?_eq_none.mp hfind b hb
    simp at this
  | some c =>
    have hc : c.addr = b.addr := by simpa using find?_some hfind
    rw [hs.eq_of_addr (mem_of_find?_eq_some hfind) hb hc]

lemma kfree_memory (hb : b ∈ h.blocks) (hne : b.payload ≠ 0) :
    h.kfree b.payload = some ⟨Memory.kfree h.blocks b.payload, h.bytes⟩ := by
  have haddr : b.addr = b.payload - headerSize := by
    rw [Block.payload]
    bv_omega
  rw [HeapMemory.kfree, if_neg hne, if_pos ⟨b, hb, haddr⟩]

lemma fulfilled_krealloc_iff (hs : HeapSound h.blocks) {ptr size : U32}
    (hproper : Request.Proper h.blocks (.krealloc ptr size)) :
    Fulfilled h (.krealloc ptr size) ↔ Request.Fits h.blocks (.krealloc ptr size) := by
  rcases hproper with rfl | ⟨block, hblock, hused, rfl⟩
  · -- the null pointer
    have hcall : Request.call h (.krealloc 0 size) = some (h.kmalloc size) := by
      rw [Request.call, HeapMemory.krealloc, if_pos rfl]
    have hfits : Request.Fits h.blocks (.krealloc 0 size) ↔
        Request.Fits h.blocks (.kmalloc size) := Iff.rfl
    rw [hfits, ← fulfilled_kmalloc_iff hs size, Fulfilled, Fulfilled, hcall]
    rfl
  have hne := hs.payload_ne_zero hblock
  have habove := hs.above block hblock
  have hbelow := hs.below block hblock
  have hpay := hs.payload hblock
  have hstop : block.stop = block.payload.toNat + block.size.toNat := by
    rw [hpay, Block.stop, headerSize_toNat]
  -- the pointer given up is that of `block` only
  have honly : ∀ c ∈ h.blocks, c.payload = block.payload → c = block := fun c hc hcb =>
    hs.eq_of_addr hc hblock (payload_inj hcb)
  rw [Fulfilled, Request.Fits, Request.call, HeapMemory.krealloc, if_neg hne]
  by_cases hzero : size = 0
  · rw [if_pos hzero, kfree_memory hblock hne]
    refine iff_of_true ⟨_, 0, rfl, fun h0 => absurd rfl h0⟩ (.inl ?_)
    rw [hzero]
    exact Nat.zero_le _
  rw [if_neg hzero, find_header hs hblock]
  by_cases hfits : size ≤ block.size
  · -- the old block is large enough
    simp only [if_pos hfits]
    have hle : size.toNat ≤ block.size.toNat := hfits
    refine iff_of_true ⟨h, block.payload, rfl, fun _ => ⟨?_, fun b hb hbp i _ => rfl⟩⟩ (.inl ?_)
    · refine ⟨block, hblock, hused, le_rfl, by rw [hstop, Request.bytes]; omega, ?_⟩
      intro c hc hcused hcne
      exact ⟨hc, fun heq => hcne (by rw [heq]; rfl)⟩
    · rw [roundable]
      omega
  have hgrow : block.size.toNat < size.toNat := BitVec.not_le.mp hfits
  simp only [if_neg hfits]
  rcases kmalloc_memory hs size with ⟨hnone, hk⟩ | ⟨b, b', l', hsome, hb, hfree, hk, S⟩
  · simp only [hk, if_true]
    exact iff_of_true ⟨h, 0, rfl, fun h0 => absurd rfl h0⟩ (.inr hnone)
  have hp := hs.payload_ne_zero hb
  have hblock' : block ∈ l' := (S.others block hused).mpr (.inr hblock)
  simp only [hk, if_neg hp, hsome]
  constructor
  · rintro ⟨h', p, heq, himp⟩
    split at heq
    · cases heq
    · rename_i h₁ hstore
      have hblocks : h₁.blocks = l' := store_blocks hstore
      rw [kfree_memory (hblocks ▸ hblock') hne, hblocks] at heq
      cases heq
      by_contra hlarge
      simp only [reduceCtorEq, or_false, not_le] at hlarge
      exact not_owned_of_large (S.sound.kfree block.payload) hlarge (himp hp).1
  · rintro (hsize | hnone)
    · have hround := le_alignUp_eight hsize
      have henough := S.enough
      have hstop' := S.stop_eq hs hb
      have hlo : b'.payload.toNat ≤ b.payload.toNat := by rw [S.payload]
      rw [store_inside (h := ⟨l', h.bytes⟩) S.sound S.mem hlo (by omega)]
      have hnew : b' ≠ block := (S.fresh hs hb hfree hblock hused).symm
      have hnewpay : b'.payload ≠ block.payload := fun heq =>
        hnew (S.sound.eq_of_addr S.mem hblock' (payload_inj heq))
      refine ⟨_, b.payload, by dsimp only; rw [kfree_memory hblock' hne]; rfl, fun _ => ⟨?_, ?_⟩⟩
      · refine ⟨b', mem_kfree S.mem S.used hnewpay, S.used, hlo, ?_, ?_⟩
        · rw [hstop', Request.bytes]
          omega
        · intro c hc hcused hcne
          exact ⟨mem_kfree ((S.others c hcused).mpr (.inr hc)) hcused hcne,
            S.fresh hs hb hfree hc hcused⟩
      · intro c hc hcp i hi
        rw [honly c hc hcp] at hi
        have hi' : i < block.size.toNat := (lt_min_iff.mp hi).1
        have hsub : (b.payload + BitVec.ofNat 32 i - b.payload).toNat = i := by
          have hlt : i < 2 ^ 32 := hi'.trans block.size.isLt
          rw [BitVec.toNat_sub, BitVec.toNat_add, BitVec.toNat_ofNat]
          omega
        simp only [hsub, if_pos hi']
        rfl
    · cases hnone

end Calls

/-- **The size contract.**  A request gets at least the bytes it asks for, in one block of its
own and with the old contents, if and only if its size does not wrap around or no pointer is
returned. -/
theorem fulfilled_iff (h : HeapMemory) (r : Request) (hs : HeapSound h.blocks)
    (hr : r.Proper h.blocks) : Fulfilled h r ↔ r.Fits h.blocks := by
  cases r with
  | kmalloc size => exact fulfilled_kmalloc_iff hs size
  | kcalloc count size => exact fulfilled_kcalloc_iff hs count size
  | krealloc ptr size => exact fulfilled_krealloc_iff hs hr
  | kmallocAligned size alignment => exact fulfilled_kmallocAligned_iff hs size alignment

/-! ## Reachable heaps -/

/-- A call of one of the heap's users. -/
inductive HeapUse where
  | request (r : Request)
  | kfree (ptr : U32)

/-- A request, or a `kfree`. -/
def HeapMemory.step (h : HeapMemory) : HeapUse → Option HeapMemory
  | .request r => (r.call h).map Prod.fst
  | .kfree ptr => h.kfree ptr

section Reachable

variable {h h' : HeapMemory}
variable {mbi : Multiboot} {kernelEnd : U32} {heap : Heap}

lemma HeapSound.kmalloc_memory (hs : HeapSound h.blocks) (asked : U32) :
    HeapSound (h.kmalloc asked).1.blocks := by
  rcases Memory.kmalloc_memory hs asked with ⟨-, hk⟩ | ⟨b, b', l', -, -, -, hk, S⟩
  · rw [hk]
    exact hs
  · rw [hk]
    exact S.sound

lemma HeapSound.store (hs : HeapSound h.blocks) {dst : U32} {n : ℕ} {f : ℕ → U8}
    (hstore : h.store dst n f = some h') : HeapSound h'.blocks := by
  rw [store_blocks hstore]
  exact hs

lemma HeapSound.kfree_memory (hs : HeapSound h.blocks) {ptr : U32} (hk : h.kfree ptr = some h') :
    HeapSound h'.blocks := by
  rw [HeapMemory.kfree] at hk
  split_ifs at hk
  · cases hk
    exact hs
  · cases hk
    exact hs.kfree ptr
  · obtain ⟨h₁, hstore, rfl⟩ := map_eq_some_iff.mp hk
    exact (hs.store hstore).mergeBlocks

lemma HeapSound.step (hs : HeapSound h.blocks) {u : HeapUse} (hstep : h.step u = some h') :
    HeapSound h'.blocks := by
  cases u with
  | kfree ptr => exact hs.kfree_memory hstep
  | request r =>
    obtain ⟨⟨h₁, p⟩, hcall, rfl⟩ := map_eq_some_iff.mp hstep
    -- the result is that of `kmalloc`, as it is or after a store
    have hplain : ∀ {asked}, some (h.kmalloc asked) = some (h₁, p) → HeapSound h₁.blocks := by
      intro asked heq
      have hsound := hs.kmalloc_memory asked
      rw [Option.some.inj heq] at hsound
      exact hsound
    cases r with
    | kmalloc size => exact hplain hcall
    | kcalloc count size =>
      simp only [Request.call, HeapMemory.kcalloc] at hcall
      split_ifs at hcall
      · exact hplain hcall
      · obtain ⟨h₂, hstore, heq⟩ := map_eq_some_iff.mp hcall
        cases heq
        exact (hs.kmalloc_memory _).store hstore
    | kmallocAligned size alignment =>
      simp only [Request.call, HeapMemory.kmallocAligned] at hcall
      split_ifs at hcall
      · exact hplain hcall
      · exact hplain hcall
      · obtain ⟨h₂, hstore, heq⟩ := map_eq_some_iff.mp hcall
        cases heq
        exact (hs.kmalloc_memory _).store hstore
    | krealloc ptr size =>
      rw [Request.call, HeapMemory.krealloc] at hcall
      split_ifs at hcall
      · exact hplain hcall
      · obtain ⟨h₂, hfree, heq⟩ := map_eq_some_iff.mp hcall
        cases heq
        exact hs.kfree_memory hfree
      · cases hfind : h.blocks.find? fun b => b.addr = ptr - headerSize with
        | none =>
          rw [hfind] at hcall
          cases hcall
        | some block =>
          simp only [hfind] at hcall
          split_ifs at hcall
          · cases hcall
            exact hs
          · exact hplain hcall
          · split at hcall
            · cases hcall
            · rename_i h₂ hstore
              obtain ⟨h₃, hfree, heq⟩ := map_eq_some_iff.mp hcall
              cases heq
              exact ((hs.kmalloc_memory _).store hstore).kfree_memory hfree

lemma alignUp_sixteen_mod (v : U32) : (alignUp v 16).toNat % 4 = 0 := by
  rw [alignUp, and_mask_toNat _ mask_sixteen]
  omega

lemma sound_memoryInit (hinit : memoryInit mbi kernelEnd = some heap) (hreg : Regular mbi kernelEnd)
    (hkernel : 0x100000 ≤ kernelEnd.toNat) : HeapSound heap.blocks := by
  have hinv := heapInv_start hinit
  have hk : kernelEnd.toNat ≤ (mbi.modsEnd kernelEnd).toNat :=
    (modsEnd_fold mbi.bootModules kernelEnd).1
  have hround := le_alignUp_sixteen hk hreg.modsEnd_le
  refine ⟨hinv.sorted hreg.heap1End_le, ?_, fun b hb => hinv.stop_lt hb, ?_⟩
  all_goals
    simp only [memoryInit, heapRegions] at hinit
    split_ifs at hinit <;> cases hinit <;>
      simp only [mem_cons, not_mem_nil, or_false, forall_eq_or_imp, forall_eq,
        regionBlock, alignUp_sixteen_mod, and_self]
  all_goals omega

/-- **Reachable heaps are sound.** -/
theorem sound_of_run {bytes : U32 → U8} {uses : List HeapUse}
    (hinit : memoryInit mbi kernelEnd = some heap) (hreg : Regular mbi kernelEnd)
    (hkernel : 0x100000 ≤ kernelEnd.toNat)
    (hrun : run HeapMemory.step ⟨heap.blocks, bytes⟩ uses = some h) : HeapSound h.blocks := by
  have hstart : HeapSound (⟨heap.blocks, bytes⟩ : HeapMemory).blocks :=
    sound_memoryInit hinit hreg hkernel
  exact run_invariant (P := fun h => HeapSound h.blocks) (fun hs hstep => hs.step hstep) hstart hrun

theorem sound_of_run_initrdBoot :
    ∃ h, run HeapMemory.step ⟨initrdHeap.blocks, fun _ => 7⟩
      [.request (.kcalloc 2 8), .kfree 0x20000C] = some h ∧ HeapSound h.blocks :=
  Exists.imp (fun _ hrun => ⟨hrun,
    sound_of_run memoryInit_initrdBoot regular_initrdBoot (by decide) hrun⟩) ⟨_, rfl⟩

end Reachable

/-! ## A small heap -/

/-- A block of 16 bytes in use and a free block of 64 KiB. -/
def twoBlocks : HeapMemory where
  blocks := [⟨0x200000, 16, false⟩, ⟨0x20001C, 0x10000, true⟩]
  bytes := fun _ => 0

lemma sound_twoBlocks : HeapSound twoBlocks.blocks := by
  refine ⟨?_, ?_, ?_, ?_⟩ <;> simp [twoBlocks, Block.stop, Block.start, headerSize]

/-- The block in use is moved to a larger one. -/
theorem krealloc_fulfilled_twoBlocks : Fulfilled twoBlocks (.krealloc 0x20000C 40) :=
  (fulfilled_iff twoBlocks (.krealloc 0x20000C 40) sound_twoBlocks
    (.inr ⟨⟨0x200000, 16, false⟩, by simp [twoBlocks], rfl, rfl⟩)).mpr (.inl (by decide))

/-- `kmalloc` rounds a size close to the largest word up to 0, and `kcalloc` forgets the part of the
product above 32 bits. -/
theorem requests_not_fulfilled_twoBlocks :
    (twoBlocks.kmalloc 0xFFFFFFFF).2 = 0x200028 ∧
      (twoBlocks.kmalloc 0xFFFFFFFF).1.blocks =
        [⟨0x200000, 16, false⟩, ⟨0x20001C, 0, false⟩, ⟨0x200028, 0xFFF4, true⟩] ∧
      ¬ Fulfilled twoBlocks (.kmalloc 0xFFFFFFFF) ∧
      (twoBlocks.kcalloc 0x10001 0x10000).map Prod.snd = some 0x200028 ∧
      ¬ Fulfilled twoBlocks (.kcalloc 0x10001 0x10000) := by
  refine ⟨by decide, by decide, ?_, by decide, ?_⟩
  · rw [fulfilled_kmalloc_iff sound_twoBlocks]
    rintro (hsize | hnone)
    · exact absurd hsize (by decide)
    · exact absurd hnone (by decide)
  · rw [fulfilled_kcalloc_iff sound_twoBlocks]
    rintro (hsize | hnone)
    · exact absurd hsize (by decide)
    · exact absurd hnone (by decide)

end OpenHobbyOS.Memory
