/-
# SHA-1 of a message in pieces

`sha1_begin`, `sha1_hash` and `sha1_end` of `ports/libsha1/libsha1.c` against the hash function of
FIPS 180-4, whose messages are strings of bits.
-/
import OpenHobbyOS.Lib.Blocks
import OpenHobbyOS.Sha1.Compress

namespace OpenHobbyOS.Sha1

open Lib BitVec List Nat

/-! ## The source -/

/-- `sha1_ctx`.  Of the array `buffer` only the first `buffer_len` bytes are ever read. -/
structure Ctx where
  state : Words
  totalLen : BitVec 64
  buffer : List U8
  buffer_lt : buffer.length < 64

/-- `sha1_store_be32`. -/
def sha1StoreBe32 (value : U32) : List U8 :=
  [(value >>> 24).setWidth 8, (value >>> 16).setWidth 8, (value >>> 8).setWidth 8,
    value.setWidth 8]

/-- `sha1_store_be64`. -/
def sha1StoreBe64 (value : BitVec 64) : List U8 :=
  [(value >>> 56).setWidth 8, (value >>> 48).setWidth 8, (value >>> 40).setWidth 8,
    (value >>> 32).setWidth 8, (value >>> 24).setWidth 8, (value >>> 16).setWidth 8,
    (value >>> 8).setWidth 8, value.setWidth 8]

/-- `sha1_begin`. -/
def sha1Begin : Ctx where
  state := ⟨0x67452301, 0xEFCDAB89, 0x98BADCFE, 0x10325476, 0xC3D2E1F0⟩
  totalLen := 0
  buffer := []
  buffer_lt := zero_lt_succ 63

/-- The first part of `sha1_hash`: state, buffer and the bytes not yet used. -/
def fill (ctx : Ctx) (data : List U8) : Words × List U8 × List U8 :=
  if ctx.buffer.length ≠ 0 then
    let needed := min (64 - ctx.buffer.length) data.length
    let buffer := ctx.buffer ++ data.take needed
    if buffer.length = 64 then (sha1Transform ctx.state buffer, [], data.drop needed)
    else (ctx.state, buffer, data.drop needed)
  else (ctx.state, ctx.buffer, data)

/-- What the first part does: no block is lost, and bytes are left over only when the buffer
is empty. -/
lemma fill_spec (ctx : Ctx) (data : List U8) :
    (fill ctx data).2.1.length < 64 ∧
      ((fill ctx data).2.1 = [] ∨ (fill ctx data).2.2 = []) ∧
      blocks sha1Transform 64 ctx.state (ctx.buffer ++ data) =
        blocks sha1Transform 64 (fill ctx data).1 ((fill ctx data).2.1 ++ (fill ctx data).2.2) := by
  have hlt := ctx.buffer_lt
  have hsplit : ctx.buffer ++ data = (ctx.buffer ++ data.take
      (min (64 - ctx.buffer.length) data.length)) ++
      data.drop (min (64 - ctx.buffer.length) data.length) := by
    rw [List.append_assoc, List.take_append_drop]
  have hlen : (ctx.buffer ++ data.take (min (64 - ctx.buffer.length) data.length)).length =
      ctx.buffer.length + min (64 - ctx.buffer.length) data.length := by
    rw [length_append, length_take]
    omega
  by_cases hne : ctx.buffer.length = 0
  · rw [fill, if_neg (not_not.mpr hne)]
    exact ⟨hlt, Or.inl (length_eq_zero_iff.mp hne), rfl⟩
  rw [fill, if_pos hne]
  dsimp only
  split_ifs with hfull
  · refine ⟨zero_lt_succ 63, Or.inl rfl, ?_⟩
    rw [hsplit, blocks_append (by decide), blocks_block (by decide) hfull]
  · refine ⟨lt_of_le_of_ne (hlen.trans_le (by omega)) hfull,
      Or.inr (drop_of_length_le (by omega)), ?_⟩
    rw [← hsplit]

/-- `sha1_hash`. -/
def sha1Hash (data : List U8) (ctx : Ctx) : Ctx :=
  let filled := fill ctx data
  let done := blocks sha1Transform 64 filled.1 filled.2.2
  { state := done.1
    totalLen := ctx.totalLen + BitVec.ofNat 64 data.length
    buffer := if done.2.length ≠ 0 then done.2 else filled.2.1
    buffer_lt := by
      split_ifs
      · rw [length_blocks (zero_lt_succ 63)]
        exact mod_lt _ (zero_lt_succ 63)
      · exact (fill_spec ctx data).1 }

/-- The digest that `sha1_end` writes; the context is cleared after it. -/
def sha1End (ctx : Ctx) : List U8 :=
  let bitLen := ctx.totalLen * 8
  let tail := ctx.buffer ++ [0x80]
  let long : Words × List U8 :=
    if 56 < tail.length then
      (sha1Transform ctx.state (tail ++ List.replicate (64 - tail.length) 0), [])
    else (ctx.state, tail)
  let state := sha1Transform long.1
    (long.2 ++ List.replicate (56 - long.2.length) 0 ++ sha1StoreBe64 bitLen)
  sha1StoreBe32 state.a ++ sha1StoreBe32 state.b ++ sha1StoreBe32 state.c ++
    sha1StoreBe32 state.d ++ sha1StoreBe32 state.e

/-! ## The standard -/

namespace Fips

/-- A message: fewer than `2 ^ 64` bits. -/
structure Message where
  bits : List Bool
  short : bits.length < 2 ^ 64

/-- The bits of a word, the most significant one first. -/
def wordBits {w : ℕ} (x : BitVec w) : List Bool := (range w).map x.getMsbD

/-- The number of zero bits in the padding of a message of `l` bits. -/
def zeros (l : ℕ) : ℕ := (959 - l % 512) % 512

/-- The padded message. -/
def pad (M : Message) : List Bool :=
  M.bits ++ [true] ++ replicate (zeros M.bits.length) false ++
    wordBits (BitVec.ofNatLT M.bits.length M.short)

/-- Word `j` of block `i` of the padded message. -/
def word (P : List Bool) (i j : ℕ) : U32 :=
  (BitVec.ofBoolListBE ((P.drop (512 * i + 32 * j)).take 32)).setWidth 32

/-- Section 5.3.1. -/
def initial : Words := ⟨0x67452301, 0xefcdab89, 0x98badcfe, 0x10325476, 0xc3d2e1f0⟩

/-- The hash value after all blocks. -/
def hashValue (P : List Bool) : Words :=
  (range (P.length / 512)).foldl (fun H i => compress H (word P i)) initial

/-- The digest of a message, as a string of 160 bits. -/
def sha1 (M : Message) : List Bool :=
  let H := hashValue (pad M)
  wordBits H.a ++ wordBits H.b ++ wordBits H.c ++ wordBits H.d ++ wordBits H.e

end Fips

open Fips (wordBits zeros)

variable {i r w : ℕ} {m : List U8} {ctx : Ctx}

/-- The bits of a string of bytes. -/
def bits (m : List U8) : List Bool := m.flatMap wordBits

/-! ## Bits and bytes -/

@[simp] lemma length_wordBits (x : BitVec w) : (wordBits x).length = w := by
  simp [wordBits]

lemma bits_cons (b : U8) (m : List U8) : bits (b :: m) = wordBits b ++ bits m := rfl

@[simp] lemma bits_append (m n : List U8) : bits (m ++ n) = bits m ++ bits n :=
  flatMap_append

@[simp] lemma length_bits (m : List U8) : (bits m).length = 8 * m.length := by
  induction m with
  | nil => rfl
  | cons b m ih =>
    rw [bits_cons, length_append, ih, length_wordBits, length_cons]
    omega

lemma getD_wordBits (x : BitVec w) (hr : r < w) :
    (wordBits x).getD r false = x.getMsbD r := by
  simp [wordBits, getD_eq_getElem?_getD, hr]

lemma getD_bits (m : List U8) (q : ℕ) (hr : r < 8) :
    (bits m).getD (8 * q + r) false = (m.getD q 0).getMsbD r := by
  induction m generalizing q with
  | nil => simp [bits]
  | cons b m ih =>
    rw [bits_cons]
    cases q with
    | zero =>
      rw [getD_append _ _ _ _ (by rw [length_wordBits]; omega), Nat.mul_zero, Nat.zero_add,
        getD_wordBits b hr, getD_cons_zero]
    | succ q =>
      rw [getD_append_right _ _ _ _ (by rw [length_wordBits]; omega), length_wordBits,
        show 8 * (q + 1) + r - 8 = 8 * q + r by omega, ih, getD_cons_succ]

lemma bits_zeros (n : ℕ) : bits (replicate n 0) = replicate (8 * n) false := by
  induction n with
  | zero => rfl
  | succ n ih =>
    rw [List.replicate_succ, bits_cons, ih, Nat.mul_succ, Nat.add_comm, List.replicate_add]
    rfl

lemma bits_sha1StoreBe32 (x : U32) : bits (sha1StoreBe32 x) = wordBits x := by
  simp only [sha1StoreBe32, bits, wordBits, flatMap_cons, flatMap_nil, range,
    List.range.loop, List.map_cons, List.map_nil, List.cons_append, List.nil_append]
  simp [getMsbD_eq_getLsbD]

lemma bits_sha1StoreBe64 (x : BitVec 64) : bits (sha1StoreBe64 x) = wordBits x := by
  simp only [sha1StoreBe64, bits, wordBits, flatMap_cons, flatMap_nil, range,
    List.range.loop, List.map_cons, List.map_nil, List.cons_append, List.nil_append]
  simp [getMsbD_eq_getLsbD]

lemma getD_block (m : List U8) (i : ℕ) {q : ℕ} (hq : q < 64) :
    ((m.drop (64 * i)).take 64).getD q 0 = m.getD (64 * i + q) 0 := by
  simp [getD_eq_getElem?_getD, hq]

lemma getElem_word {P : List Bool} {j : ℕ} (h : 512 * i + 32 * j + 32 ≤ P.length) {b : ℕ}
    (hb : b < 32) :
    (Fips.word P i j)[b] = P.getD (512 * i + 32 * j + (31 - b)) false := by
  have hlen : ((P.drop (512 * i + 32 * j)).take 32).length = 32 := by
    rw [length_take, length_drop]
    omega
  rw [Fips.word, getElem_setWidth, getLsbD_eq_getMsbD,
    getMsbD_ofBoolListBE, hlen, decide_eq_true hb, Bool.true_and]
  simp [getD_eq_getElem?_getD, show 31 - b < 32 by omega]

lemma sha1LoadBe32_eq {t : ℕ} (hi : 64 * i + 64 ≤ m.length) (ht : t < 16) :
    sha1LoadBe32 ((m.drop (64 * i)).take 64) (t * 4) = Fips.word (bits m) i t := by
  ext b hb
  rw [sha1LoadBe32, getElem_word (by rw [length_bits]; omega) hb, getD_block _ _ (by omega),
    getD_block _ _ (by omega), getD_block _ _ (by omega), getD_block _ _ (by omega)]
  -- bit `b` lies in byte `(31 - b) / 8` of the word
  have hbit : ∀ q, q < 4 → 24 - 8 * q ≤ b → b < 32 - 8 * q →
      (bits m).getD (512 * i + 32 * t + (31 - b)) false =
        (m.getD (64 * i + (t * 4 + q)) 0).getLsbD (b - (24 - 8 * q)) := by
    intro q hq hle hlt
    rw [show 512 * i + 32 * t + (31 - b) = 8 * (64 * i + (t * 4 + q)) + (31 - b - 8 * q) by omega,
      getD_bits m _ (by omega), getMsbD_eq_getLsbD,
      show 8 - 1 - (31 - b - 8 * q) = b - (24 - 8 * q) by omega,
      decide_eq_true (by omega), Bool.true_and]
  simp only [getElem_or, getElem_shiftLeft, getElem_setWidth]
  have hhigh : ∀ (x : U8) (j : ℕ), 8 ≤ j → x.getLsbD j = false := getLsbD_of_ge
  have hrange : b < 8 ∨ (8 ≤ b ∧ b < 16) ∨ (16 ≤ b ∧ b < 24) ∨ 24 ≤ b := by omega
  rcases hrange with h | h | h | h
  · rw [hbit 3 (by decide) (by omega) (by omega)]
    simp [show b < 24 by omega, show b < 16 by omega, h]
  · rw [hbit 2 (by decide) (by omega) (by omega)]
    simp [show b < 24 by omega, h]
  · rw [hbit 1 (by decide) (by omega) (by omega)]
    simp [h, show ¬b < 16 by omega, hhigh _ b (by omega), hhigh _ (b - 8) (by omega)]
  · rw [hbit 0 (by decide) (by omega) (by omega)]
    simp [show ¬b < 24 by omega, hhigh _ b (by omega), hhigh _ (b - 8) (by omega),
      hhigh _ (b - 16) (by omega)]

/-! ## The padding -/

/-- The padding of `n` bytes, in bytes. -/
def padding (n : ℕ) : List U8 :=
  0x80 :: replicate ((119 - n % 64) % 64) 0 ++ sha1StoreBe64 (BitVec.ofNat 64 n * 8)

lemma short_bits (hm : m.length < 2 ^ 61) : (bits m).length < 2 ^ 64 := by
  rw [length_bits]
  omega

lemma bits_padding (hm : m.length < 2 ^ 61) :
    bits (m ++ padding m.length) = Fips.pad ⟨bits m, short_bits hm⟩ := by
  have hzeros : zeros (bits m).length = 7 + 8 * ((119 - m.length % 64) % 64) := by
    rw [zeros, length_bits]
    omega
  have hlength : BitVec.ofNat 64 m.length * 8 = BitVec.ofNatLT (bits m).length (short_bits hm) := by
    apply eq_of_toNat_eq
    rw [toNat_mul, toNat_ofNat, toNat_ofNatLT, length_bits]
    show m.length % 2 ^ 64 * 8 % 2 ^ 64 = 8 * m.length
    omega
  have hone : wordBits (0x80 : U8) = [true] ++ replicate 7 false := by decide
  rw [Fips.pad, hzeros, replicate_add, ← hlength, ← bits_sha1StoreBe64, ← bits_zeros, padding,
    bits_append, List.cons_append, bits_cons, hone, bits_append]
  simp only [List.append_assoc]

lemma hashValue_eq (P : List U8) :
    (blocks sha1Transform 64 sha1Begin.state P).1 = Fips.hashValue (bits P) := by
  rw [blocks_eq_foldl (by decide), Fips.hashValue, length_bits,
    show 8 * P.length / 512 = P.length / 64 by omega]
  refine foldl_ext _ _ _ fun H i hi => ?_
  have hi : i < P.length / 64 := mem_range.mp hi
  exact sha1Transform_eq (fun t ht => sha1LoadBe32_eq (by omega) ht) H

/-! ## The calls -/

/-- The context stands for the bytes `m`. -/
structure Absorbed (ctx : Ctx) (m : List U8) : Prop where
  totalLen : ctx.totalLen = BitVec.ofNat 64 m.length
  split : blocks sha1Transform 64 sha1Begin.state m = (ctx.state, ctx.buffer)

lemma absorbed_begin : Absorbed sha1Begin [] := ⟨rfl, rfl⟩

lemma Absorbed.hash (h : Absorbed ctx m) (data : List U8) :
    Absorbed (sha1Hash data ctx) (m ++ data) := by
  obtain ⟨hlt, hempty, hfill⟩ := fill_spec ctx data
  refine ⟨?_, ?_⟩
  · rw [length_append, ofNat_add, ← h.totalLen]
    rfl
  · have hstate : (sha1Hash data ctx).state =
        (blocks sha1Transform 64 (fill ctx data).1 (fill ctx data).2.2).1 := rfl
    have hbuffer : (sha1Hash data ctx).buffer =
        if (blocks sha1Transform 64 (fill ctx data).1 (fill ctx data).2.2).2.length ≠ 0 then
          (blocks sha1Transform 64 (fill ctx data).1 (fill ctx data).2.2).2
        else (fill ctx data).2.1 := rfl
    rw [blocks_append (by decide), h.split, hfill, hstate, hbuffer]
    rcases hempty with hbuf | hrest
    · rw [hbuf, nil_append]
      refine Prod.ext rfl ?_
      split_ifs with hne
      · rfl
      · exact length_eq_zero_iff.mp (not_not.mp hne)
    · rw [hrest, append_nil, blocks_of_lt hlt, blocks_of_lt (by decide)]
      rfl

lemma Absorbed.hashes (h : Absorbed ctx m) (chunks : List (List U8)) :
    Absorbed (chunks.foldl (fun ctx data => sha1Hash data ctx) ctx) (m ++ chunks.flatten) := by
  induction chunks generalizing ctx m with
  | nil => rwa [flatten_nil, append_nil]
  | cons data chunks ih =>
    rw [List.flatten_cons, ← List.append_assoc]
    exact ih (h.hash data)

/-- The digest, from the state after the blocks of the padded message. -/
def digest (state : Words) : List U8 :=
  sha1StoreBe32 state.a ++ sha1StoreBe32 state.b ++ sha1StoreBe32 state.c ++
    sha1StoreBe32 state.d ++ sha1StoreBe32 state.e

lemma Absorbed.finish (h : Absorbed ctx m) :
    sha1End ctx =
      digest (blocks sha1Transform 64 sha1Begin.state (m ++ padding m.length)).1 := by
  have hlt := ctx.buffer_lt
  have hmod : ctx.buffer.length = m.length % 64 := by
    rw [← length_blocks (by decide) sha1Begin.state m, h.split]
  have htail : (ctx.buffer ++ [0x80]).length = ctx.buffer.length + 1 := by simp
  have hstore : ∀ x, (sha1StoreBe64 x).length = 8 := fun _ => rfl
  rw [blocks_append (by decide) sha1Begin.state m, h.split, padding, ← h.totalLen, ← hmod,
    sha1End, digest]
  dsimp only
  rw [htail]
  split_ifs with hlong
  · -- the marker leaves no room for the length: the zeros go on in a second block
    have hfirst : (ctx.buffer ++ [0x80] ++
        List.replicate (64 - (ctx.buffer.length + 1)) 0).length = 64 := by
      rw [length_append, htail, length_replicate]
      omega
    rw [show (119 - ctx.buffer.length) % 64 = (64 - (ctx.buffer.length + 1)) + 56 by omega,
      replicate_add,
      show ctx.buffer ++ (0x80 :: (List.replicate (64 - (ctx.buffer.length + 1)) 0 ++
          List.replicate 56 0) ++ sha1StoreBe64 (ctx.totalLen * 8)) =
        (ctx.buffer ++ [0x80] ++ List.replicate (64 - (ctx.buffer.length + 1)) 0) ++
          (List.replicate 56 0 ++ sha1StoreBe64 (ctx.totalLen * 8)) by simp,
      blocks_append (by decide), blocks_block (by decide) hfirst, nil_append,
      blocks_block (by decide) (by simp [hstore])]
    rfl
  · rw [show (119 - ctx.buffer.length) % 64 = 56 - (ctx.buffer.length + 1) by omega,
      show ctx.buffer ++ (0x80 :: List.replicate (56 - (ctx.buffer.length + 1)) 0 ++
          sha1StoreBe64 (ctx.totalLen * 8)) =
        ctx.buffer ++ [0x80] ++ List.replicate (56 - (ctx.buffer.length + 1)) 0 ++
          sha1StoreBe64 (ctx.totalLen * 8) by simp,
      blocks_block (by decide) (by simp [hstore]; omega)]
    rw [htail]

/-- **SHA-1.**  Whatever pieces a message is given in, the digest is that of the standard. -/
theorem sha1_eq_fips (chunks : List (List U8)) (hshort : chunks.flatten.length < 2 ^ 61) :
    bits (sha1End (chunks.foldl (fun ctx data => sha1Hash data ctx) sha1Begin)) =
      Fips.sha1 ⟨bits chunks.flatten, short_bits hshort⟩ := by
  have habs : Absorbed (chunks.foldl (fun ctx data => sha1Hash data ctx) sha1Begin)
      chunks.flatten := absorbed_begin.hashes chunks
  rw [habs.finish, hashValue_eq, bits_padding hshort, Fips.sha1, digest]
  simp only [bits_append, bits_sha1StoreBe32]

/-- The message `abc` in three pieces, one of them empty. -/
theorem sha1_eq_fips_abc :
    [[0x61], [], [0x62, 0x63]].flatten.length < 2 ^ 61 ∧
      bits (sha1End ([[0x61], [], [0x62, 0x63]].foldl (fun ctx data => sha1Hash data ctx)
        sha1Begin)) =
      Fips.sha1 ⟨bits [[0x61], [], [0x62, 0x63]].flatten, short_bits (by decide)⟩ :=
  ⟨by decide, sha1_eq_fips [[0x61], [], [0x62, 0x63]] (by decide)⟩

/-- Its digest. -/
example :
    sha1End ([[0x61], [], [0x62, 0x63]].foldl (fun ctx data => sha1Hash data ctx) sha1Begin) =
      [0xa9, 0x99, 0x3e, 0x36, 0x47, 0x06, 0x81, 0x6a, 0xba, 0x3e, 0x25, 0x71, 0x78, 0x50, 0xc2,
        0x6c, 0x9c, 0xd0, 0xd8, 0x9d] := by
  decide +kernel

end OpenHobbyOS.Sha1
