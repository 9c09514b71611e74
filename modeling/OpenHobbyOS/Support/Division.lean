/-
# Division of 64-bit numbers

`divide_u64_u32` of `src/syscall.c` and `u_divide_u64_u32` of `user/lib/runtime.c` take the bits of
the dividend from the top, `udivmoddi4` of `src/compiler_rt.c` subtracts the divisor shifted less
and less.
-/
import OpenHobbyOS.Paging.Entry

namespace OpenHobbyOS.Support

open List Nat

/-- 64-bit words. -/
abbrev U64 := BitVec 64

/-! ## The code -/

/-- The loop with `bit` bits to go.  A bit that the quotient has no place for is dropped. -/
def divideLoop {w : ℕ} (dividend divisor : U64) : ℕ → U64 → BitVec w → BitVec w
  | 0, _, quotient => quotient
  | bit + 1, remainder, quotient =>
    let remainder := remainder <<< 1 ||| (dividend >>> bit &&& 1)
    if divisor ≤ remainder then
      divideLoop dividend divisor bit (remainder - divisor)
        (if bit < w then quotient ||| 1#w <<< bit else quotient)
    else divideLoop dividend divisor bit remainder quotient

/-- `divide_u64_u32`. -/
def divideU64U32 (dividend : U64) (divisor : U32) : U32 :=
  if divisor = 0 then 0 else divideLoop dividend (divisor.setWidth 64) 64 0 0

/-- `u_divide_u64_u32`. -/
def uDivideU64U32 (dividend : U64) (divisor : U32) : U64 :=
  if divisor = 0 then 0 else divideLoop dividend (divisor.setWidth 64) 64 0 0

/-- Quotient and remainder. -/
structure Udivmod where
  quot : U64
  rem : U64

/-- The shift that brings the highest bit of `d` to the top. -/
def topShift (d : U64) : ℕ :=
  ((List.range 64).find? fun shift => d <<< shift &&& 0x8000000000000000 ≠ 0).getD 64

/-- The loop that subtracts, with `shift` passes to go. -/
def subtractLoop (d : U64) : ℕ → U64 → U64 → Udivmod
  | 0, n, q => ⟨q, n⟩
  | shift + 1, n, q =>
    let t := d <<< shift
    if t ≤ n then subtractLoop d shift (n - t) (q ||| 1#64 <<< shift)
    else subtractLoop d shift n q

/-- `udivmoddi4`. -/
def udivmoddi4 (a b : U64) : Udivmod :=
  if b = 0 then ⟨0, 0⟩
  else if b = 1 then ⟨a, 0⟩
  else
    let shift := topShift b
    let shift := if shift = 64 then 63 else shift
    subtractLoop b (shift + 1) a 0

/-! ## From the top bit -/

lemma div_mod_double {x b c : ℕ} (hc : c < 2) (hb : 0 < b) :
    (b ≤ 2 * (x % b) + c →
      (2 * x + c) / b = 2 * (x / b) + 1 ∧ (2 * x + c) % b = 2 * (x % b) + c - b) ∧
    (2 * (x % b) + c < b →
      (2 * x + c) / b = 2 * (x / b) ∧ (2 * x + c) % b = 2 * (x % b) + c) := by
  have hx := div_add_mod x b
  have hr := mod_lt x hb
  constructor
  · intro h
    rw [Nat.div_mod_unique hb, mul_add, mul_left_comm]
    omega
  · intro h
    rw [Nat.div_mod_unique hb, mul_left_comm]
    omega

lemma toNat_shift_or_bit {r : U64} (hr : r.toNat < 2 ^ 63) (a : U64) (k : ℕ) :
    (r <<< 1 ||| (a >>> k &&& 1)).toNat = 2 * r.toNat + a.toNat / 2 ^ k % 2 := by
  have hbit : (a >>> k &&& 1).toNat = a.toNat / 2 ^ k % 2 := by
    rw [BitVec.toNat_and, BitVec.toNat_ushiftRight, shiftRight_eq_div_pow]
    exact and_one_is_mod _
  have hshift : (r <<< 1).toNat = 2 ^ 1 * r.toNat := by
    rw [BitVec.toNat_shiftLeft, shiftLeft_eq, mod_eq_of_lt (by omega), mul_comm]
  rw [BitVec.toNat_or, hbit, hshift, ← two_pow_add_eq_or_of_lt (by omega)]

lemma toNat_set_bit {w k x : ℕ} {q : BitVec w} (hq : q.toNat = x * 2 ^ (k + 1) % 2 ^ w) :
    (if k < w then q ||| 1#w <<< k else q).toNat = (2 * x + 1) * 2 ^ k % 2 ^ w := by
  have hsum : (2 * x + 1) * 2 ^ k = x * 2 ^ (k + 1) + 2 ^ k := by ring
  split_ifs with hk
  · obtain ⟨m, rfl⟩ := Nat.exists_eq_add_of_lt hk
    have hpow : 2 ^ (k + m + 1) = 2 ^ (k + 1) * 2 ^ m := by ring
    have hone : (1#(k + m + 1) <<< k).toNat = 2 ^ k := by
      rw [← BitVec.twoPow_eq, BitVec.toNat_twoPow,
        Nat.mod_eq_of_lt (Nat.pow_lt_pow_right (by decide) hk)]
    have hlt : 2 ^ (k + 1) * (x % 2 ^ m) + 2 ^ k < 2 ^ (k + 1) * 2 ^ m := by
      have hx := mod_lt x (show 0 < 2 ^ m by positivity)
      have hpos : 0 < 2 ^ k := by positivity
      calc 2 ^ (k + 1) * (x % 2 ^ m) + 2 ^ k < 2 ^ (k + 1) * (x % 2 ^ m + 1) := by
            rw [mul_add, mul_one, pow_succ]; omega
        _ ≤ 2 ^ (k + 1) * 2 ^ m := mul_le_mul_left _ hx
    have hq' : q.toNat = 2 ^ (k + 1) * (x % 2 ^ m) := by
      rw [hq, hpow, mul_comm x, mul_mod_mul_left]
    rw [BitVec.toNat_or, hone, hq', ← Nat.two_pow_add_eq_or_of_lt (Nat.pow_lt_pow_succ (by decide)),
      hsum, hpow, mul_comm x, add_mod, mul_mod_mul_left,
      mod_eq_of_lt (lt_of_le_of_lt (le_add_left _ _) hlt), mod_eq_of_lt hlt]
  · obtain ⟨c, hc⟩ : 2 ^ w ∣ 2 ^ k := pow_dvd_pow 2 (not_lt.mp hk)
    rw [hq, hsum, add_mod _ (2 ^ k), hc, mul_mod_right, add_zero, mod_mod]

lemma toNat_divideLoop {w : ℕ} {a b : U64} (hb : 0 < b.toNat) (hb' : b.toNat < 2 ^ 63) (k : ℕ)
    {r : U64} {q : BitVec w} (hr : r.toNat = a.toNat / 2 ^ k % b.toNat)
    (hq : q.toNat = a.toNat / 2 ^ k / b.toNat * 2 ^ k % 2 ^ w) :
    (divideLoop a b k r q).toNat = a.toNat / b.toNat % 2 ^ w := by
  induction k generalizing r q with
  | zero => simpa [divideLoop] using hq
  | succ k ih =>
    have hx : a.toNat / 2 ^ k = 2 * (a.toNat / 2 ^ (k + 1)) + a.toNat / 2 ^ k % 2 := by
      rw [pow_succ, ← Nat.div_div_eq_div_mul, Nat.div_add_mod]
    have hr' := toNat_shift_or_bit (by rw [hr]; exact (mod_lt _ hb).trans hb') a k
    have hstep := div_mod_double (x := a.toNat / 2 ^ (k + 1))
      (mod_lt (a.toNat / 2 ^ k) two_pos) hb
    rw [← hr, ← hr', ← hx] at hstep
    simp only [divideLoop]
    by_cases hle : b ≤ r <<< 1 ||| (a >>> k &&& 1)
    · rw [if_pos hle]
      obtain ⟨hdiv, hmod⟩ := hstep.1 (BitVec.le_def.mp hle)
      refine ih ?_ ?_
      · rw [BitVec.toNat_sub_of_le hle, hmod]
      · rw [toNat_set_bit hq, hdiv]
    · rw [if_neg hle]
      obtain ⟨hdiv, hmod⟩ := hstep.2 (BitVec.lt_def.mp (BitVec.not_le.mp hle))
      refine ih hmod.symm ?_
      rw [hq, hdiv, pow_succ]
      ring_nf

lemma toNat_divide {w : ℕ} (a : U64) {b : U32} (hb : b ≠ 0) :
    (divideLoop a (b.setWidth 64) 64 0 (0 : BitVec w)).toNat = a.toNat / b.toNat % 2 ^ w := by
  have hwide : (b.setWidth 64).toNat = b.toNat := BitVec.toNat_setWidth_of_le (by decide)
  have hpos : 0 < b.toNat := BitVec.toNat_pos_of_ne_zero hb
  have htop : a.toNat / 2 ^ 64 = 0 := div_eq_of_lt a.isLt
  rw [toNat_divideLoop (by rwa [hwide]) (by rw [hwide]; omega) 64, hwide]
  · rw [htop, zero_mod]
    rfl
  · rw [htop, Nat.zero_div, zero_mul, Nat.zero_mod]
    rfl

lemma toNat_divideU64U32 (a : U64) {b : U32} (hb : b ≠ 0) :
    (divideU64U32 a b).toNat = a.toNat / b.toNat % 2 ^ 32 := by
  rw [divideU64U32, if_neg hb, toNat_divide a hb]

lemma toNat_uDivideU64U32 (a : U64) {b : U32} (hb : b ≠ 0) :
    (uDivideU64U32 a b).toNat = a.toNat / b.toNat := by
  rw [uDivideU64U32, if_neg hb, toNat_divide a hb,
    mod_eq_of_lt (lt_of_le_of_lt (div_le_self _ _) a.isLt)]

/-! ## From the highest shift -/

lemma top_ne_zero_iff (x : U64) : x &&& 0x8000000000000000 ≠ 0 ↔ 2 ^ 63 ≤ x.toNat := by
  have htop : (0x8000000000000000 : U64) = BitVec.twoPow 64 63 := rfl
  have hmsb : x.getLsbD 63 = decide (2 ^ 63 ≤ x.toNat) := BitVec.msb_eq_decide x
  rw [htop, BitVec.and_twoPow, hmsb]
  simp

lemma topShift_spec {d : U64} (hd : d ≠ 0) :
    2 ^ 63 ≤ d.toNat * 2 ^ topShift d ∧ d.toNat * 2 ^ topShift d < 2 ^ 64 := by
  have hpos : 0 < d.toNat := BitVec.toNat_pos_of_ne_zero hd
  -- as long as the bit has not come to the top, none is lost
  have hbelow (s : ℕ) (h : ∀ j < s, ¬d <<< j &&& 0x8000000000000000 ≠ 0) :
      d.toNat * 2 ^ s < 2 ^ 64 := by
    induction s with
    | zero => simpa using d.isLt
    | succ s ih =>
      have hfit := ih fun j hj => h j (by omega)
      have hlow := h s s.lt_succ_self
      rw [top_ne_zero_iff, BitVec.toNat_shiftLeft, shiftLeft_eq, mod_eq_of_lt hfit] at hlow
      rw [pow_succ, ← mul_assoc]
      omega
  rw [topShift]
  cases hfind : (List.range 64).find? fun s => d <<< s &&& 0x8000000000000000 ≠ 0 with
  | none =>
    rw [find?_range_eq_none] at hfind
    have := hbelow 64 fun j hj => by simpa using hfind j hj
    omega
  | some s =>
    rw [find?_range_eq_some] at hfind
    obtain ⟨hset, -, hmin⟩ := hfind
    have hfit := hbelow s fun j hj => by simpa using hmin j hj
    rw [decide_eq_true_eq, top_ne_zero_iff, BitVec.toNat_shiftLeft, shiftLeft_eq,
      mod_eq_of_lt hfit] at hset
    exact ⟨hset, hfit⟩

lemma subtractLoop_spec {a d : U64} (k : ℕ) {x : ℕ} {n q : U64} (hfit : d.toNat * 2 ^ k < 2 ^ 65)
    (hn : n.toNat < d.toNat * 2 ^ k) (hq : q.toNat = x * 2 ^ k % 2 ^ 64)
    (ha : a.toNat = x * 2 ^ k * d.toNat + n.toNat) :
    a.toNat = (subtractLoop d k n q).quot.toNat * d.toNat + (subtractLoop d k n q).rem.toNat ∧
      (subtractLoop d k n q).rem.toNat < d.toNat := by
  induction k generalizing x n q with
  | zero =>
    rw [pow_zero, mul_one] at hn hq ha
    have hx : x < 2 ^ 64 := by
      have := a.isLt
      nlinarith
    rw [subtractLoop, hq, mod_eq_of_lt hx]
    exact ⟨ha, hn⟩
  | succ k ih =>
    have hhalf : d.toNat * 2 ^ (k + 1) = 2 * (d.toNat * 2 ^ k) := by ring
    have ht : (d <<< k).toNat = d.toNat * 2 ^ k := by
      rw [BitVec.toNat_shiftLeft, shiftLeft_eq, mod_eq_of_lt (by omega)]
    have hk : k < 64 := by
      refine (Nat.pow_lt_pow_iff_right (by decide)).mp (?_ : 2 ^ k < 2 ^ 64)
      have hpos : 0 < d.toNat := Nat.pos_of_ne_zero fun h => by simp [h] at hn
      nlinarith
    simp only [subtractLoop]
    by_cases hle : d <<< k ≤ n
    · rw [if_pos hle]
      have hle' := BitVec.le_def.mp hle
      have hbit := toNat_set_bit hq
      rw [if_pos hk] at hbit
      refine ih (by omega) ?_ hbit ?_
      · rw [BitVec.toNat_sub_of_le hle]
        omega
      · rw [BitVec.toNat_sub_of_le hle, ha, ht]
        rw [ht] at hle'
        have : (2 * x + 1) * 2 ^ k * d.toNat = x * 2 ^ (k + 1) * d.toNat + d.toNat * 2 ^ k := by
          ring
        omega
    · rw [if_neg hle]
      have hlt := BitVec.lt_def.mp (BitVec.not_le.mp hle)
      have hx : x * 2 ^ (k + 1) = 2 * x * 2 ^ k := by ring
      rw [hx] at hq ha
      exact ih (by omega) (by omega) hq ha

lemma udivmoddi4_spec (a : U64) {b : U64} (hb : b ≠ 0) :
    a.toNat = (udivmoddi4 a b).quot.toNat * b.toNat + (udivmoddi4 a b).rem.toNat ∧
      (udivmoddi4 a b).rem.toNat < b.toNat := by
  rw [udivmoddi4, if_neg hb]
  split_ifs with hone
  · rw [hone]
    exact ⟨(mul_one _).symm, zero_lt_one⟩
  obtain ⟨hlow, hhigh⟩ := topShift_spec hb
  have hshift : topShift b ≠ 64 := by
    intro h
    rw [h] at hhigh
    have := BitVec.toNat_pos_of_ne_zero hb
    omega
  have hnext : b.toNat * 2 ^ (topShift b + 1) = 2 * (b.toNat * 2 ^ topShift b) := by ring
  have ha := a.isLt
  simp only [if_neg hshift]
  exact subtractLoop_spec (x := 0) _ (by omega) (by omega) (by simp) (by simp)

/-- **The three divisions**: the quotient cut to 32 bits, the quotient, and quotient and
remainder. -/
theorem divisions_agree :
    (∀ (a : U64) (b : U32), b ≠ 0 →
      (divideU64U32 a b).toNat = a.toNat / b.toNat % 2 ^ 32 ∧
      (uDivideU64U32 a b).toNat = a.toNat / b.toNat) ∧
    (∀ a b : U64, b ≠ 0 →
      a.toNat = (udivmoddi4 a b).quot.toNat * b.toNat + (udivmoddi4 a b).rem.toNat ∧
      (udivmoddi4 a b).rem.toNat < b.toNat) ∧
    ∀ (a : U64) (b : U32), b ≠ 0 →
      uDivideU64U32 a b = (udivmoddi4 a (b.setWidth 64)).quot ∧
      divideU64U32 a b = (uDivideU64U32 a b).setWidth 32 ∧
      (a.toNat / b.toNat < 2 ^ 32 → (divideU64U32 a b).setWidth 64 = uDivideU64U32 a b) := by
  refine ⟨fun a b hb => ⟨toNat_divideU64U32 a hb, toNat_uDivideU64U32 a hb⟩,
    fun a b hb => udivmoddi4_spec a hb, ?_⟩
  intro a b hb
  have hwide : (b.setWidth 64).toNat = b.toNat := BitVec.toNat_setWidth_of_le (by decide)
  have hpos : 0 < b.toNat := BitVec.toNat_pos_of_ne_zero hb
  have hb' : b.setWidth 64 ≠ 0 := by
    intro h
    rw [h] at hwide
    exact hpos.ne hwide
  obtain ⟨ha, hrem⟩ := udivmoddi4_spec a hb'
  rw [hwide] at ha hrem
  refine ⟨BitVec.eq_of_toNat_eq ?_, BitVec.eq_of_toNat_eq ?_, fun h => BitVec.eq_of_toNat_eq ?_⟩
  · rw [toNat_uDivideU64U32 a hb]
    exact ((Nat.div_mod_unique hpos).mpr ⟨by rw [mul_comm, add_comm]; exact ha.symm, hrem⟩).1
  · rw [toNat_divideU64U32 a hb, BitVec.toNat_setWidth, toNat_uDivideU64U32 a hb]
  · rw [BitVec.toNat_setWidth_of_le (by decide), toNat_divideU64U32 a hb,
      toNat_uDivideU64U32 a hb, mod_eq_of_lt h]

theorem divisions_agree_thousand :
    (divideU64U32 1000 7).toNat = 142 ∧ (udivmoddi4 1000 7).rem.toNat = 6 := by
  obtain ⟨hquot, hrem, -⟩ := divisions_agree
  have hdiv : 1000 = (udivmoddi4 1000 7).quot.toNat * 7 + (udivmoddi4 1000 7).rem.toNat :=
    (hrem 1000 7 (by decide)).1
  have hlt : (udivmoddi4 1000 7).rem.toNat < 7 := (hrem 1000 7 (by decide)).2
  exact ⟨(hquot 1000 7 (by decide)).1, by omega⟩

end OpenHobbyOS.Support
