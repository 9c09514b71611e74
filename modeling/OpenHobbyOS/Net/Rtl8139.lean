/-
# Receiving packets

`rtl8139_irq_handler` of `src/rtl8139.c` walks over the packets in the receive buffer by their
lengths, until the device's write pointer or a length of 0.  The length is not checked, and the end
is a test for equality.
-/
import OpenHobbyOS.Lib.Bytes
import OpenHobbyOS.Paging.Entry

namespace OpenHobbyOS.Net

open BitVec hiding not_or
open Lib

/-- 16-bit words. -/
abbrev U16 := BitVec 16

/-- `RX_BUF_SIZE`. -/
def rxBufSize : ℕ := 32768

/-! ## The code -/

/-- How much `rtl8139_probe` allocates for a first try at `phys`. -/
def allocated (phys : U32) : ℕ :=
  if 0x10000 < (phys &&& 0xFFFF).toNat + rxBufSize then rxBufSize + 0x10000 else rxBufSize + 16

/-- What one call reads: `rx k` and `cbr k` are the buffer and the write pointer in turn `k`, and
`netdev` says whether `rtl_dev.netdev` is set. -/
structure Irq where
  isr : U16
  capr : U16
  cbr : ℕ → U16
  rx : ℕ → ℕ → U8
  netdev : Bool

/-- A call of `netdev_rx_push`, with the length that the header gives. -/
structure Packet where
  data : ℕ
  dataLen : U16
  pktLen : U16
deriving DecidableEq

/-- The length in a header. -/
def pktLen (rx : ℕ → U8) (capr : U16) : U16 := BitVec.ofNat 16 (le16 rx capr.toNat) &&& 0x3FFF

/-- The status in a header. -/
def pktStatus (rx : ℕ → U8) (capr : U16) : U16 := BitVec.ofNat 16 (le16 rx (capr.toNat + 2))

/-- The read pointer behind a packet. -/
def advance (capr len : U16) : U16 :=
  let capr := capr + (len + 4)
  let capr := (capr + 3) &&& ~~~3
  if rxBufSize ≤ capr.toNat then capr - BitVec.ofNat 16 rxBufSize else capr

/-- What is passed on of the packet at `capr`. -/
def passed (i : Irq) (k : ℕ) (capr : U16) : List Packet :=
  let len := pktLen (i.rx k) capr
  if pktStatus (i.rx k) capr &&& 1 ≠ 0 ∧ i.netdev then [⟨capr.toNat + 4, len - 4, len⟩] else []

/-- The loop from turn `k` on: what it passes on, and whether it ends. -/
def irqLoop (i : Irq) : ℕ → ℕ → U16 → List Packet × Bool
  | 0, _, _ => ([], false)
  | fuel + 1, k, capr =>
    if capr = i.cbr k then ([], true)
    else
      let len := pktLen (i.rx k) capr
      if len = 0xFFF0 ∨ len = 0 then ([], true)
      else
        let rest := irqLoop i fuel (k + 1) (advance capr len)
        (passed i k capr ++ rest.1, rest.2)

/-- `rtl8139_irq_handler`. -/
def rtl8139IrqHandler (i : Irq) (fuel : ℕ) : List Packet × Bool :=
  if i.isr = 0 then ([], true)
  else if i.isr &&& 1 ≠ 0 then irqLoop i fuel 0 i.capr
  else ([], true)

/-! ## The walk -/

namespace Irq

variable (i : Irq)

/-- The read pointer in turn `k`, as long as the loop goes on. -/
def pos : ℕ → U16
  | 0 => i.capr
  | k + 1 => advance (pos k) (pktLen (i.rx k) (pos k))

/-- Where the packet of turn `k` starts: each has a header of four bytes and is filled up to a
multiple of four. -/
def place : ℕ → ℕ
  | 0 => i.capr.toNat
  | k + 1 => (place k + 4 + le16 (i.rx k) (place k) % 0x4000 + 3) / 4 * 4 % rxBufSize

/-- The length that the header there gives. -/
def length (k : ℕ) : ℕ := le16 (i.rx k) (i.place k) % 0x4000

/-- The walk has come to the write pointer, or to a length of 0. -/
def Stops (k : ℕ) : Prop := i.place k = (i.cbr k).toNat ∨ i.length k = 0

/-- The packet of turn `k` is taken from the buffer. -/
def Taken (k : ℕ) : Prop := ∀ j ≤ k, ¬i.Stops j

/-- The write pointer stops changing. -/
def Settles : Prop := ∃ k w, ∀ j, k ≤ j → i.cbr j = w

end Irq

variable {i : Irq}

lemma pktLen_ne (rx : ℕ → U8) (capr : U16) : pktLen rx capr ≠ 0xFFF0 := by
  intro h
  have : (pktLen rx capr).toNat ≤ 0x3FFF := by
    rw [pktLen, toNat_and]
    exact Nat.and_le_right
  rw [h] at this
  exact absurd this (by decide)

lemma toNat_pktLen (rx : ℕ → U8) (capr : U16) :
    (pktLen rx capr).toNat = le16 rx capr.toNat % 0x4000 := by
  rw [pktLen, toNat_and, toNat_ofNat, show (0x3FFF : U16).toNat = 2 ^ 14 - 1 from rfl,
    Nat.and_two_pow_sub_one_eq_mod]
  omega

lemma toNat_advance (capr len : U16) :
    (advance capr len).toNat = (capr.toNat + 4 + len.toNat + 3) / 4 * 4 % rxBufSize := by
  have hmask : ∀ j < 16, (~~~3 : U16).getLsbD j = decide (2 ≤ j) := by decide
  have hround := Paging.and_mask_toNat (capr + (len + 4) + 3) hmask
  have hlt := ((capr + (len + 4) + 3) &&& ~~~3).isLt
  have hsum : (capr + (len + 4) + 3).toNat = (capr.toNat + 4 + len.toNat + 3) % 2 ^ 16 := by
    bv_omega
  rw [advance, rxBufSize]
  generalize (capr + (len + 4) + 3) &&& ~~~3 = rounded at hround hlt
  split_ifs with h
  · rw [toNat_sub_of_le (by rw [le_def]; exact h), toNat_ofNat]
    omega
  · omega

/-- **The 16-bit arithmetic** of the code walks through the ring. -/
lemma toNat_pos (k : ℕ) : (i.pos k).toNat = i.place k := by
  induction k with
  | zero => rfl
  | succ k ih => rw [Irq.pos, toNat_advance, toNat_pktLen, ih, Irq.place]

lemma toNat_pktLen_pos (k : ℕ) : (pktLen (i.rx k) (i.pos k)).toNat = i.length k := by
  rw [toNat_pktLen, toNat_pos, Irq.length]

lemma stops_iff {k : ℕ} : i.Stops k ↔ i.pos k = i.cbr k ∨ pktLen (i.rx k) (i.pos k) = 0 := by
  rw [Irq.Stops, ← toNat_pos, ← toNat_pktLen_pos, toNat_inj]
  exact or_congr_right (toNat_eq (y := 0#16)).symm

lemma irqLoop_of_stops {fuel k : ℕ} (h : i.Stops k) :
    irqLoop i (fuel + 1) k (i.pos k) = ([], true) := by
  rw [irqLoop]
  obtain hcbr | hlen := stops_iff.mp h
  · rw [if_pos hcbr]
  · simp [hlen]

lemma irqLoop_of_not_stops {fuel k : ℕ} (h : ¬i.Stops k) :
    irqLoop i (fuel + 1) k (i.pos k) =
      (passed i k (i.pos k) ++ (irqLoop i fuel (k + 1) (i.pos (k + 1))).1,
        (irqLoop i fuel (k + 1) (i.pos (k + 1))).2) := by
  rw [stops_iff, not_or] at h
  have hlen : ¬(pktLen (i.rx k) (i.pos k) = 0xFFF0 ∨ pktLen (i.rx k) (i.pos k) = 0) := by
    rintro (h' | h')
    · exact pktLen_ne _ _ h'
    · exact h.2 h'
  rw [irqLoop, if_neg h.1]
  exact if_neg hlen

lemma irqLoop_ends_iff (fuel k : ℕ) :
    (irqLoop i fuel k (i.pos k)).2 = true ↔ ∃ j, k ≤ j ∧ j < k + fuel ∧ i.Stops j := by
  induction fuel generalizing k with
  | zero =>
    constructor
    · intro h
      cases h
    · rintro ⟨j, hk, hj, -⟩
      omega
  | succ fuel ih =>
    by_cases h : i.Stops k
    · rw [irqLoop_of_stops h]
      exact ⟨fun _ => ⟨k, le_rfl, by omega, h⟩, fun _ => rfl⟩
    · rw [irqLoop_of_not_stops h, ih]
      constructor
      · rintro ⟨j, hk, hj, hstops⟩
        exact ⟨j, by omega, by omega, hstops⟩
      · rintro ⟨j, hk, hj, hstops⟩
        have hne : k ≠ j := fun heq => h (heq ▸ hstops)
        exact ⟨j, by omega, by omega, hstops⟩

lemma mem_irqLoop_iff {p : Packet} (fuel k : ℕ) :
    p ∈ (irqLoop i fuel k (i.pos k)).1 ↔
      ∃ j, k ≤ j ∧ j < k + fuel ∧ (∀ m, k ≤ m → m ≤ j → ¬i.Stops m) ∧
        p ∈ passed i j (i.pos j) := by
  induction fuel generalizing k with
  | zero =>
    constructor
    · intro h
      cases h
    · rintro ⟨j, hk, hj, -⟩
      omega
  | succ fuel ih =>
    by_cases h : i.Stops k
    · rw [irqLoop_of_stops h]
      constructor
      · intro hp
        cases hp
      · rintro ⟨j, hk, -, hgoes, -⟩
        exact absurd h (hgoes k le_rfl hk)
    · rw [irqLoop_of_not_stops h, List.mem_append, ih]
      constructor
      · rintro (hp | ⟨j, hk, hj, hgoes, hp⟩)
        · refine ⟨k, le_rfl, by omega, fun m hk hm => ?_, hp⟩
          rwa [le_antisymm hm hk]
        · refine ⟨j, by omega, by omega, fun m hk hm => ?_, hp⟩
          obtain rfl | hlt := hk.eq_or_lt
          · exact h
          · exact hgoes m hlt hm
      · rintro ⟨j, hk, hj, hgoes, hp⟩
        obtain rfl | hlt := hk.eq_or_lt
        · exact .inl hp
        · exact .inr ⟨j, hlt, by omega, fun m hm => hgoes m (by omega), hp⟩

/-! ## What the walk has to meet -/

/-- A range of the buffer, with the length of its header less 4. -/
def Packet.Inside (size : ℕ) (p : Packet) : Prop :=
  4 ≤ p.pktLen.toNat ∧ p.dataLen.toNat = p.pktLen.toNat - 4 ∧ p.data + p.dataLen.toNat ≤ size

/-- The call passes on ranges of the buffer only, and it ends if the write pointer settles. -/
def Confined (size : ℕ) (i : Irq) : Prop :=
  (∀ fuel, ∀ p ∈ (rtl8139IrqHandler i fuel).1, p.Inside size) ∧
    (i.Settles → ∃ fuel, (rtl8139IrqHandler i fuel).2 = true)

/-- A packet handed to a `netdev` has a length of at least 4 and ends inside the buffer. -/
def Irq.Fits (size : ℕ) (i : Irq) (k : ℕ) : Prop :=
  le16 (i.rx k) (i.place k + 2) % 2 = 1 → i.netdev = true →
    4 ≤ i.length k ∧ i.place k + i.length k ≤ size

lemma received_iff (k : ℕ) :
    pktStatus (i.rx k) (i.pos k) &&& 1 ≠ 0 ↔ le16 (i.rx k) (i.place k + 2) % 2 = 1 := by
  rw [pktStatus, toNat_pos]
  generalize le16 (i.rx k) (i.place k + 2) = status
  have hand : (BitVec.ofNat 16 status &&& 1).toNat = status % 2 := by
    rw [toNat_and, toNat_ofNat, show (1 : U16).toNat = 2 ^ 1 - 1 from rfl,
      Nat.and_two_pow_sub_one_eq_mod]
    omega
  rw [ne_eq, ← toNat_inj, hand, show (0 : U16).toNat = 0 from rfl]
  omega

lemma passed_inside_iff {size k : ℕ} :
    (∀ p ∈ passed i k (i.pos k), p.Inside size) ↔ i.Fits size k := by
  have hlen := (pktLen (i.rx k) (i.pos k)).isLt
  rw [Irq.Fits, ← received_iff, ← toNat_pktLen_pos, ← toNat_pos]
  by_cases h : pktStatus (i.rx k) (i.pos k) &&& 1 ≠ 0 ∧ i.netdev = true
  · have hpassed : passed i k (i.pos k) = [⟨_, _, _⟩] := if_pos h
    rw [hpassed, List.forall_mem_singleton, imp_iff_right h.1, imp_iff_right h.2]
    simp only [Packet.Inside, toNat_sub, show (4 : U16).toNat = 4 from rfl]
    omega
  · rw [passed, if_neg h]
    exact ⟨fun _ hstatus hnetdev => absurd ⟨hstatus, hnetdev⟩ h,
      fun _ p hp => absurd hp (List.not_mem_nil)⟩

/-- **The walk over the packets** is confined exactly if every packet it takes fits, and it comes to
the write pointer or to a length of 0 where the write pointer settles. -/
theorem rtl8139_confined_iff (phys : U32) (i : Irq) :
    Confined (allocated phys) i ↔
      (i.isr &&& 1 ≠ 0 → (∀ k, i.Taken k → i.Fits (allocated phys) k) ∧
        (i.Settles → ∃ k, i.Stops k)) := by
  by_cases hrok : i.isr &&& 1 ≠ 0
  · have hisr : i.isr ≠ 0 := by
      intro h
      exact hrok (by rw [h]; rfl)
    have hhandler : rtl8139IrqHandler i = fun fuel => irqLoop i fuel 0 (i.pos 0) := by
      funext fuel
      rw [rtl8139IrqHandler, if_neg hisr, if_pos hrok, Irq.pos]
    simp only [Confined, hhandler, hrok, irqLoop_ends_iff, mem_irqLoop_iff, true_implies, ne_eq,
      not_false_eq_true]
    refine and_congr ⟨fun h k htaken => ?_, ?_⟩ (imp_congr_right fun _ => ⟨?_, ?_⟩)
    · refine passed_inside_iff.mp fun p hp => h (k + 1) p ?_
      exact ⟨k, k.zero_le, by omega, fun m _ => htaken m, hp⟩
    · rintro h fuel p ⟨k, -, -, hgoes, hp⟩
      exact passed_inside_iff.mpr (h k fun m => hgoes m m.zero_le) p hp
    · rintro ⟨fuel, k, -, -, hstops⟩
      exact ⟨k, hstops⟩
    · rintro ⟨k, hstops⟩
      exact ⟨k + 1, k, k.zero_le, by omega, hstops⟩
  · have hhandler : rtl8139IrqHandler i = fun _ => ([], true) := by
      funext fuel
      rw [rtl8139IrqHandler, if_neg hrok, ite_self]
    refine ⟨fun _ h => absurd h hrok, fun _ => ?_⟩
    simp [Confined, hhandler]

/-- Packets of 16380 bytes at 0 and at 16384, and a write pointer of 2. -/
def endless : Irq where
  isr := 1
  capr := 0
  cbr := fun _ => 2
  rx := fun _ a => if a % 16384 = 0 then 0xFC else if a % 16384 = 1 then 0x3F else 0
  netdev := false

/-- A packet of one byte at 0. -/
def short : Irq where
  isr := 1
  capr := 0
  cbr := fun _ => 64
  rx := fun _ a => if a = 0 ∨ a = 2 then 1 else 0
  netdev := true

theorem rtl8139_not_confined :
    (endless.Settles ∧ ∀ fuel, (rtl8139IrqHandler endless fuel).2 = false) ∧
      ⟨4, 65533, 1⟩ ∈ (rtl8139IrqHandler short 1).1 := by
  have hrx : ∀ k, endless.rx k = endless.rx 0 := fun _ => rfl
  have hplace : ∀ k, endless.place k = 0 ∨ endless.place k = 16384 := by
    intro k
    induction k with
    | zero => exact .inl rfl
    | succ k ih =>
      rw [Irq.place, hrx]
      obtain h | h := ih
      · rw [h]
        exact .inr (by decide +kernel)
      · rw [h]
        exact .inl (by decide +kernel)
  refine ⟨⟨⟨0, 2, fun _ _ => rfl⟩, fun fuel => Bool.eq_false_iff.mpr fun h => ?_⟩, ?_⟩
  · obtain ⟨k, -, -, hcbr | hlen⟩ := (irqLoop_ends_iff fuel 0).mp h
    · change _ = 2 at hcbr
      obtain h | h := hplace k <;> omega
    · rw [Irq.length, hrx] at hlen
      obtain h | h := hplace k
      · exact absurd (h ▸ hlen) (by decide +kernel)
      · exact absurd (h ▸ hlen) (by decide +kernel)
  · decide +kernel

end OpenHobbyOS.Net
