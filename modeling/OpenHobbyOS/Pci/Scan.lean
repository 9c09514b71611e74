/-
# Enumeration of the PCI functions

`pci_scan` of `src/pci.c`.  The header type is byte 2 of the double word at `0x0C`; the code tests
bit 7 of byte 0, the size of a cache line.
-/
import OpenHobbyOS.Pci.Config

namespace OpenHobbyOS.Pci

open Lib List Nat

/-! ## The code -/

/-- `pci_device_t`. -/
structure PciDevice where
  vendorId : BitVec 16
  deviceId : BitVec 16
  bus : U8
  slot : U8
  func : U8
  classCode : U8
  subclass : U8
  progIf : U8
  irq : U8
  bars : List U32

/-- `MAX_SLOTS`. -/
def maxSlots : ℕ := 32
/-- `MAX_FUNCS`. -/
def maxFuncs : ℕ := 8
/-- `PCI_VENDOR_NONE`. -/
def vendorNone : BitVec 16 := 0xFFFF

/-- A register of a function of bus 0.  A read leaves the space as it is. -/
def Ports.config (p : Ports) (slot func : ℕ) (offset : U8) : U32 :=
  (pciConfigRead 0 (BitVec.ofNat 8 slot) (BitVec.ofNat 8 func) offset p).1

/-- `pci_read_bar`. -/
def pciReadBar (p : Ports) (slot func barnum : ℕ) : U32 :=
  p.config slot func (BitVec.ofNat 8 (0x10 + barnum * 4))

/-- The entry of the table for a function, without the I/O reads behind a base address. -/
def scanned (p : Ports) (slot func : ℕ) : PciDevice :=
  let id := p.config slot func 0
  let classReg := p.config slot func 8
  let irqReg := p.config slot func 0x3C
  { vendorId := (id &&& 0xFFFF).setWidth 16
    deviceId := (id >>> 16).setWidth 16
    bus := 0
    slot := BitVec.ofNat 8 slot
    func := BitVec.ofNat 8 func
    classCode := (classReg >>> 24).setWidth 8
    subclass := (classReg >>> 16 &&& 0xFF).setWidth 8
    progIf := (classReg >>> 8 &&& 0xFF).setWidth 8
    irq := (irqReg &&& 0xFF).setWidth 8
    bars := (range 6).map (pciReadBar p slot func) }

/-- The loop over the functions, `n` of them to go. -/
def funcLoop (p : Ports) (slot : ℕ) : ℕ → ℕ → List PciDevice → List PciDevice
  | 0, _, devices => devices
  | n + 1, func, devices =>
    if (p.config slot func 0 &&& 0xFFFF).setWidth 16 = vendorNone then
      if func = 0 then devices else funcLoop p slot n (func + 1) devices
    else
      let header := p.config slot func 0x0C
      let devices := devices ++ [scanned p slot func]
      if func = 0 ∧ header &&& 0x80 = 0 then devices else funcLoop p slot n (func + 1) devices

/-- `pci_scan`. -/
def pciScan (p : Ports) : List PciDevice :=
  (range maxSlots).foldl (fun devices slot => funcLoop p slot maxFuncs 0 devices) []

/-! ## What is to be found -/

/-- The registers of a function. -/
def Ports.register (p : Ports) (slot func i : ℕ) : U8 :=
  p.space ((base 0 (BitVec.ofNat 8 slot) (BitVec.ofNat 8 func)).toNat + i)

/-- The function exists. -/
def Present (p : Ports) (slot func : ℕ) : Prop := le16 (p.register slot func) 0 ≠ 0xFFFF

instance decidablePresent (p : Ports) (slot func : ℕ) : Decidable (Present p slot func) :=
  inferInstanceAs (Decidable (_ ≠ _))

/-- What the registers say about a function. -/
def described (p : Ports) (slot func : ℕ) : PciDevice :=
  let f := p.register slot func
  { vendorId := BitVec.ofNat 16 (le16 f 0)
    deviceId := BitVec.ofNat 16 (le16 f 2)
    bus := 0
    slot := BitVec.ofNat 8 slot
    func := BitVec.ofNat 8 func
    classCode := f 0x0B
    subclass := f 0x0A
    progIf := f 0x09
    irq := f 0x3C
    bars := (range 6).map fun b => BitVec.ofNat 32 (le32 f (0x10 + 4 * b)) }

/-- The functions of a slot: function 0, and with it the others if there are several. -/
def slotFunctions (p : Ports) (multi : Bool) (slot : ℕ) : List PciDevice :=
  (range maxFuncs).filterMap fun func =>
    if Present p slot 0 ∧ (func = 0 ∨ multi ∧ Present p slot func) then
      some (described p slot func)
    else none

/-- The functions in order, where `multi` says which slots have several. -/
def functions (p : Ports) (multi : ℕ → Bool) : List PciDevice :=
  (range maxSlots).flatMap fun slot => slotFunctions p (multi slot) slot

/-- Bit 7 of the header type. -/
def multiFunction (p : Ports) (slot : ℕ) : Bool := (p.register slot 0 0x0E).msb

/-- Bit 7 of the size of a cache line. -/
def cacheLineBit (p : Ports) (slot : ℕ) : Bool := (p.register slot 0 0x0C).msb

/-! ## What the code finds -/

variable {p : Ports} {slot func : ℕ}

lemma byte_config (offset : U8) (h : offset.toNat % 4 = 0) {j : ℕ} (hj : j < 4) :
    byte (p.config slot func offset) j = p.register slot func (offset.toNat + j) := by
  rw [Ports.config, byte_pciConfigRead hj, Ports.register, place, Nat.div_mul_cancel
    (dvd_of_mod_eq_zero h), add_assoc]

lemma config_eq {offset : U8} (h : offset.toNat % 4 = 0) :
    p.config slot func offset = BitVec.ofNat 32 (le32 (p.register slot func) offset.toNat) := by
  show BitVec.ofNat 32 (le32 p.space _) = _
  rw [decoded_configAddress, place, Nat.div_mul_cancel (Nat.dvd_of_mod_eq_zero h)]
  exact congrArg _ (le32_congr fun i _ => by rw [Ports.register, add_assoc])

lemma vendor_config :
    (p.config slot func 0 &&& 0xFFFF).setWidth 16 =
      BitVec.ofNat 16 (le16 (p.register slot func) 0) := by
  have hlow : ((0xFFFF : U32).setWidth 16) = BitVec.allOnes 16 := rfl
  rw [BitVec.setWidth_and, hlow, BitVec.and_allOnes, config_eq rfl,
    BitVec.setWidth_ofNat_of_le (by decide)]
  refine BitVec.eq_of_toNat_eq ?_
  simp only [BitVec.toNat_ofNat, le32, show (0 : U8).toNat = 0 from rfl]
  omega

lemma device_config :
    (p.config slot func 0 >>> 16).setWidth 16 =
      BitVec.ofNat 16 (le16 (p.register slot func) 2) := by
  have hlow := le16_lt (p.register slot func) 0
  have hhigh := le16_lt (p.register slot func) 2
  rw [config_eq rfl]
  refine BitVec.eq_of_toNat_eq ?_
  rw [BitVec.toNat_setWidth, BitVec.toNat_ushiftRight, shiftRight_eq_div_pow,
    BitVec.toNat_ofNat, mod_eq_of_lt (le32_lt _ _), BitVec.toNat_ofNat]
  simp only [le32, show (0 : U8).toNat = 0 from rfl, zero_add]
  omega

lemma setWidth_and_ff (x : U32) : (x &&& 0xFF).setWidth 8 = x.setWidth 8 := by
  rw [BitVec.setWidth_and]
  exact BitVec.and_allOnes

lemma scanned_eq : scanned p slot func = described p slot func := by
  simp only [scanned, described, vendor_config, device_config, setWidth_and_ff, PciDevice.mk.injEq,
    true_and]
  refine ⟨byte_config 8 rfl (j := 3) (by decide), byte_config 8 rfl (j := 2) (by decide),
    byte_config 8 rfl (j := 1) (by decide), byte_config 0x3C rfl (j := 0) (by decide),
    map_congr_left fun b hb => ?_⟩
  have hb := mem_range.mp hb
  have hoffset : (BitVec.ofNat 8 (0x10 + b * 4)).toNat = 0x10 + 4 * b := by
    rw [BitVec.toNat_ofNat]
    omega
  rw [pciReadBar, config_eq (by omega), hoffset]

lemma vendorNone_iff :
    (p.config slot func 0 &&& 0xFFFF).setWidth 16 = vendorNone ↔ ¬Present p slot func := by
  have hlt := le16_lt (p.register slot func) 0
  rw [vendor_config, Present, not_not, ← BitVec.toNat_inj, BitVec.toNat_ofNat,
    mod_eq_of_lt hlt]
  rfl

lemma header_iff : p.config slot 0 0x0C &&& 0x80 = 0 ↔ cacheLineBit p slot = false := by
  have hbyte : byte (p.config slot 0 0x0C) 0 = _ := byte_config 0x0C rfl (by decide)
  have hbit : (0x80 : U32) = BitVec.twoPow 32 7 := rfl
  rw [cacheLineBit, ← show _ = p.register slot 0 0x0C from hbyte, hbit, BitVec.and_twoPow]
  generalize p.config slot 0 0x0C = x
  have hmsb : (byte x 0).msb = x.getLsbD 7 := by
    simp [byte, BitVec.msb_eq_getLsbD_last]
  rw [hmsb]
  cases x.getLsbD 7 <;> simp
  decide

lemma funcLoop_succ (n func : ℕ) (devices : List PciDevice) :
    funcLoop p slot n (func + 1) devices = devices ++ (range' (func + 1) n).filterMap
      fun func => if Present p slot func then some (described p slot func) else none := by
  induction n generalizing func devices with
  | zero => simp [funcLoop]
  | succ n ih =>
    rw [funcLoop, range'_succ, filterMap_cons, scanned_eq]
    by_cases hpresent : Present p slot (func + 1)
    · rw [if_neg (vendorNone_iff.not.mpr (not_not.mpr hpresent))]
      simp [hpresent, ih]
    · rw [if_pos (vendorNone_iff.mpr hpresent)]
      simp [hpresent, ih]

lemma funcLoop_zero (devices : List PciDevice) :
    funcLoop p slot maxFuncs 0 devices =
      devices ++ slotFunctions p (cacheLineBit p slot) slot := by
  rw [slotFunctions, show range maxFuncs = 0 :: range' 1 7 from rfl, filterMap_cons,
    show maxFuncs = 7 + 1 from rfl, funcLoop, scanned_eq]
  by_cases hpresent : Present p slot 0
  · rw [if_neg (vendorNone_iff.not.mpr (not_not.mpr hpresent))]
    simp only [header_iff, true_and, hpresent, true_or, if_true]
    cases hbit : cacheLineBit p slot with
    | false =>
      have hnone : (range' 1 7).filterMap (fun func =>
          if func = 0 ∨ false = true ∧ Present p slot func then some (described p slot func)
          else none) = [] := by
        refine filterMap_eq_nil_iff.mpr fun func hfunc => if_neg ?_
        have := (mem_range'_1.mp hfunc).1
        simp
        omega
      rw [if_pos rfl, hnone]
    | true =>
      rw [if_neg (by simp), funcLoop_succ, append_assoc, singleton_append]
      congr 2
      refine filterMap_congr fun func hfunc => if_congr ?_ rfl rfl
      have := (mem_range'_1.mp hfunc).1
      simp
      omega
  · rw [if_pos (vendorNone_iff.mpr hpresent)]
    simp [hpresent]

lemma pciScan_eq (p : Ports) : pciScan p = functions p (cacheLineBit p) := by
  simp only [pciScan, functions, funcLoop_zero]
  exact (flatMap_eq_foldl ..).symm

lemma length_functions (p : Ports) (multi : ℕ → Bool) : (functions p multi).length ≤ 256 := by
  rw [functions, length_flatMap]
  refine (sum_le_card_nsmul _ maxFuncs fun n hn => ?_).trans (by simp [maxSlots, maxFuncs])
  obtain ⟨slot, -, rfl⟩ := mem_map.mp hn
  exact (length_filterMap_le _ _).trans_eq length_range

lemma described_mem_functions {multi : ℕ → Bool} (hslot : slot < maxSlots)
    (hfunc : func < maxFuncs) :
    described p slot func ∈ functions p multi ↔
      Present p slot 0 ∧ (func = 0 ∨ multi slot ∧ Present p slot func) := by
  have hinj {m n : ℕ} (hm : m < 256) (hn : n < 256) (h : BitVec.ofNat 8 m = BitVec.ofNat 8 n) :
      m = n := by
    have := congrArg BitVec.toNat h
    rwa [BitVec.toNat_ofNat, BitVec.toNat_ofNat, mod_eq_of_lt hm, mod_eq_of_lt hn] at this
  simp only [maxSlots, maxFuncs] at hslot hfunc
  constructor
  · intro h
    obtain ⟨slot', hslot', hmem⟩ := mem_flatMap.mp h
    obtain ⟨func', hfunc', heq⟩ := mem_filterMap.mp hmem
    have hslot' : slot' < 32 := mem_range.mp hslot'
    have hfunc' : func' < 8 := mem_range.mp hfunc'
    split_ifs at heq with hexpected
    have heq := Option.some.inj heq
    obtain rfl := hinj (by omega) (by omega) (congrArg PciDevice.slot heq)
    obtain rfl := hinj (by omega) (by omega) (congrArg PciDevice.func heq)
    exact hexpected
  · intro h
    exact mem_flatMap.mpr ⟨slot, mem_range.mpr hslot, mem_filterMap.mpr
      ⟨func, mem_range.mpr hfunc, if_pos h⟩⟩

/-- **Enumeration.**  The table is never overrun, and it holds the functions that are present, once
and in order, exactly if in every slot with a function 0 and another one the bit that is tested has
the value of bit 7 of the header type. -/
theorem pci_scan_iff (p : Ports) :
    (pciScan p = functions p (multiFunction p) ∧ (pciScan p).length ≤ 256) ↔
      ∀ slot < maxSlots, Present p slot 0 →
        (∃ func, 0 < func ∧ func < maxFuncs ∧ Present p slot func) →
        cacheLineBit p slot = multiFunction p slot := by
  rw [pciScan_eq, and_iff_left (length_functions p _)]
  constructor
  · rintro heq slot hslot hzero ⟨func, hpos, hfunc, hpresent⟩
    have hmem : described p slot func ∈ functions p (cacheLineBit p) ↔
        described p slot func ∈ functions p (multiFunction p) := by rw [heq]
    have hbit (b : Bool) : Present p slot 0 ∧ (func = 0 ∨ b = true ∧ Present p slot func) ↔
        b = true :=
      ⟨fun h => (h.2.resolve_left hpos.ne').1, fun h => ⟨hzero, .inr ⟨h, hpresent⟩⟩⟩
    rw [described_mem_functions hslot hfunc, described_mem_functions hslot hfunc, hbit,
      hbit] at hmem
    exact Bool.eq_iff_iff.mpr hmem
  · intro h
    refine flatMap_congr fun slot hslot => filterMap_congr fun func hfunc => if_congr ?_ rfl rfl
    refine and_congr_right fun hzero => or_congr_right' fun hpos => ?_
    refine and_congr_left fun hpresent => ?_
    rw [h slot (mem_range.mp hslot) hzero
      ⟨func, pos_of_ne_zero hpos, mem_range.mp hfunc, hpresent⟩]

/-- The functions 0 and 1 in slot 1, the header type `0x80`, the size of a cache line 0. -/
def twoFunctions : Ports :=
  ⟨0, fun a =>
    if a = 0x800 ∨ a = 0x900 ∨ a = 0x80C then 0
    else if a = 0x80E then 0x80
    else 0xFF⟩

/-- **Function 1 is missed.** -/
theorem pci_scan_misses :
    (pciScan twoFunctions).length = 1 ∧
    (functions twoFunctions (multiFunction twoFunctions)).length = 2 := by
  constructor <;> decide +kernel

end OpenHobbyOS.Pci
