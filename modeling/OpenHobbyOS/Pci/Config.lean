/-
# Access to the PCI configuration space

`src/pci.c` reads and writes double words through two ports; `pci_read_raw` and `pci_write_raw` of
`src/uacpi_port.c` make accesses of one, two and four bytes of them.  The read forgets where in its
double word an access starts, and the write puts one byte where two are asked for.  The space is a
store of bytes behind the ports.
-/
import OpenHobbyOS.Lib.Bytes
import OpenHobbyOS.Paging.Entry

namespace OpenHobbyOS.Pci

open Lib List BitVec

/-! ## The ports -/

/-- The address register, and the configuration space of all functions. -/
structure Ports where
  address : U32
  space : ℕ → U8

/-- Where a function has its registers. -/
def base (bus slot func : U8) : U32 :=
  bus.setWidth 32 <<< 16 ||| slot.setWidth 32 <<< 11 ||| func.setWidth 32 <<< 8

/-- The word for the address port. -/
def configAddress (bus slot func offset : U8) : U32 :=
  base bus slot func ||| (offset &&& 0xFC).setWidth 32 ||| 0x80000000

/-- The double word that the address register names, if bit 31 enables the access. -/
def Ports.decoded (p : Ports) : ℕ := (p.address &&& 0x7FFFFFFC).toNat

/-- `outl(PCI_CONF_ADDR, …)`. -/
def Ports.setAddress (p : Ports) (address : U32) : Ports := { p with address := address }

/-- `inl(PCI_CONF_DATA)`. -/
def Ports.data (p : Ports) : U32 := BitVec.ofNat 32 (le32 p.space p.decoded)

/-- `outl(PCI_CONF_DATA, …)`. -/
def Ports.setData (p : Ports) (value : U32) : Ports :=
  { p with space := splice p.space p.decoded (le32Bytes value.toNat) }

/-- `pci_config_read`. -/
def pciConfigRead (bus slot func offset : U8) (p : Ports) : U32 × Ports :=
  let p := p.setAddress (configAddress bus slot func offset)
  (p.data, p)

/-- `pci_config_write`. -/
def pciConfigWrite (bus slot func offset : U8) (value : U32) (p : Ports) : Ports :=
  (p.setAddress (configAddress bus slot func offset)).setData value

/-! ## Accesses of the ACPI interpreter -/

/-- `uacpi_pci_address`. -/
structure PciAddress where
  bus : U8
  device : U8
  function : U8

/-- `pci_read_raw`. -/
def pciReadRaw (addr : PciAddress) (offset : U32) (p : Ports) : U32 × Ports :=
  pciConfigRead addr.bus addr.device addr.function (offset.setWidth 8) p

/-- `pci_write_raw`. -/
def pciWriteRaw (addr : PciAddress) (offset : U32) (width : ℕ) (value : U32) (p : Ports) : Ports :=
  if width = 4 then pciConfigWrite addr.bus addr.device addr.function (offset.setWidth 8) value p
  else
    let at4 := (offset &&& ~~~3).setWidth 8
    let (orig, p) := pciConfigRead addr.bus addr.device addr.function at4 p
    let shift := ((offset &&& 3) * 8).toNat
    let mask : U32 := if width = 1 then 0xFF else 0xFFFF
    let mask := mask <<< shift
    let orig := (orig &&& ~~~mask) ||| ((value &&& 0xFF) <<< shift)
    pciConfigWrite addr.bus addr.device addr.function at4 orig p

/-- `uacpi_kernel_pci_read8`, `read16` and `read32`, for `width` bytes. -/
def pciRead (width : ℕ) (addr : PciAddress) (offset : U32) (p : Ports) :
    BitVec (8 * width) × Ports :=
  let (value, p) := pciReadRaw addr offset p
  (value.setWidth (8 * width), p)

/-- `uacpi_kernel_pci_write8`, `write16` and `write32`. -/
def pciWrite (width : ℕ) (addr : PciAddress) (offset : U32) (value : BitVec (8 * width))
    (p : Ports) : Ports :=
  pciWriteRaw addr offset width (value.setWidth 32) p

/-! ## Double words and bytes -/

/-- Byte `j` of a double word. -/
def byte (x : U32) (j : ℕ) : U8 := (x >>> (8 * j)).setWidth 8

lemma byte_eq_getD (x : U32) {j : ℕ} (hj : j < 4) : byte x j = (le32Bytes x.toNat).getD j 0 := by
  refine eq_of_toNat_eq ?_
  interval_cases j <;> simp [byte, le32Bytes, Nat.shiftRight_eq_div_pow]

/-- `n` bytes of ones. -/
def mask (n : ℕ) : U32 := (BitVec.allOnes (8 * n)).setWidth 32

lemma getLsbD_mask (n q : ℕ) : (mask n).getLsbD q = (decide (q < 32) && decide (q < 8 * n)) := by
  simp [mask]

lemma byte_merge (x v : U32) {n j k : ℕ} (hj : j < 4) (hn : 1 ≤ n) :
    byte ((x &&& ~~~(mask n <<< (8 * k))) ||| ((v &&& 0xFF) <<< (8 * k))) j =
      if j = k then v.setWidth 8 else if k < j ∧ j < k + n then 0 else byte x j := by
  refine eq_of_getLsbD_eq fun i hi => ?_
  rw [show (0xFF : U32) = mask 1 from rfl]
  simp only [byte, getLsbD_setWidth, getLsbD_ushiftRight, getLsbD_or,
    getLsbD_and, getLsbD_not, getLsbD_shiftLeft, getLsbD_mask, hi,
    decide_true, Bool.true_and, show 8 * j + i < 32 by omega]
  split_ifs with hat hin
  · subst hat
    simp [show ¬8 * j + i < 8 * j by omega, show i < 8 * n by omega, hi, show i < 32 by omega]
  · simp [show ¬8 * j + i < 8 * k by omega, show 8 * j + i - 8 * k < 8 * n by omega,
      show ¬8 * j + i - 8 * k < 8 by omega, show 8 * j + i - 8 * k < 32 by omega]
  · rcases Nat.lt_or_ge j k with hlt | hge
    · simp [show 8 * j + i < 8 * k by omega, hi]
    · simp [show ¬8 * j + i - 8 * k < 8 * n by omega, show ¬8 * j + i - 8 * k < 8 by omega, hi]

lemma toNat_and_fc (offset : U8) : (offset &&& 0xFC).toNat = offset.toNat / 4 * 4 := by
  revert offset
  decide

/-- The first register of the double word with the offset `offset`. -/
def place (bus slot func offset : U8) : ℕ := (base bus slot func).toNat + offset.toNat / 4 * 4

lemma decoded_configAddress (p : Ports) (bus slot func offset : U8) :
    (p.setAddress (configAddress bus slot func offset)).decoded = place bus slot func offset := by
  have hmask : configAddress bus slot func offset &&& 0x7FFFFFFC =
      base bus slot func ||| (offset &&& 0xFC).setWidth 32 := by
    refine eq_of_getLsbD_eq fun i hi => ?_
    interval_cases i <;> simp [configAddress, base]
  have hlow : ∃ m, (base bus slot func).toNat = 2 ^ 8 * m := by
    have hshift : base bus slot func =
        (bus.setWidth 32 <<< 8 ||| slot.setWidth 32 <<< 3 ||| func.setWidth 32) <<< 8 := by
      rw [shiftLeft_or_distrib, shiftLeft_or_distrib, ← shiftLeft_add,
        ← shiftLeft_add]
      rfl
    generalize bus.setWidth 32 <<< 8 ||| slot.setWidth 32 <<< 3 ||| func.setWidth 32 = x at hshift
    refine ⟨x.toNat % 2 ^ 24, ?_⟩
    rw [hshift, toNat_shiftLeft, Nat.shiftLeft_eq]
    omega
  obtain ⟨m, hm⟩ := hlow
  have hoff := offset.isLt
  show (configAddress bus slot func offset &&& 0x7FFFFFFC).toNat = _
  rw [hmask, toNat_or, toNat_setWidth_of_le (by decide), toNat_and_fc, place, hm,
    Nat.two_pow_add_eq_or_of_lt (by omega)]

variable {bus slot func offset : U8} {p : Ports}

lemma byte_pciConfigRead {j : ℕ} (hj : j < 4) :
    byte (pciConfigRead bus slot func offset p).1 j = p.space (place bus slot func offset + j) := by
  rw [byte_eq_getD _ hj, ← decoded_configAddress p]
  show (le32Bytes (BitVec.ofNat 32 (le32 p.space _)).toNat).getD j 0 = _
  rw [toNat_ofNat, Nat.mod_eq_of_lt (le32_lt _ _), getD_le32Bytes_le32 _ _ hj]

lemma space_pciConfigWrite (value : U32) :
    (pciConfigWrite bus slot func offset value p).space =
      splice p.space (place bus slot func offset) (le32Bytes value.toNat) := by
  rw [← decoded_configAddress p]
  rfl

lemma space_pciConfigWrite_apply (value : U32) (a : ℕ) :
    (pciConfigWrite bus slot func offset value p).space a =
      if place bus slot func offset ≤ a ∧ a < place bus slot func offset + 4 then
        byte value (a - place bus slot func offset)
      else p.space a := by
  rw [space_pciConfigWrite, splice]
  split_ifs with hle hin hin
  · have hlt : a - place bus slot func offset < (le32Bytes value.toNat).length := by
      rw [length_le32Bytes]
      omega
    rw [byte_eq_getD _ (by omega), getD_eq_getElem _ _ hlt, getD_eq_getElem _ _ hlt]
  · exact getD_eq_default _ _ (by rw [length_le32Bytes]; omega)
  · omega
  · rfl

/-! ## What an access does -/

/-- The number in `width` bytes of a store. -/
def stored (width : ℕ) (f : ℕ → U8) (a : ℕ) : BitVec (8 * width) := BitVec.ofNat _ (le32 f a)

lemma stored_congr {width : ℕ} (hw : width = 1 ∨ width = 2 ∨ width = 4) {f g : ℕ → U8} {a b : ℕ}
    (h : ∀ i < width, f (a + i) = g (b + i)) : stored width f a = stored width g b := by
  refine eq_of_toNat_eq ?_
  have h₀ := h 0 (by omega)
  simp only [stored, toNat_ofNat, le32, le16, Nat.add_zero] at h₀ ⊢
  rcases hw with rfl | rfl | rfl
  · rw [h₀]
    omega
  · rw [h₀, h 1 (by omega)]
    omega
  · rw [h₀, h 1 (by omega), h 2 (by omega), add_assoc a, add_assoc b, h 3 (by omega)]

variable {addr : PciAddress} {width : ℕ} {value : BitVec (8 * width)}

/-- The first register of a function. -/
def PciAddress.base (addr : PciAddress) : ℕ := (Pci.base addr.bus addr.device addr.function).toNat

lemma pciRead_eq (hw : width ≤ 4) :
    (pciRead width addr (offset.setWidth 32) p).1 =
      stored width p.space (addr.base + offset.toNat / 4 * 4) := by
  have hoffset : (offset.setWidth 32).setWidth 8 = offset := by simp
  show BitVec.setWidth (8 * width) (pciReadRaw addr (offset.setWidth 32) p).1 = _
  rw [pciReadRaw, hoffset, pciConfigRead]
  show BitVec.setWidth _ (BitVec.ofNat 32 (le32 p.space _)) = _
  rw [decoded_configAddress, setWidth_ofNat_of_le (by omega)]
  rfl

lemma space_pciWrite_four {value : BitVec (8 * 4)} :
    (pciWrite 4 addr (offset.setWidth 32) value p).space =
      splice p.space (addr.base + offset.toNat / 4 * 4) (le32Bytes value.toNat) := by
  have hoffset : (offset.setWidth 32).setWidth 8 = offset := by simp
  rw [pciWrite, pciWriteRaw, if_pos rfl, space_pciConfigWrite, hoffset]
  rfl

/-- A narrow write puts the low byte of the value, and zero over the byte behind it if two are
written. -/
lemma space_pciWrite (hw : width = 1 ∨ width = 2) (hfit : offset.toNat % 4 + width ≤ 4) (a : ℕ) :
    (pciWrite width addr (offset.setWidth 32) value p).space a =
      if a = addr.base + offset.toNat then value.setWidth 8
      else if addr.base + offset.toNat < a ∧ a < addr.base + offset.toNat + width then 0
      else p.space a := by
  have hoffset : (offset.setWidth 32 &&& ~~~3).setWidth 8 = offset &&& 0xFC := by simp
  have hshift : ((offset.setWidth 32 &&& 3 : U32) * 8).toNat = 8 * (offset.toNat % 4) := by
    rw [toNat_mul, toNat_and, toNat_setWidth_of_le (by decide),
      show (3 : U32).toNat = 2 ^ 2 - 1 from rfl, Nat.and_two_pow_sub_one_eq_mod,
      show (8 : U32).toNat = 8 from rfl]
    omega
  have hmask : (if width = 1 then 0xFF else 0xFFFF : U32) = mask width := by
    rcases hw with rfl | rfl <;> rfl
  have hplace : place addr.bus addr.device addr.function (offset &&& 0xFC) =
      addr.base + offset.toNat / 4 * 4 := by
    rw [place, toNat_and_fc, Nat.mul_div_cancel _ (by decide)]
    rfl
  rw [pciWrite, pciWriteRaw, if_neg (by omega)]
  simp only [hoffset, hshift, hmask]
  rw [space_pciConfigWrite_apply, hplace]
  by_cases hin : addr.base + offset.toNat / 4 * 4 ≤ a ∧ a < addr.base + offset.toNat / 4 * 4 + 4
  · rw [if_pos hin, byte_merge _ _ (by omega) (by omega), byte_pciConfigRead (by omega), hplace]
    have hbyte : (value.setWidth 32).setWidth 8 = value.setWidth 8 := by simp
    rw [hbyte]
    refine if_congr (by omega) rfl (if_congr (by omega) rfl ?_)
    rw [Nat.add_sub_cancel' hin.1]
  · rw [if_neg hin, if_neg (by omega), if_neg (by omega)]
    rfl

/-- An access reads the bytes at its offset, what was written is read back, and no other byte
changes. -/
structure Faithful (p : Ports) (addr : PciAddress) (width : ℕ) (offset : U8)
    (value : BitVec (8 * width)) : Prop where
  read : (pciRead width addr (offset.setWidth 32) p).1 =
    stored width p.space (addr.base + offset.toNat)
  readBack : (pciRead width addr (offset.setWidth 32)
    (pciWrite width addr (offset.setWidth 32) value p)).1 = value
  frame : ∀ a, a < addr.base + offset.toNat ∨ addr.base + offset.toNat + width ≤ a →
    (pciWrite width addr (offset.setWidth 32) value p).space a = p.space a

lemma pciWrite_frame (hw : width = 1 ∨ width = 2 ∨ width = 4) (haligned : width ∣ offset.toNat)
    {a : ℕ} (ha : a < addr.base + offset.toNat ∨ addr.base + offset.toNat + width ≤ a) :
    (pciWrite width addr (offset.setWidth 32) value p).space a = p.space a := by
  by_cases hfour : width = 4
  · subst hfour
    rw [space_pciWrite_four, splice]
    split_ifs
    · exact getD_eq_default _ _ (by rw [length_le32Bytes]; omega)
    · rfl
  · have hnarrow : width = 1 ∨ width = 2 := by omega
    have hfit : offset.toNat % 4 + width ≤ 4 := by rcases hnarrow with rfl | rfl <;> omega
    rw [space_pciWrite hnarrow hfit, if_neg (by omega), if_neg (by omega)]

lemma stored_pciWrite (hw : width = 1 ∨ width = 2 ∨ width = 4) (hstart : offset.toNat % 4 = 0) :
    stored width (pciWrite width addr (offset.setWidth 32) value p).space
      (addr.base + offset.toNat) = value ↔ (width = 2 → value.toNat < 256) := by
  have hone (f : ℕ → U8) (a : ℕ) : (stored 1 f a).toNat = (f a).toNat := by
    simp only [stored, toNat_ofNat, le32, le16]
    omega
  have htwo (f : ℕ → U8) (a : ℕ) :
      (stored 2 f a).toNat = (f a).toNat + 256 * (f (a + 1)).toNat := by
    have h₀ := (f a).isLt
    have h₁ := (f (a + 1)).isLt
    simp only [stored, toNat_ofNat, le32, le16]
    omega
  have hvalue := value.isLt
  rw [← toNat_inj]
  rcases hw with rfl | rfl | rfl
  · rw [hone, space_pciWrite (.inl rfl) (by omega), if_pos rfl, toNat_setWidth]
    exact iff_of_true (Nat.mod_eq_of_lt hvalue) (by omega)
  · rw [htwo, space_pciWrite (.inr rfl) (by omega), space_pciWrite (.inr rfl) (by omega),
      if_pos rfl, if_neg (by omega), if_pos (by omega), toNat_setWidth]
    simp only [ofNat_eq_ofNat, toNat_ofNat, forall_const]
    omega
  · rw [space_pciWrite_four, show offset.toNat / 4 * 4 = offset.toNat by omega, stored,
      le32_of_holds hvalue (holds_splice _ _ _), ofNat_toNat]
    simp

/-- **Configuration accesses.**  An access is faithful exactly if it starts a double word and does
not write two bytes with the higher one not zero, or if by chance the bytes are the same. -/
theorem pci_access_iff (p : Ports) (addr : PciAddress) (width : ℕ) (offset : U8)
    (value : BitVec (8 * width)) (hw : width = 1 ∨ width = 2 ∨ width = 4)
    (haligned : width ∣ offset.toNat) :
    Faithful p addr width offset value ↔
      if offset.toNat % 4 = 0 then width = 2 → value.toNat < 256
      else stored width p.space (addr.base + offset.toNat / 4 * 4) = value ∧
        stored width p.space (addr.base + offset.toNat) = value := by
  have hread (p : Ports) : (pciRead width addr (offset.setWidth 32) p).1 = _ :=
    pciRead_eq (show width ≤ 4 by omega)
  have hparts : Faithful p addr width offset value ↔
      stored width p.space (addr.base + offset.toNat / 4 * 4) =
        stored width p.space (addr.base + offset.toNat) ∧
      stored width (pciWrite width addr (offset.setWidth 32) value p).space
        (addr.base + offset.toNat / 4 * 4) = value := by
    rw [← hread, ← hread]
    exact ⟨fun h => ⟨h.read, h.readBack⟩,
      fun h => ⟨h.1, h.2, fun a => pciWrite_frame hw haligned⟩⟩
  rw [hparts]
  split_ifs with hstart
  · rw [show offset.toNat / 4 * 4 = offset.toNat by omega, stored_pciWrite hw hstart]
    exact and_iff_right rfl
  · -- the bytes that are read are not those that are written
    have hnarrow : width = 1 ∨ width = 2 := by
      rcases hw with h | h | rfl
      · exact .inl h
      · exact .inr h
      · omega
    have hfit : offset.toNat % 4 + width ≤ 4 := by rcases hnarrow with rfl | rfl <;> omega
    have hbehind : width ≤ offset.toNat % 4 := by rcases hnarrow with rfl | rfl <;> omega
    have hsame : stored width (pciWrite width addr (offset.setWidth 32) value p).space
        (addr.base + offset.toNat / 4 * 4) =
        stored width p.space (addr.base + offset.toNat / 4 * 4) :=
      stored_congr hw fun i hi => pciWrite_frame hw haligned (by omega)
    rw [hsame]
    constructor
    · rintro ⟨heq, hvalue⟩
      exact ⟨hvalue, heq ▸ hvalue⟩
    · rintro ⟨hvalue, hvalue'⟩
      exact ⟨hvalue.trans hvalue'.symm, hvalue⟩

/-- A space of zeros. -/
def zeros : Ports := ⟨0, fun _ => 0⟩

theorem pci_access_iff_first :
    Faithful zeros ⟨0, 1, 0⟩ 1 8 7 ↔
      if (8 : U8).toNat % 4 = 0 then 1 = 2 → (7 : U8).toNat < 256
      else stored 1 zeros.space (PciAddress.base ⟨0, 1, 0⟩ + (8 : U8).toNat / 4 * 4) = 7 ∧
        stored 1 zeros.space (PciAddress.base ⟨0, 1, 0⟩ + (8 : U8).toNat) = 7 :=
  pci_access_iff zeros ⟨0, 1, 0⟩ 1 8 7 (.inl rfl) (one_dvd _)

/-- A register at offset 5, written with 7, reads back as zero, and `0x1234` at offset 4 as
`0x34`. -/
theorem pci_access_fails :
    (pciRead 1 ⟨0, 1, 0⟩ 5 (pciWrite 1 ⟨0, 1, 0⟩ 5 7 zeros)).1 = 0 ∧
    (pciRead 2 ⟨0, 1, 0⟩ 4 (pciWrite 2 ⟨0, 1, 0⟩ 4 0x1234 zeros)).1 = 0x34 := by
  constructor <;> decide +kernel

end OpenHobbyOS.Pci
