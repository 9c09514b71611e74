/-
# Sectors of the drives

The block layer hands requests to `ata.c`, which puts the number of each sector and the drive into
the registers of a channel.  A controller takes 28 bits of the number; the size a drive reports may
be larger.
-/
import OpenHobbyOS.Lib.Bytes
import OpenHobbyOS.Paging.Entry

namespace OpenHobbyOS.Ata

open Lib BitVec Option List Nat

/-- 16-bit words. -/
abbrev U16 := BitVec 16

/-- 64-bit words. -/
abbrev U64 := BitVec 64

/-! ## The channels -/

/-- A command: the drive and the sector that the registers name at that time. -/
structure Command where
  code : U8
  channel : U16
  drive : U8
  lba : ℕ
  deriving DecidableEq

/-- The registers as they were written, the commands, the number of status reads, and the data. -/
structure Ports where
  regs : U16 → U8
  commands : List Command
  statusReads : ℕ
  received : List U16
  sent : List U16

/-- What the drives answer: the status at each read of it, and each word of data. -/
structure Hardware where
  status : ℕ → U8
  data : ℕ → U16

/-- What a controller takes from its registers when it is given a command. -/
def Ports.command (p : Ports) (ioBase : U16) (code : U8) : Command :=
  ⟨code, ioBase, (p.regs (ioBase + 6) >>> 4) &&& 1,
    (p.regs (ioBase + 3)).toNat + 2 ^ 8 * (p.regs (ioBase + 4)).toNat +
      2 ^ 16 * (p.regs (ioBase + 5)).toNat + 2 ^ 24 * ((p.regs (ioBase + 6)).toNat % 16)⟩

/-- `ata_write_reg`.  Register 7 takes commands. -/
def ataWriteReg (ioBase : U16) (reg : U16) (value : U8) (p : Ports) : Ports :=
  if reg = 7 then { p with commands := p.commands ++ [p.command ioBase value] }
  else { p with regs := fun port => if port = ioBase + reg then value else p.regs port }

/-- `ata_read_reg` of the status register. -/
def readStatus (hw : Hardware) (p : Ports) : U8 × Ports :=
  (hw.status p.statusReads, { p with statusReads := p.statusReads + 1 })

/-- `inw` of the data register, `n` times. -/
def readWords (hw : Hardware) (n : ℕ) (p : Ports) : Ports :=
  { p with received := p.received ++ window hw.data p.received.length n }

/-- `ata_delay`. -/
def ataDelay (p : Ports) : Ports := { p with statusReads := p.statusReads + 4 }

/-- `ata_select_drive`. -/
def ataSelectDrive (ioBase : U16) (drive : U8) (p : Ports) : Ports :=
  ataDelay (ataWriteReg ioBase 6 ((0xA0 ||| (drive.setWidth 32 <<< 4) : U32).setWidth 8) p)

/-- `ATA_STATUS_ERR`. -/
def statusErr : U8 := 0x01
/-- `ATA_STATUS_DRQ`. -/
def statusDrq : U8 := 0x08
/-- `ATA_STATUS_BSY`. -/
def statusBsy : U8 := 0x80
/-- `ATA_TIMEOUT`. -/
def ataTimeout : ℕ := 100000

/-- The loop of `ata_wait_ready`. -/
def waitLoop (hw : Hardware) (checkDrq : Bool) : ℕ → Ports → Bool × Ports
  | 0, p => (false, p)
  | timeout + 1, p =>
    let (status, p) := readStatus hw p
    if status &&& statusErr ≠ 0 then (false, p) else
    if status &&& statusBsy ≠ 0 then waitLoop hw checkDrq timeout p else
    if ¬checkDrq ∨ status &&& statusDrq ≠ 0 then (true, p) else waitLoop hw checkDrq timeout p

/-- `ata_wait_ready`. -/
def ataWaitReady (hw : Hardware) (checkDrq : Bool) (p : Ports) : Bool × Ports :=
  waitLoop hw checkDrq ataTimeout p

/-! ## Sectors -/

/-- `ata_device_t`: the channel and the number of the drive on it. -/
structure AtaDevice where
  ioBase : U16
  drive : U8
  deriving DecidableEq

/-- What goes into the register of the drive for a sector. -/
def driveByte (dev : AtaDevice) (lba : U32) : U8 :=
  (0xE0 ||| (dev.drive.setWidth 32 <<< 4) ||| lba >>> 24).setWidth 8

/-- The registers for the sector `lba`, and the command. -/
def addressSector (code : U8) (dev : AtaDevice) (lba : U32) (p : Ports) : Ports :=
  let p := ataSelectDrive dev.ioBase dev.drive p
  let p := ataWriteReg dev.ioBase 1 0 p
  let p := ataWriteReg dev.ioBase 2 1 p
  let p := ataWriteReg dev.ioBase 3 ((lba &&& 0xFF).setWidth 8) p
  let p := ataWriteReg dev.ioBase 4 ((lba >>> 8 &&& 0xFF).setWidth 8) p
  let p := ataWriteReg dev.ioBase 5 ((lba >>> 16 &&& 0xFF).setWidth 8) p
  let p := ataWriteReg dev.ioBase 6 (driveByte dev lba) p
  ataWriteReg dev.ioBase 7 code p

/-- The loop of `ata_read_sectors` and `ata_write_sectors` from `i` on, with `n` sectors left. -/
def sectorLoop (hw : Hardware) (code : U8) (move : ℕ → Ports → Ports) (dev : AtaDevice)
    (lba : U32) : ℕ → ℕ → Ports → Bool × Ports
  | 0, _, p => (true, p)
  | n + 1, i, p =>
    let (ready, p) := ataWaitReady hw true (addressSector code dev (lba + .ofNat 32 i) p)
    if ¬ready then (false, p) else sectorLoop hw code move dev lba n (i + 1) (move i p)

/-- The words that are written for a sector of the buffer. -/
def sectorWords (buffer : ℕ → U8) (i : ℕ) : List U16 :=
  (range 256).map fun j => (buffer (512 * i + 2 * j)).setWidth 16 |||
    ((buffer (512 * i + 2 * j + 1)).setWidth 16 <<< 8)

/-- `ata_read_sectors`: the buffer is the last words received. -/
def ataReadSectors (hw : Hardware) (dev : AtaDevice) (lba count : U32) : Ports → Bool × Ports :=
  sectorLoop hw 0x20 (fun _ => readWords hw 256) dev lba count.toNat 0

/-- `ata_write_sectors`. -/
def ataWriteSectors (hw : Hardware) (dev : AtaDevice) (lba count : U32) (buffer : ℕ → U8) :
    Ports → Bool × Ports :=
  sectorLoop hw 0x30 (fun i p => { p with sent := p.sent ++ sectorWords buffer i }) dev lba
    count.toNat 0

/-! ## Drives -/

/-- The loop of `ata_identify`: nothing after an error, or else `timeout` after the loop. -/
def identifyLoop (hw : Hardware) : ℕ → Ports → Option U32 × Ports
  | 0, p => (some 0xFFFFFFFF, p)
  | timeout + 1, p =>
    let (status, p) := readStatus hw p
    if status &&& statusErr ≠ 0 then (none, p) else
    if status &&& statusBsy = 0 ∧ status &&& statusDrq ≠ 0 then (some (.ofNat 32 timeout), p)
    else identifyLoop hw timeout p

/-- The size that a drive reports. -/
def reportedSectors (data : ℕ → U16) : U64 :=
  if data 83 &&& 0x0400 ≠ 0 then
    (data 100).setWidth 64 ||| (data 101).setWidth 64 <<< 16 ||| (data 102).setWidth 64 <<< 32 |||
      (data 103).setWidth 64 <<< 48
  else (data 60).setWidth 64 ||| (data 61).setWidth 64 <<< 16

/-- `ata_identify`: the number of sectors, if there is a drive. -/
def ataIdentify (hw : Hardware) (dev : AtaDevice) (p : Ports) : Option U64 × Ports :=
  let p := ataSelectDrive dev.ioBase dev.drive p
  let p := [2, 3, 4, 5].foldl (fun p reg => ataWriteReg dev.ioBase reg 0 p) p
  let p := ataWriteReg dev.ioBase 7 0xEC p
  let (status, p) := readStatus hw p
  if status = 0 then (none, p) else
  match identifyLoop hw ataTimeout p with
  | (none, p) => (none, p)
  | (some timeout, p) =>
    if timeout = 0 then (none, p) else
    (some (reportedSectors fun i => hw.data (p.received.length + i)), readWords hw 256 p)

/-- The four devices of `ata_init`. -/
def ataDevices : List AtaDevice := [⟨0x1F0, 0⟩, ⟨0x1F0, 1⟩, ⟨0x170, 0⟩, ⟨0x170, 1⟩]

/-- `blkdev_t`: the size and the device. -/
structure BlkDev where
  totalSectors : U64
  device : AtaDevice

/-- `ata_init`: the entries of `devices`. -/
def ataInit (hw : Hardware) : List AtaDevice → Ports → List (Option BlkDev)
  | [], _ => []
  | dev :: devs, p =>
    let (size, p) := ataIdentify hw dev p
    size.map (⟨·, dev⟩) :: ataInit hw devs p

/-- `blkdev_get`. -/
def blkdevGet (devices : List (Option BlkDev)) (id : U32) : Option BlkDev :=
  devices[id.toNat]?.join

/-- `blkdev_read` and `blkdev_write` up to the operation of the driver. -/
def blkdevCheck (devices : List (Option BlkDev)) (id : U32) (lba : U64) (count : U32)
    (op : AtaDevice → U32 → U32 → Ports → Bool × Ports) (p : Ports) : Bool × Ports :=
  match blkdevGet devices id with
  | none => (false, p)
  | some dev =>
    if dev.totalSectors < lba + count.setWidth 64 then (false, p)
    else op dev.device (lba.setWidth 32) count p

/-- `blkdev_read`. -/
def blkdevRead (hw : Hardware) (devices : List (Option BlkDev)) (id : U32) (lba : U64)
    (count : U32) : Ports → Bool × Ports :=
  blkdevCheck devices id lba count (ataReadSectors hw)

/-- `blkdev_write`. -/
def blkdevWrite (hw : Hardware) (devices : List (Option BlkDev)) (id : U32) (lba : U64)
    (count : U32) (buffer : ℕ → U8) : Ports → Bool × Ports :=
  blkdevCheck devices id lba count fun dev lba count => ataWriteSectors hw dev lba count buffer

/-! ## The commands of a request -/

variable {hw : Hardware} {p : Ports} {dev : AtaDevice} {code : U8} {lba : U32}
  {move : ℕ → Ports → Ports}

/-- The command for a sector. -/
def sectorCommand (code : U8) (dev : AtaDevice) (lba : U32) : Command :=
  ⟨code, dev.ioBase, (driveByte dev lba >>> 4) &&& 1, lba.toNat % 2 ^ 28⟩

lemma driveByte_mod (dev : AtaDevice) (lba : U32) :
    (driveByte dev lba).toNat % 16 = lba.toNat / 2 ^ 24 % 16 := by
  have hmod : ∀ a b : ℕ, (a ||| b) % 16 = a % 16 ||| b % 16 := fun a b =>
    Nat.or_mod_two_pow (n := 4)
  rw [driveByte, toNat_setWidth, mod_mod_of_dvd _ (by decide), toNat_or,
    toNat_or, hmod, hmod, toNat_shiftLeft, toNat_ushiftRight,
    Nat.shiftRight_eq_div_pow, Nat.shiftLeft_eq, Nat.mod_mod_of_dvd _ (by decide),
    mul_mod_left]
  exact zero_or _

lemma addressSector_commands (code : U8) (dev : AtaDevice) (lba : U32) (p : Ports) :
    (addressSector code dev lba p).commands = p.commands ++ [sectorCommand code dev lba] := by
  have hbyte : ∀ x : U32, ((x &&& 0xFF).setWidth 8).toNat = x.toNat % 256 := by
    intro x
    rw [toNat_setWidth, toNat_and]
    exact (mod_eq_of_lt (Nat.lt_of_le_of_lt and_le_right (by decide))).trans
      (and_two_pow_sub_one_eq_mod _ 8)
  have hlba := lba.isLt
  simp only [addressSector, ataSelectDrive, ataDelay, ataWriteReg, Ports.command, sectorCommand,
    reduceEq, ↓reduceIte, BitVec.add_right_inj]
  rw [hbyte, hbyte, hbyte, driveByte_mod, toNat_ushiftRight, toNat_ushiftRight,
    shiftRight_eq_div_pow, shiftRight_eq_div_pow]
  congr 3
  omega

lemma waitLoop_commands (hw : Hardware) (checkDrq : Bool) (timeout : ℕ) (p : Ports) :
    (waitLoop hw checkDrq timeout p).2.commands = p.commands := by
  induction timeout generalizing p with
  | zero => rfl
  | succ timeout ih =>
    rw [waitLoop, readStatus]
    dsimp only
    split_ifs
    · rfl
    · exact ih _
    · rfl
    · exact ih _

/-- A drive that is always ready. -/
def readyDrive : Hardware := ⟨fun _ => statusDrq, fun _ => 0⟩

lemma waitLoop_ready (timeout : ℕ) (p : Ports) :
    (waitLoop readyDrive true (timeout + 1) p).1 = true := by
  rw [waitLoop, readStatus, readyDrive]
  dsimp only
  rw [if_neg (by decide), if_neg (by decide), if_pos (by decide)]

/-- **The commands of a request**, one for each sector up to the first where the drive is not
ready. -/
lemma sectorLoop_commands (hmove : ∀ i p, (move i p).commands = p.commands) (n i : ℕ) (p : Ports) :
    ∃ k ≤ n, (hw = readyDrive → k = n) ∧
      (sectorLoop hw code move dev lba n i p).2.commands = p.commands ++
        (range' i k).map fun j => sectorCommand code dev (lba + .ofNat 32 j) := by
  induction n generalizing i p with
  | zero => exact ⟨0, le_rfl, fun _ => rfl, (append_nil _).symm⟩
  | succ n ih =>
    rw [sectorLoop]
    have hwait := waitLoop_commands hw true ataTimeout
      (addressSector code dev (lba + .ofNat 32 i) p)
    have hready : hw = readyDrive → (waitLoop hw true ataTimeout
        (addressSector code dev (lba + .ofNat 32 i) p)).1 = true := by
      rintro rfl
      exact waitLoop_ready 99999 _
    rw [ataWaitReady]
    generalize waitLoop hw true ataTimeout (addressSector code dev (lba + .ofNat 32 i) p) = w
      at hwait hready ⊢
    obtain ⟨ready, p₁⟩ := w
    dsimp only at hwait hready ⊢
    rw [addressSector_commands] at hwait
    cases ready with
    | false =>
      refine ⟨1, succ_pos n, fun hhw => absurd (hready hhw) Bool.false_ne_true, ?_⟩
      rw [if_pos Bool.false_ne_true, hwait]
      rfl
    | true =>
      obtain ⟨k, hk, hall, hcommands⟩ := ih (i + 1) (move i p₁)
      refine ⟨k + 1, succ_le_succ hk, fun hhw => congrArg (· + 1) (hall hhw), ?_⟩
      rw [if_neg (not_not.mpr rfl), hcommands, hmove, hwait, range'_succ, map_cons,
        List.append_assoc]
      rfl

/-- The sectors of a request are those of a device from a number on. -/
def Selects (dev : AtaDevice) (lba : ℕ) (commands : List Command) : Prop :=
  ∀ i c, commands[i]? = some c → c.channel = dev.ioBase ∧ c.drive = dev.drive ∧ c.lba = lba + i

lemma sectorCommand_right (hdrive : dev.drive = 0 ∨ dev.drive = 1) (lba : U64) (i : ℕ) :
    ((sectorCommand code dev (lba.setWidth 32 + .ofNat 32 i)).drive = dev.drive ∧
      (sectorCommand code dev (lba.setWidth 32 + .ofNat 32 i)).lba = lba.toNat + i) ↔
      lba.toNat + i < 2 ^ 28 := by
  have hnumber : (lba.setWidth 32 + .ofNat 32 i).toNat = (lba.toNat + i) % 2 ^ 32 := by
    rw [toNat_add, toNat_setWidth, toNat_ofNat, ← add_mod]
  generalize lba.setWidth 32 + .ofNat 32 i = x at hnumber ⊢
  rw [sectorCommand]
  constructor
  · rintro ⟨-, hlba⟩
    dsimp only at hlba
    omega
  · intro hlt
    refine ⟨?_, show x.toNat % 2 ^ 28 = _ by omega⟩
    -- the number leaves the bit of the drive alone
    have hhigh : ∀ k : Fin 16, ∀ d : U8, d = 0 ∨ d = 1 →
        ((0xE0 ||| (d.setWidth 32 <<< 4) ||| .ofNat 32 k).setWidth 8 >>> 4) &&& 1 = d := by
      rintro k d (rfl | rfl)
      · revert k
        decide
      · revert k
        decide
    have hk : x >>> 24 = .ofNat 32 (x.toNat / 2 ^ 24) := by
      rw [← shiftRight_eq_div_pow, ← toNat_ushiftRight, ofNat_toNat,
        setWidth_eq]
    show (driveByte dev x >>> 4) &&& 1 = dev.drive
    rw [driveByte, hk]
    exact hhigh ⟨x.toNat / 2 ^ 24, by omega⟩ _ hdrive

lemma selects_iff (hdrive : dev.drive = 0 ∨ dev.drive = 1) (lba : U64) (k : ℕ) :
    Selects dev lba.toNat ((range' 0 k).map fun j =>
        sectorCommand code dev (lba.setWidth 32 + .ofNat 32 j)) ↔
      k = 0 ∨ lba.toNat + k ≤ 2 ^ 28 := by
  have hget : ∀ i c, ((range' 0 k).map fun j =>
      sectorCommand code dev (lba.setWidth 32 + .ofNat 32 j))[i]? = some c ↔
        i < k ∧ sectorCommand code dev (lba.setWidth 32 + .ofNat 32 i) = c := by
    intro i c
    rw [getElem?_map]
    by_cases hi : i < k
    · rw [getElem?_range' hi, map_some, some.injEq, Nat.zero_add, Nat.one_mul]
      exact ⟨fun h => ⟨hi, h⟩, fun h => h.2⟩
    · rw [getElem?_eq_none (by rw [length_range']; omega), map_none]
      exact ⟨fun h => (some_ne_none c h.symm).elim, fun h => absurd h.1 hi⟩
  constructor
  · intro h
    rcases Nat.eq_zero_or_pos k with hk | hk
    · exact .inl hk
    · -- the last sector
      have hlast := h (k - 1) _ ((hget (k - 1) _).mpr ⟨by omega, rfl⟩)
      have := (sectorCommand_right hdrive lba (k - 1)).mp hlast.2
      exact .inr (by omega)
  · intro h i c hc
    obtain ⟨hi, rfl⟩ := (hget i c).mp hc
    exact ⟨rfl, (sectorCommand_right hdrive lba i).mpr (by omega)⟩

lemma selects_sectorLoop (hmove : ∀ i p, (move i p).commands = p.commands)
    (hdrive : dev.drive = 0 ∨ dev.drive = 1) {lba : U64} {n : ℕ} (p : Ports)
    (h : n = 0 ∨ lba.toNat + n ≤ 2 ^ 28) : Selects dev lba.toNat
      ((sectorLoop hw code move dev (lba.setWidth 32) n 0 p).2.commands.drop p.commands.length) := by
  obtain ⟨k, hk, -, hcommands⟩ := @sectorLoop_commands hw dev code (lba.setWidth 32) move hmove n 0 p
  rw [hcommands, drop_left]
  exact (selects_iff hdrive lba k).mpr (by omega)

lemma device_of_ataInit {devs : List AtaDevice} {i : ℕ} {blk : BlkDev}
    (h : (ataInit hw devs p)[i]?.join = some blk) : devs[i]? = some blk.device := by
  induction devs generalizing p i with
  | nil =>
    rw [ataInit, getElem?_nil] at h
    cases h
  | cons dev devs ih =>
    rw [ataInit] at h
    cases i with
    | zero =>
      rw [getElem?_cons_zero, join_some] at h
      obtain ⟨size, -, rfl⟩ := map_eq_some_iff.mp h
      rfl
    | succ i => exact ih (by simpa only [getElem?_cons_succ] using h)

/-- **Addressing.**  A request that the block layer accepts is for the right sectors, however the
drive behaves, exactly if it is empty or ends below `2 ^ 28`. -/
theorem addressing_iff {hw : Hardware} {p : Ports} {id : U32} {blk : BlkDev}
    (hget : blkdevGet (ataInit hw ataDevices p) id = some blk) {lba : U64} {count : U32}
    (haccept : lba + count.setWidth 64 ≤ blk.totalSectors) (buffer : ℕ → U8) :
    ataDevices[id.toNat]? = some blk.device ∧
      ((∀ drives p₁,
        Selects blk.device lba.toNat ((blkdevRead drives (ataInit hw ataDevices p) id lba count
          p₁).2.commands.drop p₁.commands.length) ∧
        Selects blk.device lba.toNat ((blkdevWrite drives (ataInit hw ataDevices p) id lba count
          buffer p₁).2.commands.drop p₁.commands.length)) ↔
        count.toNat = 0 ∨ lba.toNat + count.toNat ≤ 2 ^ 28) := by
  have hdev := device_of_ataInit hget
  have hdrive : blk.device.drive = 0 ∨ blk.device.drive = 1 := by
    have hall : ∀ dev ∈ ataDevices, dev.drive = 0 ∨ dev.drive = 1 := by decide
    exact hall _ (mem_of_getElem? hdev)
  have hcheck : ∀ op p₁, blkdevCheck (ataInit hw ataDevices p) id lba count op p₁ =
      op blk.device (lba.setWidth 32) count p₁ := by
    intro op p₁
    rw [blkdevCheck, hget]
    exact if_neg (BitVec.not_lt.mpr haccept)
  refine ⟨hdev, ⟨fun h => ?_, fun h drives p₁ => ⟨?_, ?_⟩⟩⟩
  · -- a drive that is always ready transfers every sector
    have hsel := (h readyDrive p).1
    rw [blkdevRead, hcheck, ataReadSectors] at hsel
    obtain ⟨k, -, hk, hcommands⟩ := @sectorLoop_commands readyDrive blk.device 0x20
      (lba.setWidth 32) (fun _ => readWords readyDrive 256) (fun _ _ => rfl) count.toNat 0 p
    rw [hcommands, drop_left, hk rfl] at hsel
    exact (selects_iff hdrive lba count.toNat).mp hsel
  · rw [blkdevRead, hcheck, ataReadSectors]
    refine selects_sectorLoop ?_ hdrive p₁ h
    exact fun _ _ => rfl
  · rw [blkdevWrite, hcheck, ataWriteSectors]
    refine selects_sectorLoop ?_ hdrive p₁ h
    exact fun _ _ => rfl

/-- A drive with `2 ^ 28 + 1` sectors in every place. -/
def largeDrive : Hardware where
  status _ := statusDrq
  data n := if n % 256 = 83 then 0x0400 else if n % 256 = 100 then 1 else
    if n % 256 = 101 then 0x1000 else 0

/-- Ports that nothing has gone through. -/
def idlePorts : Ports := ⟨fun _ => 0, [], 0, [], []⟩

theorem addressing_last_sector :
    ∃ blk, blkdevGet (ataInit largeDrive ataDevices idlePorts) 2 = some blk ∧
      ataDevices[2]? = some blk.device ∧
      ((∀ drives p₁,
        Selects blk.device 0xFFFFFFF ((blkdevRead drives (ataInit largeDrive ataDevices idlePorts) 2
          0xFFFFFFF 1 p₁).2.commands.drop p₁.commands.length) ∧
        Selects blk.device 0xFFFFFFF ((blkdevWrite drives (ataInit largeDrive ataDevices idlePorts)
          2 0xFFFFFFF 1 (fun _ => 0) p₁).2.commands.drop p₁.commands.length)) ↔
        1 = 0 ∨ 0xFFFFFFF + 1 ≤ 2 ^ 28) := by
  have hsize : (blkdevGet (ataInit largeDrive ataDevices idlePorts) 2).map (·.totalSectors) =
      some 0x10000001 := by
    decide +kernel
  obtain ⟨blk, hget, hsize⟩ := map_eq_some_iff.mp hsize
  exact ⟨blk, hget, addressing_iff hget (by rw [hsize]; decide) fun _ => 0⟩

/-- **The sector `2 ^ 28`** of the first drive: the command is for the first sector of the
second. -/
theorem sector_on_other_drive :
    (blkdevGet (ataInit largeDrive ataDevices idlePorts) 0).map (fun blk => blk.device) =
        some ⟨0x1F0, 0⟩ ∧
      (blkdevRead largeDrive (ataInit largeDrive ataDevices idlePorts) 0 0x10000000 1
          idlePorts).2.commands = [⟨0x20, 0x1F0, 1, 0⟩] ∧
      (blkdevWrite largeDrive (ataInit largeDrive ataDevices idlePorts) 0 0x10000000 1 (fun _ => 0)
          idlePorts).2.commands = [⟨0x30, 0x1F0, 1, 0⟩] := by
  decide +kernel

end OpenHobbyOS.Ata
