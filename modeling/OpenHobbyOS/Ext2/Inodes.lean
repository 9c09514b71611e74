/-
# Finding inodes

The source takes the descriptor table from block 2 and the records of a block from an array of
128-byte structs.  The format has the table in the block after the superblock's and records of the
size the superblock names.
-/
import OpenHobbyOS.Ext2.Mount

namespace OpenHobbyOS.Ext2

open Lib Paging Function Option Nat

variable {d : Disk} {start : ℕ} {sb : Superblock} {n g b : ℕ}

/-! ## Sizes -/

namespace Superblock.Valid

lemma blockSize_cases (h : sb.Valid) :
    sb.blockSize = 1024 ∨ sb.blockSize = 2048 ∨ sb.blockSize = 4096 := by
  have hlog := h.log_le
  rw [Superblock.blockSize]
  interval_cases sb.sLogBlockSize <;> simp

lemma blockSize_pos (h : sb.Valid) : 0 < sb.blockSize := by
  rcases h.blockSize_cases with h | h | h <;> omega

lemma sectors_blockSize (h : sb.Valid) : sb.blockSize / sectorSize * sectorSize = sb.blockSize := by
  rcases h.blockSize_cases with h | h | h <;> rw [h] <;> rfl

lemma inodeSize_pos (h : sb.Valid) : 0 < sb.sInodeSize :=
  lt_of_lt_of_le (by decide) h.inode_size_ge

lemma inodes_blockSize (h : sb.Valid) : sb.inodesPerBlock * sb.sInodeSize = sb.blockSize := by
  obtain ⟨k, hk⟩ := h.inode_size
  have hpow : sb.blockSize = 2 ^ (10 + sb.sLogBlockSize) := by
    rw [Superblock.blockSize, Nat.pow_add]
  refine Nat.div_mul_cancel ?_
  have hle := h.inode_size_le
  rw [hk, hpow] at hle ⊢
  exact Nat.pow_dvd_pow 2 ((Nat.pow_le_pow_iff_right (by decide)).mp hle)

lemma inodesPerBlock_pos (h : sb.Valid) : 0 < sb.inodesPerBlock :=
  div_pos h.inode_size_le h.inodeSize_pos

lemma groups_pos (h : sb.Valid) : 0 < sb.groups := by
  obtain ⟨hpos, hle⟩ := h.inodes_count
  exact Nat.pos_of_mul_pos_right (Nat.lt_of_lt_of_le hpos hle)

lemma groupOf_lt (h : sb.Valid) (hn : 0 < n) (hle : n ≤ sb.sInodesCount) :
    sb.groupOf n < sb.groups := by
  rw [Superblock.groupOf, div_lt_iff_lt_mul h.inodes_per_group.1]
  exact lt_of_lt_of_le (by omega) h.inodes_count.2

lemma indexOf_lt (h : sb.Valid) : sb.indexOf n < sb.sInodesPerGroup :=
  mod_lt _ h.inodes_per_group.1

lemma blockOf_lt (h : sb.Valid) : sb.blockOf n < sb.tableBlocks := by
  have hlt : sb.blockOf n * sb.blockSize < sb.sInodesPerGroup * sb.sInodeSize :=
    calc sb.blockOf n * sb.blockSize = sb.blockOf n * sb.inodesPerBlock * sb.sInodeSize := by
          rw [mul_assoc, h.inodes_blockSize]
      _ ≤ sb.indexOf n * sb.sInodeSize := mul_le_mul_right _ (div_mul_le_self _ _)
      _ < sb.sInodesPerGroup * sb.sInodeSize :=
          mul_lt_mul_of_pos_right h.indexOf_lt h.inodeSize_pos
  have hsucc : (sb.blockOf n + 1) * sb.blockSize = sb.blockOf n * sb.blockSize + sb.blockSize := by
    ring
  rw [Superblock.tableBlocks, lt_iff_add_one_le, le_div_iff_mul_le h.blockSize_pos]
  omega

lemma slotOf_le (h : sb.Valid) : sb.slotOf n * sb.sInodeSize + sb.sInodeSize ≤ sb.blockSize :=
  calc _ = (sb.slotOf n + 1) * sb.sInodeSize := by ring
    _ ≤ sb.inodesPerBlock * sb.sInodeSize :=
        mul_le_mul_right _ (mod_lt _ h.inodesPerBlock_pos)
    _ = sb.blockSize := h.inodes_blockSize

lemma struct_le (h : sb.Valid) : sb.slotOf n * inodeStruct + inodeStruct ≤ sb.blockSize := by
  have hmul := mul_le_mul_left (sb.slotOf n) h.inode_size_ge
  have hle := h.inode_size_ge
  have := h.slotOf_le (n := n)
  omega

lemma shift_blockSize (h : sb.Valid) :
    wrap32 (1024 <<< (sb.sLogBlockSize % 32)) = sb.blockSize := by
  have hlog := h.log_le
  rw [Superblock.blockSize]
  interval_cases sb.sLogBlockSize <;> rfl

lemma descriptors_le (h : sb.Valid) :
    sb.groups * descriptorSize ≤ sb.descriptorBlocks * sb.blockSize := by
  have hbs := h.blockSize_pos
  have hlt := lt_div_mul_add (a := sb.groups * descriptorSize + sb.blockSize - 1) hbs
  rw [Superblock.descriptorBlocks]
  omega

lemma descriptors_lt (h : sb.Valid) : sb.groups * descriptorSize ≤ 2 ^ 27 := by
  have hle : sb.groups * descriptorSize ≤ 8 * sb.blockSize * sb.blockSize :=
    h.descriptors_le.trans (mul_le_mul_right _
      (by have := h.descriptors_fit; have := h.blocks_per_group.2; omega))
  rcases h.blockSize_cases with h | h | h <;> rw [h] at hle <;> omega

end Superblock.Valid

/-! ## Reading blocks -/

namespace Disk.Valid

lemma blocks_le (h : d.Valid start) : (d.superblock start).sBlocksCount ≤ 2 ^ 31 := by
  have hdisk := h.blocks_on_disk
  have hsectors := d.sectors_le
  rw [sectorSize] at hdisk
  rcases h.superblock.blockSize_cases with hb | hb | hb <;> rw [hb] at hdisk <;> omega

lemma readBlock_eq (h : d.Valid start) {fs : Fs} (hstart : fs.partitionStart = start)
    (hspb : fs.sectorsPerBlock = (d.superblock start).blockSize / sectorSize)
    (hb : b < (d.superblock start).sBlocksCount) :
    readBlock d fs b =
      some (window d.byte (d.blockAddr start b) (d.superblock start).blockSize) := by
  have hdisk := h.blocks_on_disk
  have hsplit := h.superblock.sectors_blockSize
  have hbs := h.superblock.blockSize_pos
  rw [Disk.blockAddr]
  generalize d.superblock start = sb at *
  have hmul : (start + b * (sb.blockSize / sectorSize)) * sectorSize =
      start * sectorSize + b * sb.blockSize := by
    rw [add_mul, mul_assoc, hsplit]
  have hend : (start + b * (sb.blockSize / sectorSize) + sb.blockSize / sectorSize) * sectorSize ≤
      d.sectors * sectorSize := by
    have hle : (b + 1) * sb.blockSize ≤ sb.sBlocksCount * sb.blockSize := mul_le_mul_right _ hb
    rw [add_mul, one_mul] at hle
    rw [add_mul, hmul, hsplit]
    omega
  have hle : start + b * (sb.blockSize / sectorSize) + sb.blockSize / sectorSize ≤ d.sectors :=
    le_of_mul_le_mul_right hend (by decide)
  have hspos : 0 < sb.blockSize / sectorSize := Nat.pos_of_mul_pos_right (hsplit.symm ▸ hbs)
  have hwrap : wrap32 (start + b * (sb.blockSize / sectorSize)) =
      start + b * (sb.blockSize / sectorSize) :=
    wrap32_of_lt (by have := d.sectors_le; omega)
  rw [readBlock, hstart, hspb, hwrap, Disk.read, if_neg (not_lt.mpr hle), hmul, hsplit]

lemma readBlocks_eq (h : d.Valid start) {fs : Fs} (hstart : fs.partitionStart = start)
    (hspb : fs.sectorsPerBlock = (d.superblock start).blockSize / sectorSize) {count : ℕ}
    (hb : b + count ≤ (d.superblock start).sBlocksCount) :
    readBlocks d fs b count =
      some (window d.byte (d.blockAddr start b) (count * (d.superblock start).blockSize)) := by
  induction count generalizing b with
  | zero => simp [readBlocks]
  | succ count ih =>
    have hlt : b < 2 ^ 32 := by have := h.blocks_le; omega
    have hnext : d.blockAddr start (b + 1) = d.blockAddr start b + (d.superblock start).blockSize := by
      rw [Disk.blockAddr, Disk.blockAddr]
      ring
    rw [readBlocks, wrap32_of_lt hlt, h.readBlock_eq hstart hspb (by omega), bind_some,
      ih (by omega), map_some, hnext, window_append]
    congr 2
    ring

end Disk.Valid

/-! ## The mounted file system -/

/-- The groups the source counts. -/
def Superblock.countedGroups (sb : Superblock) : ℕ :=
  (sb.sBlocksCount + sb.sBlocksPerGroup - 1) / sb.sBlocksPerGroup

/-- The blocks the source takes for the descriptor table. -/
def Superblock.countedBlocks (sb : Superblock) : ℕ :=
  (sb.countedGroups * descriptorSize + sb.blockSize - 1) / sb.blockSize

/-- What `ext2_mount` makes of a valid image. -/
def Disk.mountedFs (d : Disk) (start : ℕ) : Fs :=
  { Fs.ofSuperblock start (d.superblock start) with
    bgdt := window d.byte (d.blockAddr start 2)
      ((d.superblock start).countedBlocks * (d.superblock start).blockSize)
    mounted := true }

lemma Superblock.groups_le_counted (sb : Superblock) : sb.groups ≤ sb.countedGroups :=
  Nat.div_le_div_right (by omega)

namespace Superblock.Valid

lemma firstDataBlock_le (h : sb.Valid) : sb.sFirstDataBlock ≤ 1 := by
  rw [h.first_data_block]
  split_ifs <;> omega

lemma counted_le_groups (h : sb.Valid) : sb.countedGroups ≤ sb.groups + 1 := by
  have hbpg := h.blocks_per_group.1
  have hfirst := h.firstDataBlock_le
  rw [Superblock.countedGroups, Superblock.groups, ← add_div_right _ hbpg]
  exact Nat.div_le_div_right (by omega)

/-- Before the end of a table there is room for the blocks that the source takes for the
descriptor table. -/
lemma countedBlocks_le (h : sb.Valid) {t : ℕ} (hge : sb.descriptorEnd ≤ t)
    (hle : t + sb.tableBlocks ≤ sb.sBlocksCount) :
    2 + sb.countedBlocks ≤ sb.sBlocksCount := by
  have htable : 0 < sb.tableBlocks := zero_lt_of_lt (h.blockOf_lt (n := 1))
  rw [Superblock.descriptorEnd] at hge
  have hfirst := h.first_data_block
  split_ifs at hfirst
  · have hcounted := h.counted_le_groups
    have hblocks : sb.countedBlocks ≤ sb.descriptorBlocks + 1 := by
      rw [Superblock.countedBlocks, Superblock.descriptorBlocks,
        ← add_div_right _ h.blockSize_pos]
      have hsize : descriptorSize ≤ sb.blockSize := by
        rcases h.blockSize_cases with h | h | h <;> rw [h] <;> decide
      refine Nat.div_le_div_right ?_
      rw [descriptorSize] at *
      omega
    omega
  · have hcounted : sb.countedGroups = sb.groups := by
      rw [Superblock.countedGroups, Superblock.groups, hfirst, Nat.sub_zero]
    rw [Superblock.countedBlocks, hcounted, ← Superblock.descriptorBlocks]
    omega

lemma blockSize_ofSuperblock (h : sb.Valid) (start : ℕ) :
    (Fs.ofSuperblock start sb).blockSize = sb.blockSize := h.shift_blockSize

lemma sectorsPerBlock_ofSuperblock (h : sb.Valid) (start : ℕ) :
    (Fs.ofSuperblock start sb).sectorsPerBlock = sb.blockSize / sectorSize := by
  rw [← h.shift_blockSize, Fs.ofSuperblock]

lemma inodesPerBlock_ofSuperblock (h : sb.Valid) (start : ℕ) :
    (Fs.ofSuperblock start sb).inodesPerBlock = sb.inodesPerBlock := by
  rw [Superblock.inodesPerBlock, ← h.shift_blockSize, Fs.ofSuperblock]

lemma groupsCount_ofSuperblock (h : sb.Valid) (start : ℕ) (hblocks : sb.sBlocksCount ≤ 2 ^ 31) :
    (Fs.ofSuperblock start sb).groupsCount = sb.countedGroups := by
  have hbpg := h.blocks_per_group
  have hbs : sb.blockSize ≤ 4096 := by rcases h.blockSize_cases with h | h | h <;> omega
  have hwrap : wrap32 (sb.sBlocksCount + sb.sBlocksPerGroup - 1) =
      sb.sBlocksCount + sb.sBlocksPerGroup - 1 := wrap32_of_lt (by omega)
  rw [Superblock.countedGroups, ← hwrap, Fs.ofSuperblock]

lemma bgdtBlock_ofSuperblock (h : sb.Valid) (start : ℕ) : (Fs.ofSuperblock start sb).bgdtBlock = 2 := by
  have hfirst := h.first_data_block
  rw [Fs.bgdtBlock, h.blockSize_ofSuperblock start, Fs.ofSuperblock]
  split_ifs at hfirst ⊢ <;> rfl

lemma bgdtBlocks_ofSuperblock (h : sb.Valid) (start : ℕ) (hblocks : sb.sBlocksCount ≤ 2 ^ 31) :
    (Fs.ofSuperblock start sb).bgdtBlocks = sb.countedBlocks := by
  have hsmall := h.descriptors_lt
  have hgroups := h.counted_le_groups
  have hbs : sb.blockSize ≤ 4096 := by rcases h.blockSize_cases with h | h | h <;> omega
  rw [descriptorSize] at hsmall
  rw [Fs.bgdtBlocks, h.groupsCount_ofSuperblock start hblocks, h.blockSize_ofSuperblock start,
    Superblock.countedBlocks, descriptorSize]
  rw [wrap32_of_lt (x := sb.countedGroups * 32) (by omega), wrap32_of_lt (by omega)]

end Superblock.Valid

namespace Disk.Valid

lemma decode_read :
    Superblock.decode ((window d.byte ((start + 2) * sectorSize) (2 * sectorSize)).getD · 0) 0 =
      d.superblock start := by
  have h16 : ∀ i, i + 2 ≤ 1024 →
      le16 ((window d.byte ((start + 2) * sectorSize) (2 * sectorSize)).getD · 0) i =
        le16 d.byte ((start + 2) * sectorSize + i) := by
    intro i hi
    rw [le16, le16, getD_window (by rw [sectorSize]; omega), getD_window (by rw [sectorSize]; omega),
      add_assoc]
  have h32 : ∀ i, i + 4 ≤ 1024 →
      le32 ((window d.byte ((start + 2) * sectorSize) (2 * sectorSize)).getD · 0) i =
        le32 d.byte ((start + 2) * sectorSize + i) :=
    fun i hi => le32_window (by rw [sectorSize]; omega)
  rw [Superblock.decode, Disk.superblock, Superblock.decode]
  simp only [zero_add, h16 56 (by omega), h16 88 (by omega), h32 0 (by omega),
    h32 4 (by omega), h32 20 (by omega), h32 24 (by omega), h32 32 (by omega), h32 40 (by omega),
    h32 76 (by omega), add_zero]

lemma read_superblock (h : d.Valid start) : d.read (wrap32 (start + 2)) 2 =
    some (window d.byte ((start + 2) * sectorSize) (2 * sectorSize)) := by
  have hv := h.superblock
  have hcounted := hv.countedBlocks_le (h.table_ge 0 hv.groups_pos) (h.table_le 0 hv.groups_pos)
  have hlarge : 2 * 1024 ≤ (d.superblock start).sBlocksCount * (d.superblock start).blockSize :=
    Nat.mul_le_mul (by omega) (by rcases hv.blockSize_cases with h | h | h <;> omega)
  have hdisk := h.blocks_on_disk
  have hsectors := d.sectors_le
  rw [sectorSize] at hdisk
  rw [wrap32_of_lt (by omega), Disk.read, if_neg (by omega)]

/-- **Every valid image can be mounted**, if there is memory for the descriptor table. -/
theorem mount_eq (h : d.Valid start) (room : Bool) :
    mount d start room = if room then some (d.mountedFs start) else none := by
  have hv := h.superblock
  have hcounted := hv.countedBlocks_le (h.table_ge 0 hv.groups_pos) (h.table_le 0 hv.groups_pos)
  have hpart : (Fs.ofSuperblock start (d.superblock start)).partitionStart = start := rfl
  have hbgdt := h.readBlocks_eq hpart
    (hv.sectorsPerBlock_ofSuperblock start) hcounted
  have hzero : ¬ ((d.superblock start).sInodeSize = 0 ∨ (d.superblock start).sBlocksPerGroup = 0 ∨
      (Fs.ofSuperblock start (d.superblock start)).blockSize = 0) := by
    have := hv.inodeSize_pos
    have := hv.blocks_per_group.1
    have := hv.blockSize_pos
    rw [hv.blockSize_ofSuperblock start]
    omega
  rw [mount, h.read_superblock, bind_some, decode_read]
  dsimp only
  rw [if_neg (not_not.mpr hv.magic), if_neg hzero, hv.bgdtBlock_ofSuperblock start,
    hv.bgdtBlocks_ofSuperblock start h.blocks_le, hbgdt]
  cases room <;> rfl

end Disk.Valid

/-! ## What `ext2_read_inode` reads -/

namespace Disk

/-- The table the source takes for a group's. -/
def countedTable (d : Disk) (start g : ℕ) : ℕ :=
  le32 d.byte (d.blockAddr start 2 + g * descriptorSize + 8)

/-- The first sector `ext2_read_inode` reads for an inode. -/
def readLba (d : Disk) (start n : ℕ) : ℕ :=
  let sb := d.superblock start
  wrap32 (start + wrap32 (d.countedTable start (sb.groupOf n) +
    sb.blockOf n) * (sb.blockSize / sectorSize))

/-- The address of the bytes it returns. -/
def readAddr (d : Disk) (start n : ℕ) : ℕ :=
  d.readLba start n * sectorSize +
    (d.superblock start).slotOf n * inodeStruct

end Disk

namespace Disk.Valid

lemma inodeTable_mountedFs (h : d.Valid start) (hg : g < (d.superblock start).groups) :
    (d.mountedFs start).inodeTable g = d.countedTable start g := by
  have hv := h.superblock
  have hbs := hv.blockSize_pos
  have hlt := lt_div_mul_add (b := (d.superblock start).blockSize)
    (a := (d.superblock start).countedGroups * descriptorSize + (d.superblock start).blockSize - 1) hbs
  have hle := (d.superblock start).groups_le_counted
  rw [← Superblock.countedBlocks] at hlt
  rw [descriptorSize] at hlt
  rw [Fs.inodeTable, Disk.mountedFs, le32_window (by rw [descriptorSize]; omega), Disk.countedTable,
    add_assoc]

/-- **What `ext2_read_inode` returns** on a valid image: 128 bytes at the address above. -/
theorem readInode_eq (h : d.Valid start) (hn : 0 < n) (hle : n ≤ (d.superblock start).sInodesCount)
    (room : Bool) :
    readInode d (d.mountedFs start) n room =
      if room ∧ d.readLba start n + (d.superblock start).blockSize / sectorSize ≤ d.sectors then
        some (window d.byte (d.readAddr start n) inodeStruct)
      else none := by
  have hv := h.superblock
  have hgroup := hv.groupOf_lt hn hle
  have htable := h.inodeTable_mountedFs hgroup
  have hcount : (d.mountedFs start).groupsCount = (d.superblock start).countedGroups :=
    hv.groupsCount_ofSuperblock start h.blocks_le
  have hper : (d.mountedFs start).inodesPerBlock = (d.superblock start).inodesPerBlock :=
    hv.inodesPerBlock_ofSuperblock start
  have hspb : (d.mountedFs start).sectorsPerBlock = (d.superblock start).blockSize / sectorSize :=
    hv.sectorsPerBlock_ofSuperblock start
  have hfirst : ¬ (n = 0 ∨ (d.superblock start).sInodesCount < n) := by omega
  have hsecond : ¬ ((d.superblock start).sInodesPerGroup = 0 ∨
      (d.superblock start).countedGroups ≤ (d.superblock start).groupOf n ∨
      (d.superblock start).inodesPerBlock = 0) := by
    have := hv.inodes_per_group.1
    have := (d.superblock start).groups_le_counted
    have := hv.inodesPerBlock_pos
    omega
  have hsb : (d.mountedFs start).sb = d.superblock start := rfl
  rw [readInode, hsb, hcount, hper, ← Superblock.groupOf, ← Superblock.indexOf,
    ← Superblock.blockOf, ← Superblock.slotOf, if_neg hfirst]
  dsimp only
  rw [if_neg hsecond, htable]
  cases room with
  | false => rfl
  | true =>
    have hread : readBlock d (d.mountedFs start) (wrap32 (d.countedTable start
        ((d.superblock start).groupOf n) + (d.superblock start).blockOf n)) =
        d.read (d.readLba start n) ((d.superblock start).blockSize / sectorSize) := by
      rw [readBlock, hspb]
      rfl
    have hdrop := hv.struct_le (n := n)
    simp only [Bool.not_true, Bool.false_eq_true, if_false, true_and]
    rw [hread, Disk.read, hv.sectors_blockSize]
    by_cases hin : d.readLba start n + (d.superblock start).blockSize / sectorSize ≤ d.sectors
    · rw [if_neg (not_lt.mpr hin), if_pos hin, map_some,
        drop_window (by omega), take_window (by omega), Disk.readAddr]
    · rw [if_pos (Nat.lt_of_not_le hin), if_neg hin]
      rfl

/-! ## Where the two addresses agree -/

lemma blockAddr_succ (d : Disk) (start b : ℕ) :
    d.blockAddr start (b + 1) = d.blockAddr start b + (d.superblock start).blockSize := by
  rw [Disk.blockAddr, Disk.blockAddr]
  ring

lemma blockAddr_mono (d : Disk) (start : ℕ) {a b : ℕ} (hab : a ≤ b) :
    d.blockAddr start a ≤ d.blockAddr start b :=
  Nat.add_le_add_left (Nat.mul_le_mul_right _ hab) _

lemma blockAddr_ne {a b x y : ℕ} (hab : a < b) (hx : x < (d.superblock start).blockSize) :
    d.blockAddr start a + x ≠ d.blockAddr start b + y := by
  have hle := blockAddr_mono d start hab
  rw [blockAddr_succ] at hle
  omega

lemma recordAddr_eq (h : d.Valid start) :
    d.recordAddr start n =
      d.blockAddr start (d.table start ((d.superblock start).groupOf n) +
        (d.superblock start).blockOf n) +
        (d.superblock start).slotOf n * (d.superblock start).sInodeSize := by
  have hblock := h.superblock.inodes_blockSize
  rw [Disk.recordAddr, Disk.blockAddr, Disk.blockAddr]
  generalize d.superblock start = sb at *
  have hindex : sb.indexOf n = sb.blockOf n * sb.inodesPerBlock + sb.slotOf n :=
    (div_add_mod' _ _).symm
  rw [hindex, add_mul, add_mul, mul_assoc (sb.blockOf n), hblock]
  ring

lemma readAddr_eq (h : d.Valid start)
    (ht : d.countedTable start ((d.superblock start).groupOf n) +
      (d.superblock start).tableBlocks ≤ (d.superblock start).sBlocksCount) :
    d.readLba start n + (d.superblock start).blockSize / sectorSize ≤ d.sectors ∧
    d.readAddr start n =
      d.blockAddr start (d.countedTable start ((d.superblock start).groupOf n) +
        (d.superblock start).blockOf n) +
        (d.superblock start).slotOf n * inodeStruct := by
  have hindex := h.superblock.blockOf_lt (n := n)
  have hblocks := h.blocks_le
  have hdisk := h.blocks_on_disk
  have hsplit := h.superblock.sectors_blockSize
  have hbs := h.superblock.blockSize_pos
  have hsectors := d.sectors_le
  rw [Disk.readAddr, Disk.readLba, Disk.blockAddr]
  generalize d.superblock start = sb at *
  generalize d.countedTable start (sb.groupOf n) = t at *
  generalize sb.blockOf n = i at *
  have hspb : 0 < sb.blockSize / sectorSize := Nat.pos_of_mul_pos_right (hsplit.symm ▸ hbs)
  have hmul : (start + (t + i) * (sb.blockSize / sectorSize)) * sectorSize =
      start * sectorSize + (t + i) * sb.blockSize := by
    rw [add_mul, mul_assoc, hsplit]
  have hin : start + (t + i) * (sb.blockSize / sectorSize) + sb.blockSize / sectorSize ≤ d.sectors := by
    refine Nat.le_of_mul_le_mul_right (c := sectorSize) ?_ (by decide)
    have hle : (t + i + 1) * sb.blockSize ≤ sb.sBlocksCount * sb.blockSize :=
      mul_le_mul_right _ (by omega)
    rw [add_mul, one_mul] at hle
    rw [add_mul, hmul, hsplit]
    omega
  rw [wrap32_of_lt (x := t + i) (by omega), wrap32_of_lt (by omega), hmul]
  exact ⟨hin, rfl⟩

lemma countedTable_eq (h : d.Valid start) (h1024 : (d.superblock start).blockSize = 1024) :
    d.countedTable start g = d.table start g := by
  have hfirst := h.superblock.first_data_block
  rw [if_pos h1024] at hfirst
  rw [Disk.countedTable, Disk.table, hfirst]

/-- With 1024-byte blocks the addresses agree for records of the struct's size, and for the
first record of a block. -/
lemma readAddr_eq_recordAddr (h : d.Valid start)
    (h1024 : (d.superblock start).blockSize = 1024) (hn : 0 < n)
    (hle : n ≤ (d.superblock start).sInodesCount) :
    d.readAddr start n = d.recordAddr start n ↔ (d.superblock start).sInodeSize = inodeStruct ∨
      (d.superblock start).slotOf n = 0 := by
  have hgroup := h.superblock.groupOf_lt hn hle
  have htable := h.countedTable_eq h1024 (g := (d.superblock start).groupOf n)
  rw [(h.readAddr_eq (htable ▸ h.table_le _ hgroup)).2, h.recordAddr_eq, htable,
    add_left_cancel_iff, mul_eq_mul_left_iff]
  exact or_congr_left eq_comm

end Disk.Valid

/-! ## Images with one superblock -/

/-- Two devices of one size with the same bytes in the superblock of a partition. -/
structure Disk.SameSuperblock (start : ℕ) (d e : Disk) : Prop where
  sectors_eq : e.sectors = d.sectors
  byte_eq : ∀ i < 1024,
    e.byte ((start + 2) * sectorSize + i) = d.byte ((start + 2) * sectorSize + i)

namespace Disk.SameSuperblock

variable {e : Disk}

lemma refl (start : ℕ) (d : Disk) : SameSuperblock start d d := ⟨rfl, fun _ _ => rfl⟩

lemma trans {u : Disk} (h : SameSuperblock start d e) (h' : SameSuperblock start e u) :
    SameSuperblock start d u :=
  ⟨h'.sectors_eq.trans h.sectors_eq, fun i hi => (h'.byte_eq i hi).trans (h.byte_eq i hi)⟩

lemma superblock_eq (h : SameSuperblock start d e) : e.superblock start = d.superblock start := by
  have hwindow : window e.byte ((start + 2) * sectorSize) (2 * sectorSize) =
      window d.byte ((start + 2) * sectorSize) (2 * sectorSize) :=
    window_eq_iff.mpr fun i hi => h.byte_eq i hi
  rw [← Disk.Valid.decode_read, ← Disk.Valid.decode_read, hwindow]

lemma blockAddr_eq (h : SameSuperblock start d e) (b : ℕ) :
    e.blockAddr start b = d.blockAddr start b := by
  rw [Disk.blockAddr, Disk.blockAddr, h.superblock_eq]

end Disk.SameSuperblock

/-- The end of the descriptors. -/
def Disk.descriptorLimit (d : Disk) (start : ℕ) : ℕ :=
  d.blockAddr start ((d.superblock start).sFirstDataBlock + 1) +
    (d.superblock start).groups * descriptorSize

namespace Disk.Valid

variable {e : Disk}

lemma superblock_le_limit (h : d.Valid start) :
    (start + 2) * sectorSize + 1024 ≤ d.descriptorLimit start := by
  have hfirst := h.superblock.first_data_block
  rw [Disk.descriptorLimit, Disk.blockAddr, sectorSize]
  rcases h.superblock.blockSize_cases with hb | hb | hb <;> rw [hb] at hfirst ⊢ <;>
    simp only [reduceEqDiff, if_true, if_false] at hfirst <;> rw [hfirst] <;> omega

/-- **What a valid image allows**: behind the descriptors its bytes are free. -/
theorem patch (h : d.Valid start) (hsectors : e.sectors = d.sectors)
    (hbyte : ∀ a < d.descriptorLimit start, e.byte a = d.byte a) :
    SameSuperblock start d e ∧ e.Valid start ∧
      ∀ g < (d.superblock start).groups, e.table start g = d.table start g := by
  have hlimit := h.superblock_le_limit
  have hsame : SameSuperblock start d e := ⟨hsectors, fun i hi => hbyte _ (by omega)⟩
  have htable : ∀ g < (d.superblock start).groups, e.table start g = d.table start g := by
    intro g hg
    rw [Disk.table, Disk.table, hsame.superblock_eq, hsame.blockAddr_eq]
    refine le32_congr fun i hi => hbyte _ ?_
    rw [Disk.descriptorLimit, descriptorSize]
    omega
  refine ⟨hsame, ?_, htable⟩
  constructor
  · exact hsame.superblock_eq ▸ h.superblock
  · rw [hsame.superblock_eq, hsame.sectors_eq]
    exact h.blocks_on_disk
  · rw [hsame.superblock_eq]
    intro g hg
    rw [htable g hg]
    exact h.table_ge g hg
  · rw [hsame.superblock_eq]
    intro g hg
    rw [htable g hg]
    exact h.table_le g hg
  · rw [hsame.superblock_eq]
    intro g hg g' hg' hne
    rw [htable g hg, htable g' hg']
    exact h.tables_apart g hg g' hg' hne

lemma limit_le_recordAddr (h : d.Valid start) (hn : 0 < n)
    (hle : n ≤ (d.superblock start).sInodesCount) :
    d.descriptorLimit start ≤ d.recordAddr start n := by
  have hge := h.table_ge _ (h.superblock.groupOf_lt hn hle)
  have hdesc := h.superblock.descriptors_le
  have hmono := blockAddr_mono d start hge
  rw [Disk.recordAddr, Disk.descriptorLimit]
  refine le_trans ?_ (le_add_right _ _)
  refine le_trans ?_ hmono
  rw [Superblock.descriptorEnd, Disk.blockAddr, Disk.blockAddr,
    add_mul _ (d.superblock start).descriptorBlocks]
  omega

end Disk.Valid

/-- A device with other bytes. -/
def Disk.withByte (d : Disk) (byte : ℕ → U8) : Disk := { d with byte := byte }

namespace Disk.Valid

lemma byte_eq_of_read (h : d.Valid start) (hn : 0 < n)
    (hle : n ≤ (d.superblock start).sInodesCount) {room : Bool}
    (hr : readInode d (d.mountedFs start) n room = some (d.record start n)) {j : ℕ}
    (hj : j < inodeStruct) : d.byte (d.readAddr start n + j) = d.byte (d.recordAddr start n + j) := by
  rw [h.readInode_eq hn hle] at hr
  split_ifs at hr
  exact window_eq_iff.mp (Option.some.inj hr) j hj

/-- If the two addresses differ, a byte of the record can be changed that the source does not read
for it. -/
lemma wrong_of_ne (h : d.Valid start) (hn : 0 < n) (hle : n ≤ (d.superblock start).sInodesCount)
    (room : Bool) (hne : d.readAddr start n ≠ d.recordAddr start n) :
    ∃ e, SameSuperblock start d e ∧ e.Valid start ∧
      readInode e (e.mountedFs start) n room ≠ some (e.record start n) := by
  by_contra hall
  push Not at hall
  have hd := hall d (.refl start d) h
  -- a byte of the record that does not belong to the descriptor the source reads
  obtain ⟨j, hj, hfree⟩ : ∃ j < inodeStruct, ∀ i < 4, d.blockAddr start 2 +
      (d.superblock start).groupOf n * descriptorSize + 8 + i ≠ d.recordAddr start n + j := by
    by_cases hmeet : d.recordAddr start n < d.blockAddr start 2 +
        (d.superblock start).groupOf n * descriptorSize + 8 + 4 ∧ d.blockAddr start 2 +
        (d.superblock start).groupOf n * descriptorSize + 8 ≤ d.recordAddr start n
    · exact ⟨4, by decide, fun i hi => by omega⟩
    · exact ⟨0, by decide, fun i hi => by omega⟩
  obtain ⟨e, hsectors, hother, hnew⟩ : ∃ e : Disk, e.sectors = d.sectors ∧
      (∀ x, x ≠ d.recordAddr start n + j → e.byte x = d.byte x) ∧
      e.byte (d.recordAddr start n + j) = ~~~ d.byte (d.recordAddr start n + j) :=
    ⟨d.withByte (Function.update d.byte _ _), rfl, fun x hx => update_of_ne hx _ _,
      update_self ..⟩
  have hlimit := h.limit_le_recordAddr hn hle
  obtain ⟨hsame, hvalid, htable⟩ := h.patch hsectors fun x hx => hother x (by omega)
  have he' := hall e hsame hvalid
  have hrecord : e.recordAddr start n = d.recordAddr start n := by
    rw [Disk.recordAddr, Disk.recordAddr, hsame.superblock_eq, hsame.blockAddr_eq,
      htable _ (h.superblock.groupOf_lt hn hle)]
  have hcounted : e.countedTable start ((d.superblock start).groupOf n) =
      d.countedTable start ((d.superblock start).groupOf n) := by
    rw [Disk.countedTable, Disk.countedTable, hsame.blockAddr_eq]
    exact le32_congr fun i hi => hother _ (hfree i hi)
  have hread : e.readAddr start n = d.readAddr start n := by
    rw [Disk.readAddr, Disk.readAddr, Disk.readLba, Disk.readLba, hsame.superblock_eq, hcounted]
  -- both images return the record, so the byte read in its place has changed as well
  have hd_eq := byte_eq_of_read h hn hle hd hj
  have he_eq := byte_eq_of_read hvalid hn (hsame.superblock_eq ▸ hle) he' hj
  rw [hread, hrecord, hnew, hother _ (by omega), hd_eq] at he_eq
  generalize d.byte (d.recordAddr start n + j) = x at he_eq
  revert x
  decide

lemma ne_of_blockSize (h : d.Valid start) (hn : 0 < n)
    (hle : n ≤ (d.superblock start).sInodesCount) (h1024 : (d.superblock start).blockSize ≠ 1024) :
    ∃ e, SameSuperblock start d e ∧ e.Valid start ∧
      e.readAddr start n ≠ e.recordAddr start n := by
  have hv := h.superblock
  have hgroup := hv.groupOf_lt hn hle
  have hfirst : (d.superblock start).sFirstDataBlock + 1 = 1 := by
    rw [hv.first_data_block, if_neg h1024]
  have hdiv : (d.superblock start).blockSize / descriptorSize * descriptorSize =
      (d.superblock start).blockSize := by
    rcases hv.blockSize_cases with hb | hb | hb <;> rw [hb] <;> rfl
  have hstruct := hv.struct_le (n := n)
  have hslot := hv.slotOf_le (n := n)
  have hnext := blockAddr_succ d start 1
  by_cases hin : (d.superblock start).blockSize / descriptorSize + (d.superblock start).groupOf n <
      (d.superblock start).groups
  · -- block 2 holds more descriptors: the source reads that of another group
    refine ⟨d, .refl start d, h, ?_⟩
    have htable : d.countedTable start ((d.superblock start).groupOf n) = d.table start
        ((d.superblock start).blockSize / descriptorSize + (d.superblock start).groupOf n) := by
      have haddr : d.blockAddr start 2 + (d.superblock start).groupOf n * descriptorSize + 8 =
          d.blockAddr start 1 + ((d.superblock start).blockSize / descriptorSize +
            (d.superblock start).groupOf n) * descriptorSize + 8 := by
        rw [hnext, add_mul, hdiv]
        omega
      rw [Disk.countedTable, Disk.table, hfirst, haddr]
    have hpos : 0 < (d.superblock start).blockSize / descriptorSize := by
      rcases hv.blockSize_cases with hb | hb | hb <;> rw [hb] <;> decide
    rw [(h.readAddr_eq (htable ▸ h.table_le _ hin)).2, h.recordAddr_eq, htable]
    have hone := hv.inodeSize_pos
    rcases h.tables_apart _ hin _ hgroup (by omega) with hlt | hlt
    · exact blockAddr_ne (by have := hv.blockOf_lt (n := n); omega) (by rw [inodeStruct] at *; omega)
    · exact (blockAddr_ne (by have := hv.blockOf_lt (n := n); omega) (by omega)).symm
  · -- what it takes for a descriptor may have any bytes, zeros for one
    obtain ⟨e, hsectors, hother, hnew⟩ : ∃ e : Disk, e.sectors = d.sectors ∧
        (∀ x < d.blockAddr start 2 + (d.superblock start).groupOf n * descriptorSize + 8,
          e.byte x = d.byte x) ∧
        ∀ x ≥ d.blockAddr start 2 + (d.superblock start).groupOf n * descriptorSize + 8,
          e.byte x = 0 :=
      ⟨d.withByte fun x => if x < _ then d.byte x else 0, rfl, fun x hx => if_pos hx,
        fun x hx => if_neg (not_lt.mpr hx)⟩
    have hlimit : d.descriptorLimit start ≤
        d.blockAddr start 2 + (d.superblock start).groupOf n * descriptorSize + 8 := by
      have hle := Nat.mul_le_mul_right descriptorSize (Nat.le_of_not_lt hin)
      rw [add_mul, hdiv] at hle
      rw [Disk.descriptorLimit, hfirst, hnext]
      omega
    obtain ⟨hsame, hvalid, htable⟩ := h.patch hsectors fun x hx => hother x (by omega)
    refine ⟨e, hsame, hvalid, ?_⟩
    have hzero : e.countedTable start ((e.superblock start).groupOf n) = 0 := by
      rw [Disk.countedTable, hsame.blockAddr_eq, hsame.superblock_eq, le32, le16, le16,
        hnew _ (by omega), hnew _ (by omega), hnew _ (by omega), hnew _ (by omega)]
      rfl
    have hge := hvalid.table_ge _ (hvalid.superblock.groupOf_lt hn (hsame.superblock_eq ▸ hle))
    have hend := hvalid.table_le _ (hvalid.superblock.groupOf_lt hn (hsame.superblock_eq ▸ hle))
    rw [(hvalid.readAddr_eq (by rw [hzero]; omega)).2, hvalid.recordAddr_eq, hzero]
    refine blockAddr_ne ?_ ?_
    · rw [Superblock.descriptorEnd] at hge
      omega
    · have := hvalid.superblock.struct_le (n := n)
      rw [inodeStruct] at *
      omega

end Disk.Valid

/-- **Inodes are found with 1024-byte blocks** that hold structs of 128 bytes or for the first
record of a block, and memory for one block; with any other superblock some valid image has another
record. -/
theorem inode_lookup_iff {d : Disk} {start n : ℕ} (h : d.Valid start) (hn : 0 < n)
    (hle : n ≤ (d.superblock start).sInodesCount) (room : Bool) :
    (∀ e fs r, Disk.SameSuperblock start d e → e.Valid start → mount e start r = some fs →
        readInode e fs n room = some (e.record start n)) ↔
      room = true ∧ (d.superblock start).blockSize = 1024 ∧
        ((d.superblock start).sInodeSize = inodeStruct ∨ (d.superblock start).slotOf n = 0) := by
  constructor
  · intro hall
    have hright : ∀ e, Disk.SameSuperblock start d e → e.Valid start →
        readInode e (e.mountedFs start) n room = some (e.record start n) :=
      fun e hsame hvalid => hall e _ true hsame hvalid (hvalid.mount_eq true)
    have hd := hright d (.refl start d) h
    rw [h.readInode_eq hn hle] at hd
    have hroom : room = true := by
      by_contra hno
      rw [if_neg (fun hand => hno hand.1)] at hd
      exact absurd hd (by simp)
    refine ⟨hroom, ?_⟩
    have hblock : (d.superblock start).blockSize = 1024 := by
      by_contra hne
      obtain ⟨e, hsame, hvalid, hapart⟩ := h.ne_of_blockSize hn hle hne
      obtain ⟨u, hsame', hvalid', hwrong⟩ :=
        hvalid.wrong_of_ne hn (hsame.superblock_eq ▸ hle) room hapart
      exact hwrong (hright u (hsame.trans hsame') hvalid')
    refine ⟨hblock, ?_⟩
    rw [← h.readAddr_eq_recordAddr hblock hn hle]
    by_contra hapart
    obtain ⟨e, hsame, hvalid, hwrong⟩ := h.wrong_of_ne hn hle room hapart
    exact hwrong (hright e hsame hvalid)
  · rintro ⟨rfl, hblock, hstride⟩ e fs r hsame hvalid hmount
    rw [← hsame.superblock_eq] at hle hblock hstride
    have hfs : fs = e.mountedFs start := by
      rw [hvalid.mount_eq] at hmount
      split_ifs at hmount
      exact (Option.some.inj hmount).symm
    have htable := hvalid.countedTable_eq hblock (g := (e.superblock start).groupOf n)
    have hin := (hvalid.readAddr_eq
      (htable ▸ hvalid.table_le _ (hvalid.superblock.groupOf_lt hn hle))).1
    rw [hfs, hvalid.readInode_eq hn hle, if_pos ⟨rfl, hin⟩,
      (hvalid.readAddr_eq_recordAddr hblock hn hle).mpr hstride, Disk.record]

/-! ## Images -/

/-- Four bytes stored at an address. -/
def poke (byte : ℕ → U8) (a v : ℕ) : ℕ → U8 := fun x =>
  if a ≤ x ∧ x < a + 4 then BitVec.ofNat 8 (v / 256 ^ (x - a)) else byte x

/-- One group of 32 blocks and 16 inodes of size `2 ^ k`, with the table at block 3. -/
def sampleDisk (log k : ℕ) : Disk where
  byte :=
    let firstDataBlock := if log = 0 then 1 else 0
    let blockSize := 1024 * 2 ^ log
    [(0, 3), (1024, 16), (1028, 32), (1044, firstDataBlock), (1048, log), (1056, 8192), (1064, 16),
      (1080, ext2Magic), (1100, 1), (1112, 2 ^ k), ((firstDataBlock + 1) * blockSize + 8, 3),
      (3 * blockSize, 0x41ED), (3 * blockSize + 2 ^ k, 0x81A4)].foldl
    (fun byte field => poke byte field.1 field.2) fun _ => 0
  sectors := 1024
  sectors_le := by decide

lemma valid_sampleDisk {log k : ℕ} (hlog : log ≤ 2) (hk : 7 ≤ k) (hk' : k ≤ 8) :
    (sampleDisk log k).Valid 0 := by
  refine ⟨⟨?_, ?_, ?_, ?_, ⟨k, ?_⟩, ?_, ?_, ?_, ?_, ?_, ?_⟩, ?_, ?_, ?_, ?_⟩ <;>
    interval_cases log <;> interval_cases k <;> decide +kernel

/-- On images with 1024-byte blocks and records of 128 bytes the second inode is found. -/
theorem second_inode_found : (sampleDisk 0 7).Valid 0 ∧
    ∀ e fs r, Disk.SameSuperblock 0 (sampleDisk 0 7) e → e.Valid 0 → mount e 0 r = some fs →
      readInode e fs 2 true = some (e.record 0 2) :=
  ⟨valid_sampleDisk (by decide) (by decide) (by decide),
    (inode_lookup_iff (valid_sampleDisk (by decide) (by decide) (by decide)) (by decide)
      (by decide +kernel) true).mpr (by decide +kernel)⟩

/-- **Other bytes for a record.**  With records of 256 bytes the source returns the second half of
the first one for inode 2; with 4096-byte blocks it takes block 2 for the descriptor table. -/
theorem other_record_read :
    ((sampleDisk 0 8).Valid 0 ∧ ∃ fs, mount (sampleDisk 0 8) 0 true = some fs ∧
      readInode (sampleDisk 0 8) fs 2 true ≠ some ((sampleDisk 0 8).record 0 2)) ∧
    (sampleDisk 2 7).Valid 0 ∧ ∃ fs, mount (sampleDisk 2 7) 0 true = some fs ∧
      readInode (sampleDisk 2 7) fs 1 true ≠ some ((sampleDisk 2 7).record 0 1) := by
  have hrecords : (sampleDisk 0 8).Valid 0 := valid_sampleDisk (by decide) (by decide) (by decide)
  have hblocks : (sampleDisk 2 7).Valid 0 := valid_sampleDisk (by decide) (by decide) (by decide)
  refine ⟨⟨hrecords, _, hrecords.mount_eq true, fun hr => ?_⟩,
    hblocks, _, hblocks.mount_eq true, fun hr => ?_⟩
  · have hbyte := hrecords.byte_eq_of_read (by decide) (by decide +kernel) hr (j := 0) (by decide)
    exact absurd hbyte (by decide +kernel)
  · have hbyte := hblocks.byte_eq_of_read (by decide) (by decide +kernel) hr (j := 0) (by decide)
    exact absurd hbyte (by decide +kernel)

end OpenHobbyOS.Ext2
