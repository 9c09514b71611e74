/-
# Mounting an ext2 partition

The block device, the superblock, `ext2_mount` and `ext2_read_inode` of `ext2.c`, beside the layout
the format prescribes.  The 32-bit fields are numbers below 2³², and what can wrap in the source
wraps here.  `blkdev_read` hands on a 32-bit sector number, so a device has at most 2³² sectors.
-/
import OpenHobbyOS.Lib.Bytes
import OpenHobbyOS.Paging.Entry

namespace OpenHobbyOS.Ext2

open Lib Paging

/-- A value as `u32` keeps it. -/
def wrap32 (x : ℕ) : ℕ := x % 2 ^ 32

lemma wrap32_of_lt {x : ℕ} (h : x < 2 ^ 32) : wrap32 x = x := Nat.mod_eq_of_lt h

/-- The size of a sector. -/
def sectorSize : ℕ := 512

/-- A block device that returns its bytes. -/
structure Disk where
  byte : ℕ → U8
  sectors : ℕ
  sectors_le : sectors ≤ 2 ^ 32

/-- `blkdev_read`. -/
def Disk.read (d : Disk) (lba count : ℕ) : Option (List U8) :=
  if d.sectors < lba + count then none
  else some (window d.byte (lba * sectorSize) (count * sectorSize))

/-! ## The superblock -/

/-- `EXT2_MAGIC`. -/
def ext2Magic : ℕ := 0xEF53

/-- The fields of `struct ext2_superblock` that mounting and reading use. -/
structure Superblock where
  sInodesCount : ℕ
  sBlocksCount : ℕ
  sFirstDataBlock : ℕ
  sLogBlockSize : ℕ
  sBlocksPerGroup : ℕ
  sInodesPerGroup : ℕ
  sMagic : ℕ
  sRevLevel : ℕ
  sInodeSize : ℕ
  deriving DecidableEq

/-- The superblock in memory, at a given address. -/
def Superblock.decode (byte : ℕ → U8) (a : ℕ) : Superblock where
  sInodesCount := le32 byte a
  sBlocksCount := le32 byte (a + 4)
  sFirstDataBlock := le32 byte (a + 20)
  sLogBlockSize := le32 byte (a + 24)
  sBlocksPerGroup := le32 byte (a + 32)
  sInodesPerGroup := le32 byte (a + 40)
  sMagic := le16 byte (a + 56)
  sRevLevel := le32 byte (a + 76)
  sInodeSize := le16 byte (a + 88)

/-! ## Mounting -/

/-- `struct ext2_fs`; the descriptor table as the bytes read. -/
structure Fs where
  partitionStart : ℕ
  sb : Superblock
  blockSize : ℕ
  sectorsPerBlock : ℕ
  inodesPerBlock : ℕ
  groupsCount : ℕ
  bgdt : List U8
  mounted : Bool

/-- `ext2_read_block`. -/
def readBlock (d : Disk) (fs : Fs) (blockNum : ℕ) : Option (List U8) :=
  d.read (wrap32 (fs.partitionStart + blockNum * fs.sectorsPerBlock)) fs.sectorsPerBlock

/-- The loop that reads the descriptor table block by block. -/
def readBlocks (d : Disk) (fs : Fs) (blockNum : ℕ) : ℕ → Option (List U8)
  | 0 => some []
  | n + 1 =>
    (readBlock d fs (wrap32 blockNum)).bind fun block =>
      (readBlocks d fs (blockNum + 1) n).map (block ++ ·)

/-- The size of a group descriptor. -/
def descriptorSize : ℕ := 32

/-- What `ext2_mount` computes from the superblock. -/
def Fs.ofSuperblock (partitionStart : ℕ) (sb : Superblock) : Fs :=
  -- the shift takes its count modulo 32
  let blockSize := wrap32 (1024 <<< (sb.sLogBlockSize % 32))
  { partitionStart := partitionStart
    sb := sb
    blockSize := blockSize
    sectorsPerBlock := blockSize / sectorSize
    inodesPerBlock := blockSize / sb.sInodeSize
    groupsCount := wrap32 (sb.sBlocksCount + sb.sBlocksPerGroup - 1) / sb.sBlocksPerGroup
    bgdt := []
    mounted := false }

/-- Where `ext2_mount` looks for the descriptor table. -/
def Fs.bgdtBlock (fs : Fs) : ℕ :=
  if fs.blockSize = 1024 then 2 else if fs.sb.sFirstDataBlock = 0 then 2 else 1

/-- The blocks of the descriptor table. -/
def Fs.bgdtBlocks (fs : Fs) : ℕ :=
  let bgdtSize := wrap32 (fs.groupsCount * descriptorSize)
  wrap32 (bgdtSize + fs.blockSize - 1) / fs.blockSize

/-- `ext2_mount`; `room` is memory for the descriptor table.  Where the source divides by a zero
field it does not return; that is a failure here as well. -/
def mount (d : Disk) (partitionStart : ℕ) (room : Bool) : Option Fs :=
  (d.read (wrap32 (partitionStart + 2)) 2).bind fun bytes =>
    let sb := Superblock.decode (bytes.getD · 0) 0
    let fs := Fs.ofSuperblock partitionStart sb
    if sb.sMagic ≠ ext2Magic then none
    else if sb.sInodeSize = 0 ∨ sb.sBlocksPerGroup = 0 ∨ fs.blockSize = 0 then none
    else if !room then none
    else
      (readBlocks d fs fs.bgdtBlock fs.bgdtBlocks).map fun bgdt =>
        { fs with bgdt := bgdt, mounted := true }

lemma mount_some {d : Disk} {fs : Fs} {start : ℕ} {r : Bool} (h : mount d start r = some fs) :
    fs.mounted = true ∧ fs.blockSize ≠ 0 ∧
      fs.blockSize = wrap32 (1024 <<< (fs.sb.sLogBlockSize % 32)) ∧
      fs.sectorsPerBlock = fs.blockSize / sectorSize := by
  rw [mount] at h
  obtain ⟨bytes, -, h⟩ := Option.bind_eq_some_iff.mp h
  dsimp only at h
  split_ifs at h with hmagic hzero
  obtain ⟨bgdt, -, rfl⟩ := Option.map_eq_some_iff.mp h
  exact ⟨rfl, fun hsize => hzero (.inr (.inr hsize)), rfl, rfl⟩

lemma shift_eq {k : ℕ} (hk : k ≤ 21) : wrap32 (1024 <<< (k % 32)) = 2 ^ (10 + k) := by
  rw [Nat.mod_eq_of_lt (by omega), Nat.shiftLeft_eq, Nat.pow_add]
  exact wrap32_of_lt (Nat.lt_of_le_of_lt (Nat.mul_le_mul_left 1024
    (Nat.pow_le_pow_right (by decide) hk)) (by decide))

/-! ## Inodes -/

/-- `sizeof(struct ext2_inode)`. -/
def inodeStruct : ℕ := 128

/-- `bgdt[group].bg_inode_table`. -/
def Fs.inodeTable (fs : Fs) (group : ℕ) : ℕ :=
  le32 (fs.bgdt.getD · 0) (group * descriptorSize + 8)

/-- `ext2_read_inode`; `room` is memory for a block. -/
def readInode (d : Disk) (fs : Fs) (inodeNum : ℕ) (room : Bool) : Option (List U8) :=
  let group := (inodeNum - 1) / fs.sb.sInodesPerGroup
  let index := (inodeNum - 1) % fs.sb.sInodesPerGroup
  if inodeNum = 0 ∨ fs.sb.sInodesCount < inodeNum then none
  else if fs.sb.sInodesPerGroup = 0 ∨ fs.groupsCount ≤ group ∨ fs.inodesPerBlock = 0 then none
  else if !room then none
  else
    let blockOffset := index / fs.inodesPerBlock
    let inodeOffset := index % fs.inodesPerBlock
    -- the block is taken as an array of structs, whatever the size of a record
    (readBlock d fs (wrap32 (fs.inodeTable group + blockOffset))).map fun block =>
      (block.drop (inodeOffset * inodeStruct)).take inodeStruct

/-! ## The layout of an image -/

namespace Superblock

variable (sb : Superblock)

/-- The size of a block. -/
def blockSize : ℕ := 1024 * 2 ^ sb.sLogBlockSize

/-- Number of block groups. -/
def groups : ℕ :=
  (sb.sBlocksCount - sb.sFirstDataBlock + sb.sBlocksPerGroup - 1) / sb.sBlocksPerGroup

/-- Number of blocks of the descriptor table. -/
def descriptorBlocks : ℕ := (sb.groups * descriptorSize + sb.blockSize - 1) / sb.blockSize

/-- The block behind the descriptor table. -/
def descriptorEnd : ℕ := sb.sFirstDataBlock + 1 + sb.descriptorBlocks

/-- Number of blocks of an inode table. -/
def tableBlocks : ℕ := (sb.sInodesPerGroup * sb.sInodeSize + sb.blockSize - 1) / sb.blockSize

/-- The group of an inode and its place in the group's table. -/
def groupOf (n : ℕ) : ℕ := (n - 1) / sb.sInodesPerGroup

/-- The place of an inode in its group. -/
def indexOf (n : ℕ) : ℕ := (n - 1) % sb.sInodesPerGroup

/-- How many records a block holds. -/
def inodesPerBlock : ℕ := sb.blockSize / sb.sInodeSize

/-- The block of an inode in its table, and its place in the block. -/
def blockOf (n : ℕ) : ℕ := sb.indexOf n / sb.inodesPerBlock

/-- The place of an inode in its block. -/
def slotOf (n : ℕ) : ℕ := sb.indexOf n % sb.inodesPerBlock

end Superblock

namespace Disk

variable (d : Disk) (start : ℕ)

/-- The superblock of the partition that starts at a sector. -/
def superblock : Superblock := .decode d.byte ((start + 2) * sectorSize)

/-- The address of a block. -/
def blockAddr (b : ℕ) : ℕ := start * sectorSize + b * (d.superblock start).blockSize

/-- The table of a group, from the descriptor table. -/
def table (group : ℕ) : ℕ :=
  le32 d.byte (d.blockAddr start ((d.superblock start).sFirstDataBlock + 1) +
    group * descriptorSize + 8)

/-- Where the record of an inode lies. -/
def recordAddr (n : ℕ) : ℕ :=
  d.blockAddr start (d.table start ((d.superblock start).groupOf n)) +
    (d.superblock start).indexOf n * (d.superblock start).sInodeSize

/-- The first 128 bytes of an inode's record. -/
def record (n : ℕ) : List U8 := window d.byte (d.recordAddr start n) inodeStruct

end Disk

/-- A superblock of the format. -/
structure Superblock.Valid (sb : Superblock) : Prop where
  magic : sb.sMagic = ext2Magic
  revision : sb.sRevLevel ≤ 1
  log_le : sb.sLogBlockSize ≤ 2
  first_data_block : sb.sFirstDataBlock = if sb.blockSize = 1024 then 1 else 0
  inode_size : ∃ k, sb.sInodeSize = 2 ^ k
  inode_size_ge : inodeStruct ≤ sb.sInodeSize
  inode_size_le : sb.sInodeSize ≤ sb.blockSize
  /-- A group's bitmaps are one block each. -/
  blocks_per_group : 0 < sb.sBlocksPerGroup ∧ sb.sBlocksPerGroup ≤ 8 * sb.blockSize
  inodes_per_group : 0 < sb.sInodesPerGroup ∧ sb.sInodesPerGroup ≤ 8 * sb.blockSize
  inodes_count : 0 < sb.sInodesCount ∧ sb.sInodesCount ≤ sb.groups * sb.sInodesPerGroup
  /-- The descriptor table is inside the first group. -/
  descriptors_fit : 1 + sb.descriptorBlocks ≤ sb.sBlocksPerGroup

/-- A partition of the format on the device: each group has its inode table behind the descriptor
table, apart from the other groups' tables. -/
structure Disk.Valid (d : Disk) (start : ℕ) : Prop where
  superblock : (d.superblock start).Valid
  blocks_on_disk : start * sectorSize +
    (d.superblock start).sBlocksCount * (d.superblock start).blockSize ≤ d.sectors * sectorSize
  table_ge : ∀ g < (d.superblock start).groups,
    (d.superblock start).descriptorEnd ≤ d.table start g
  table_le : ∀ g < (d.superblock start).groups,
    d.table start g + (d.superblock start).tableBlocks ≤ (d.superblock start).sBlocksCount
  tables_apart : ∀ g < (d.superblock start).groups, ∀ h < (d.superblock start).groups, g ≠ h →
    d.table start g + (d.superblock start).tableBlocks ≤ d.table start h ∨
      d.table start h + (d.superblock start).tableBlocks ≤ d.table start g

end OpenHobbyOS.Ext2
