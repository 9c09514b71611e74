/-
# Superblocks that nobody checks

`ext2_mount` and `ext2_read_inode` of `src/ext2.c` shift by, divide by and multiply fields of the
superblock as they are on the device.  Here each operation says when it goes wrong; where none does,
the functions are those of `Mount`.
-/
import OpenHobbyOS.Ext2.Inodes

namespace OpenHobbyOS.Ext2

open Option hiding or_assoc or_self
open Lib Paging List Nat

/-! ## Operations that can go wrong -/

/-- What can go wrong. -/
inductive Fault where
  | divideByZero
  | shift
  | outside
  deriving DecidableEq

/-- A division. -/
def divide (a b : ℕ) : Except Fault ℕ := if b = 0 then .error .divideByZero else .ok (a / b)

/-- A remainder. -/
def modulo (a b : ℕ) : Except Fault ℕ := if b = 0 then .error .divideByZero else .ok (a % b)

/-- A shift of 32 bits. -/
def shiftLeft (a count : ℕ) : Except Fault ℕ :=
  if 32 ≤ count then .error .shift else .ok (wrap32 (a <<< count))

/-- Bytes of a buffer. -/
def bytesAt (buffer : List U8) (offset length : ℕ) : Except Fault (List U8) :=
  if buffer.length < offset + length then .error .outside
  else .ok ((buffer.drop offset).take length)

/-! ## The functions -/

/-- `ext2_mount`; `kmalloc` refuses a table of no bytes. -/
def mountChecked (d : Disk) (partitionStart : ℕ) (room : Bool) : Except Fault (Option Fs) :=
  match d.read (wrap32 (partitionStart + 2)) 2 with
  | none => .ok none
  | some bytes =>
    let sb := Superblock.decode (bytes.getD · 0) 0
    if sb.sMagic ≠ ext2Magic then .ok none
    else do
      let blockSize ← shiftLeft 1024 sb.sLogBlockSize
      let inodesPerBlock ← divide blockSize sb.sInodeSize
      let groupsCount ←
        divide (wrap32 (sb.sBlocksCount + sb.sBlocksPerGroup - 1)) sb.sBlocksPerGroup
      let fs : Fs := ⟨partitionStart, sb, blockSize, blockSize / sectorSize, inodesPerBlock,
        groupsCount, [], false⟩
      let bgdtSize := wrap32 (groupsCount * descriptorSize)
      let bgdtBlocks ← divide (wrap32 (bgdtSize + blockSize - 1)) blockSize
      if !room ∨ bgdtBlocks * blockSize = 0 then .ok none
      else
        .ok ((readBlocks d fs fs.bgdtBlock bgdtBlocks).map fun bgdt =>
          { fs with bgdt := bgdt, mounted := true })

/-- `ext2_read_inode`.  An index behind the descriptor table is outside of it, whatever address it
wraps around to. -/
def readInodeChecked (d : Disk) (fs : Fs) (inodeNum : ℕ) (room : Bool) :
    Except Fault (Option (List U8)) :=
  if inodeNum = 0 ∨ fs.sb.sInodesCount < inodeNum then .ok none
  else do
    let group ← divide (inodeNum - 1) fs.sb.sInodesPerGroup
    let index ← modulo (inodeNum - 1) fs.sb.sInodesPerGroup
    if fs.groupsCount ≤ group then .ok none
    else
      let field ← bytesAt fs.bgdt (group * descriptorSize + 8) 4
      let blockOffset ← divide index fs.inodesPerBlock
      let inodeOffset ← modulo index fs.inodesPerBlock
      if !room then .ok none
      else
        match readBlock d fs (wrap32 (le32 (field.getD · 0) 0 + blockOffset)) with
        | none => .ok none
        | some block => (bytesAt block (inodeOffset * inodeStruct) inodeStruct).map some

/-- A mount, and the read of an inode if it succeeds. -/
def mountAndRead (d : Disk) (partitionStart : ℕ) (room : Bool) (inodeNum : ℕ) (room' : Bool) :
    Except Fault (Option (List U8)) := do
  match ← mountChecked d partitionStart room with
  | none => .ok none
  | some fs => readInodeChecked d fs inodeNum room'

/-- Nothing goes wrong. -/
def Faultless {α : Type} (x : Except Fault α) : Prop := ∃ a, x = .ok a

/-! ## Harmless fields -/

/-- The fields that `ext2_mount` shifts and divides by.  From 22 on the block size is 0. -/
structure Superblock.Mountable (sb : Superblock) : Prop where
  log_le : sb.sLogBlockSize ≤ 21
  inode_size : sb.sInodeSize ≠ 0
  blocks_per_group : sb.sBlocksPerGroup ≠ 0

namespace Fs

variable (fs : Fs) (n : ℕ)

/-- The block in which `ext2_read_inode` looks for the inode. -/
def inodeBlock : ℕ :=
  wrap32 (fs.inodeTable (fs.sb.groupOf n) + fs.sb.indexOf n / fs.inodesPerBlock)

/-- The block is on the device. -/
def OnDisk (d : Disk) (b : ℕ) : Prop :=
  wrap32 (fs.partitionStart + b * fs.sectorsPerBlock) + fs.sectorsPerBlock ≤ d.sectors

/-- The inodes that `ext2_read_inode` refuses, or finds where it should. -/
def Readable (d : Disk) (room : Bool) : Prop :=
  n = 0 ∨ fs.sb.sInodesCount < n ∨ fs.sb.sInodesPerGroup ≠ 0 ∧
    (fs.groupsCount ≤ fs.sb.groupOf n ∨
      fs.sb.groupOf n * descriptorSize + 12 ≤ fs.bgdtBlocks * fs.blockSize ∧
        fs.sb.sInodeSize ≤ fs.blockSize ∧ (room = true → fs.OnDisk d (fs.inodeBlock n) →
          (fs.sb.indexOf n % (fs.blockSize / fs.sb.sInodeSize) + 1) * inodeStruct ≤
            fs.blockSize))

end Fs

/-! ## Steps -/

section Steps

variable {α β : Type} {a b c : ℕ}

lemma bind_eq_ok {x : Except Fault α} {f : α → Except Fault β} {y : β} :
    (x >>= f) = .ok y ↔ ∃ z, x = .ok z ∧ f z = .ok y := by
  cases x with
  | error e => simp [bind, Except.bind]
  | ok z => simp [bind, Except.bind]

lemma divide_eq_ok : divide a b = .ok c ↔ b ≠ 0 ∧ a / b = c := by
  rw [divide]
  by_cases hb : b = 0 <;> simp [hb]

lemma modulo_eq_ok : modulo a b = .ok c ↔ b ≠ 0 ∧ a % b = c := by
  rw [modulo]
  by_cases hb : b = 0 <;> simp [hb]

lemma shiftLeft_eq_ok : shiftLeft a b = .ok c ↔ b < 32 ∧ wrap32 (a <<< b) = c := by
  rw [shiftLeft]
  by_cases hb : 32 ≤ b
  · simp [hb]
  · simp [hb, Nat.lt_of_not_le hb]

lemma bytesAt_eq_ok {buffer bytes : List U8} :
    bytesAt buffer a b = .ok bytes ↔
      a + b ≤ buffer.length ∧ (buffer.drop a).take b = bytes := by
  rw [bytesAt]
  by_cases hb : buffer.length < a + b
  · simp [hb]
  · simp [hb, Nat.le_of_not_lt hb]

end Steps

/-! ## Mounting -/

lemma blockSize_eq_zero {log : ℕ} (hlog : log < 32) : wrap32 (1024 <<< log) = 0 ↔ 21 < log := by
  revert log
  decide

variable {d : Disk} {start n : ℕ} {room : Bool} {fs : Fs} {result : Option Fs}

/-- What `ext2_mount` leaves in `struct ext2_fs`. -/
structure Fs.Mounted (fs : Fs) : Prop where
  blockSize_pos : 0 < fs.blockSize
  sectors_eq : fs.sectorsPerBlock * sectorSize = fs.blockSize
  inodes_eq : fs.inodesPerBlock = fs.blockSize / fs.sb.sInodeSize
  inode_size : fs.sb.sInodeSize ≠ 0
  length_bgdt : fs.bgdt.length = fs.bgdtBlocks * fs.blockSize

lemma sectors_shift {log : ℕ} (hlog : log < 32) :
    wrap32 (1024 <<< log) / sectorSize * sectorSize = wrap32 (1024 <<< log) := by
  revert log
  decide

lemma length_readBlock {b : ℕ} {block : List U8} (h : readBlock d fs b = some block) :
    block.length = fs.sectorsPerBlock * sectorSize := by
  rw [readBlock, Disk.read] at h
  split_ifs at h
  rw [← some.inj h, length_window]

lemma length_readBlocks {b count : ℕ} {bytes : List U8}
    (h : readBlocks d fs b count = some bytes) :
    bytes.length = count * (fs.sectorsPerBlock * sectorSize) := by
  induction count generalizing b bytes with
  | zero => simp [← some.inj h]
  | succ count ih =>
    obtain ⟨block, hblock, hrest⟩ := bind_eq_some_iff.mp h
    obtain ⟨rest, hbytes, rfl⟩ := map_eq_some_iff.mp hrest
    rw [length_append, length_readBlock hblock, ih hbytes, succ_mul, add_comm]

lemma mountChecked_eq_ok {bytes : List U8} {sb : Superblock}
    (hread : d.read (wrap32 (start + 2)) 2 = some bytes)
    (hsb : Superblock.decode (bytes.getD · 0) 0 = sb) (hmagic : sb.sMagic = ext2Magic) :
    mountChecked d start room = .ok result ↔
      sb.Mountable ∧ (if !room ∨ (Fs.ofSuperblock start sb).bgdtBlocks *
          (Fs.ofSuperblock start sb).blockSize = 0 then none
        else mount d start room) = result := by
  rw [mountChecked, mount, hread]
  simp only [hsb, hmagic, ne_eq, not_true_eq_false, if_false, bind_some]
  simp only [bind_eq_ok, shiftLeft_eq_ok, divide_eq_ok]
  by_cases hm : sb.Mountable
  · have hlog : sb.sLogBlockSize < 32 := hm.log_le.trans_lt (by decide)
    have hzero : wrap32 (1024 <<< sb.sLogBlockSize) ≠ 0 := fun h =>
      not_lt.mpr hm.log_le ((blockSize_eq_zero hlog).mp h)
    simp only [ne_eq, hm, hlog, hzero, hm.inode_size, hm.blocks_per_group, true_and, or_self,
      not_false_eq_true, exists_eq_left', if_false, Fs.bgdtBlocks, Fs.ofSuperblock,
      mod_eq_of_lt hlog]
    cases room with
    | false => simp
    | true =>
      simp only [Bool.not_true, Bool.false_eq_true, false_or, if_false]
      split_ifs <;> rw [Except.ok.injEq]
  · refine iff_of_false ?_ fun h => hm h.1
    rintro ⟨_, ⟨hlog, rfl⟩, _, ⟨hinode, -⟩, _, ⟨hgroup, -⟩, _, ⟨hzero, -⟩, -⟩
    exact hm ⟨Nat.le_of_not_lt fun h => hzero ((blockSize_eq_zero hlog).mpr h), hinode, hgroup⟩

lemma mountChecked_of_magic {bytes : List U8} {sb : Superblock}
    (hread : d.read (wrap32 (start + 2)) 2 = some bytes)
    (hsb : Superblock.decode (bytes.getD · 0) 0 = sb) (hmagic : sb.sMagic ≠ ext2Magic) :
    mountChecked d start room = .ok none := by
  rw [mountChecked, hread]
  simp only [hsb, if_pos hmagic]

/-- **Mounting** goes wrong exactly at fields that are not mountable. -/
lemma faultless_mount_iff :
    Faultless (mountChecked d start room) ↔
      ∀ bytes, d.read (wrap32 (start + 2)) 2 = some bytes →
        (Superblock.decode (bytes.getD · 0) 0).sMagic = ext2Magic →
          (Superblock.decode (bytes.getD · 0) 0).Mountable := by
  cases hread : d.read (wrap32 (start + 2)) 2 with
  | none => exact iff_of_true ⟨none, by rw [mountChecked, hread]⟩ (by simp)
  | some bytes =>
    generalize hsb : Superblock.decode (bytes.getD · 0) 0 = sb
    have hall : (∀ b, some bytes = some b →
        (Superblock.decode (b.getD · 0) 0).sMagic = ext2Magic →
          (Superblock.decode (b.getD · 0) 0).Mountable) ↔
        (sb.sMagic = ext2Magic → sb.Mountable) := by
      rw [← hsb]
      exact ⟨fun h => h bytes rfl, fun h b hb => some.inj hb ▸ h⟩
    rw [hall]
    by_cases hmagic : sb.sMagic = ext2Magic
    · simp [Faultless, mountChecked_eq_ok hread hsb hmagic, hmagic]
    · exact iff_of_true ⟨none, mountChecked_of_magic hread hsb hmagic⟩ fun h => absurd h hmagic

/-- A mount that succeeds is the one of `mount`, with a table of the size that was asked for. -/
lemma mounted_of_mountChecked (h : mountChecked d start room = .ok (some fs)) :
    mount d start room = some fs ∧ fs.Mounted := by
  cases hread : d.read (wrap32 (start + 2)) 2 with
  | none => simp [mountChecked, hread] at h
  | some bytes =>
    generalize hsb : Superblock.decode (bytes.getD · 0) 0 = sb
    by_cases hmagic : sb.sMagic = ext2Magic
    swap
    · rw [mountChecked_of_magic hread hsb hmagic] at h
      cases h
    obtain ⟨hm, h⟩ := (mountChecked_eq_ok hread hsb hmagic).mp h
    split_ifs at h
    refine ⟨h, ?_⟩
    have hlog : sb.sLogBlockSize < 32 := hm.log_le.trans_lt (by decide)
    rw [mount, hread] at h
    simp only [bind_some, hsb, hmagic, ne_eq, not_true_eq_false, if_false] at h
    split_ifs at h with hzero
    obtain ⟨bgdt, hbgdt, rfl⟩ := map_eq_some_iff.mp h
    have hsectors : (Fs.ofSuperblock start sb).sectorsPerBlock * sectorSize =
        (Fs.ofSuperblock start sb).blockSize := by
      simp only [Fs.ofSuperblock, mod_eq_of_lt hlog, sectors_shift hlog]
    refine ⟨pos_of_ne_zero fun h => hzero (.inr (.inr h)), hsectors, rfl, hm.inode_size, ?_⟩
    rw [length_readBlocks hbgdt, hsectors]
    rfl

/-! ## Reading an inode -/

lemma le32_bgdt (fs : Fs) (g : ℕ) :
    le32 (((fs.bgdt.drop (g * descriptorSize + 8)).take 4).getD · 0) 0 = fs.inodeTable g := by
  refine le32_congr fun i hi => ?_
  rw [zero_add, getD_eq_getElem?_getD, getElem?_take_of_lt hi, getElem?_drop,
    getD_eq_getElem?_getD]

lemma readBlock_ne_none {b : ℕ} : readBlock d fs b ≠ none ↔ fs.OnDisk d b := by
  rw [readBlock, Disk.read, Fs.OnDisk]
  split_ifs with h
  · exact iff_of_false (by simp) (not_le.mpr h)
  · exact iff_of_true (by simp) (Nat.le_of_not_lt h)

lemma inodesPerBlock_ne_zero (hfs : fs.Mounted) :
    fs.inodesPerBlock ≠ 0 ↔ fs.sb.sInodeSize ≤ fs.blockSize := by
  rw [hfs.inodes_eq, ne_eq, Nat.div_eq_zero_iff, not_or, Nat.not_lt]
  exact and_iff_right hfs.inode_size

/-- **Reading an inode** goes wrong exactly if it is not readable. -/
lemma faultless_readInode_iff (hfs : fs.Mounted) :
    Faultless (readInodeChecked d fs n room) ↔ fs.Readable n d room := by
  rw [readInodeChecked, Fs.Readable]
  by_cases hrange : n = 0 ∨ fs.sb.sInodesCount < n
  · rw [if_pos hrange, ← or_assoc]
    exact iff_of_true ⟨none, rfl⟩ (.inl hrange)
  rw [if_neg hrange, ← or_assoc, or_iff_right hrange]
  simp only [Faultless, bind_eq_ok, divide_eq_ok, modulo_eq_ok]
  by_cases hper : fs.sb.sInodesPerGroup = 0
  · simp [hper]
  simp only [ne_eq, hper, not_false_eq_true, true_and, exists_eq_left', Fs.inodeBlock,
    Superblock.groupOf, Superblock.indexOf, ← hfs.length_bgdt, ← inodesPerBlock_ne_zero hfs,
    ← hfs.inodes_eq]
  by_cases hgroup : fs.groupsCount ≤ (n - 1) / fs.sb.sInodesPerGroup
  · simp [hgroup]
  simp only [hgroup, if_false, false_or, bind_eq_ok, bytesAt_eq_ok, divide_eq_ok, modulo_eq_ok]
  by_cases htable : (n - 1) / fs.sb.sInodesPerGroup * descriptorSize + 12 ≤ fs.bgdt.length
  swap
  · simp [htable]
  by_cases hinodes : fs.inodesPerBlock = 0
  · simp [hinodes]
  simp only [htable, hinodes, ne_eq, not_false_eq_true, true_and, exists_eq_left', le32_bgdt]
  cases room with
  | false => simp
  | true =>
    simp only [Bool.not_true, Bool.false_eq_true, if_false, forall_const]
    rw [← readBlock_ne_none]
    cases hblock : readBlock d fs (wrap32 (fs.inodeTable ((n - 1) / fs.sb.sInodesPerGroup) +
        (n - 1) % fs.sb.sInodesPerGroup / fs.inodesPerBlock)) with
    | none => simp
    | some block =>
      simp only [bytesAt, length_readBlock hblock, hfs.sectors_eq]
      by_cases hout : fs.blockSize < (n - 1) % fs.sb.sInodesPerGroup % fs.inodesPerBlock *
          inodeStruct + inodeStruct
      · simp [hout, Except.map, add_mul]
      · simp [hout, Except.map, Nat.add_mul, Nat.le_of_not_lt hout]

/-- A read that does not go wrong is the one of `readInode`. -/
theorem readInode_of_checked {bytes : Option (List U8)}
    (h : readInodeChecked d fs n room = .ok bytes) : readInode d fs n room = bytes := by
  rw [readInodeChecked] at h
  rw [readInode]
  by_cases hrange : n = 0 ∨ fs.sb.sInodesCount < n
  · rw [if_pos hrange] at h ⊢
    exact Except.ok.inj h
  rw [if_neg hrange] at h ⊢
  simp only [bind_eq_ok, divide_eq_ok, modulo_eq_ok] at h
  obtain ⟨group, ⟨hper, rfl⟩, index, ⟨-, rfl⟩, h⟩ := h
  by_cases hgroup : fs.groupsCount ≤ (n - 1) / fs.sb.sInodesPerGroup
  · rw [if_pos hgroup] at h
    rw [if_pos (.inr (.inl hgroup))]
    exact Except.ok.inj h
  rw [if_neg hgroup] at h
  simp only [bind_eq_ok, bytesAt_eq_ok, divide_eq_ok, modulo_eq_ok] at h
  obtain ⟨field, ⟨-, rfl⟩, _, ⟨hinodes, rfl⟩, _, ⟨-, rfl⟩, h⟩ := h
  rw [le32_bgdt] at h
  rw [if_neg (by simp [hper, hgroup, hinodes])]
  cases room with
  | false => exact Except.ok.inj h
  | true =>
    simp only [Bool.not_true, Bool.false_eq_true, if_false] at h ⊢
    cases hblock : readBlock d fs (wrap32 (fs.inodeTable ((n - 1) / fs.sb.sInodesPerGroup) +
        (n - 1) % fs.sb.sInodesPerGroup / fs.inodesPerBlock)) with
    | none =>
      rw [hblock] at h
      exact Except.ok.inj h
    | some block =>
      simp only [hblock, bytesAt] at h
      split_ifs at h
      · cases h
      · exact Except.ok.inj h

/-! ## Both calls -/

/-- **Superblocks that nobody checks.**  A mount and the read of an inode go well if and only if
the superblock, where it has the magic number, is mountable and the inode can be read. -/
theorem ext2_faultless_iff (d : Disk) (start : ℕ) (room : Bool) (n : ℕ) (room' : Bool) :
    Faultless (mountAndRead d start room n room') ↔
      (∀ bytes, d.read (wrap32 (start + 2)) 2 = some bytes →
        (Superblock.decode (bytes.getD · 0) 0).sMagic = ext2Magic →
          (Superblock.decode (bytes.getD · 0) 0).Mountable) ∧
      ∀ fs, mountChecked d start room = .ok (some fs) → fs.Readable n d room' := by
  rw [← @faultless_mount_iff d start room, mountAndRead]
  cases hmount : mountChecked d start room with
  | error e =>
    refine iff_of_false ?_ fun h => ?_
    · rintro ⟨a, h⟩
      cases h
    · obtain ⟨a, h⟩ := h.1
      cases h
  | ok result =>
    rw [and_iff_right ⟨result, rfl⟩]
    cases result with
    | none => exact iff_of_true ⟨none, rfl⟩ fun fs h => by cases h
    | some fs =>
      have hread := @faultless_readInode_iff d n room' fs (mounted_of_mountChecked hmount).2
      refine hread.trans ⟨fun h fs' hfs => ?_, fun h => h fs rfl⟩
      obtain rfl : fs = fs' := some.inj (Except.ok.inj hfs)
      exact h

/-- What goes wrong, if anything. -/
def fault {α : Type} : Except Fault α → Option Fault
  | .error e => some e
  | .ok _ => none

/-- The image with 1024-byte blocks and some other fields. -/
def damagedDisk (fields : List (ℕ × ℕ)) : Disk :=
  (sampleDisk 0 7).withByte
    (fields.foldl (fun byte field => poke byte field.1 field.2) (sampleDisk 0 7).byte)

example : fault (mountAndRead (damagedDisk []) 0 true 16 true) = none := by decide +kernel

/-- **Damaged superblocks**: a block size exponent of 32, an inode size of 0, a block size of 0, no
inodes per group, more groups than descriptors, and records of 64 bytes. -/
theorem damaged_superblocks :
    fault (mountAndRead (damagedDisk [(1048, 32)]) 0 true 1 true) = some .shift ∧
    fault (mountAndRead (damagedDisk [(1112, 0)]) 0 true 1 true) = some .divideByZero ∧
    fault (mountAndRead (damagedDisk [(1048, 22)]) 0 true 1 true) = some .divideByZero ∧
    fault (mountAndRead (damagedDisk [(1064, 0)]) 0 true 1 true) = some .divideByZero ∧
    fault (mountAndRead (damagedDisk [(1024, 200), (1028, 2 ^ 27 + 1), (1056, 1), (1064, 1)])
      0 true 100 true) = some .outside ∧
    fault (mountAndRead (damagedDisk [(1112, 64)]) 0 true 16 true) = some .outside := by
  decide +kernel

end OpenHobbyOS.Ext2
