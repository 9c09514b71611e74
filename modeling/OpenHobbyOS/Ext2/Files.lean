/-
# Reading files

`ext2_read_inode_block` and `ext2_read`, with the block a file keeps in its buffer, beside the
content the format gives a file: direct blocks, then three levels of pointer blocks, where a zero
pointer stands for zeros.
-/
import OpenHobbyOS.Ext2.Inodes
import OpenHobbyOS.Lib.Run

namespace OpenHobbyOS.Ext2

open Lib Paging List Option Nat

/-! ## The source -/

/-- The fields of `struct ext2_inode` that reading uses. -/
structure Inode where
  iMode : ℕ
  iSize : ℕ
  iBlock : Fin 15 → ℕ
  /-- The upper half of the size of a regular file, from revision 1 on. -/
  iDirAcl : ℕ

/-- The inode of a record. -/
def Inode.decode (bytes : List U8) : Inode where
  iMode := le16 (bytes.getD · 0) 0
  iSize := le32 (bytes.getD · 0) 4
  iBlock := fun i => le32 (bytes.getD · 0) (40 + 4 * i)
  iDirAcl := le32 (bytes.getD · 0) 108

/-- The pointer `ext2_read_inode_block` takes; `room` is memory for the pointer block. -/
def inodeBlockNum (d : Disk) (fs : Fs) (inode : Inode) (blockIdx : ℕ) (room : Bool) : Option ℕ :=
  if h : blockIdx < 12 then some (inode.iBlock ⟨blockIdx, by omega⟩)
  else if blockIdx < 12 + 256 then
    if !room then none
    else
      (readBlock d fs (inode.iBlock 12)).map fun indirect =>
        le32 (indirect.getD · 0) (4 * (blockIdx - 12))
  else none

/-- `ext2_read_inode_block`. -/
def readInodeBlock (d : Disk) (fs : Fs) (inode : Inode) (blockIdx : ℕ) (room : Bool) :
    Option (List U8) :=
  (inodeBlockNum d fs inode blockIdx room).bind fun blockNum =>
    if blockNum = 0 then some (replicate fs.blockSize 0) else readBlock d fs blockNum

/-- `ext2_file_t`. -/
structure File where
  inode : Inode
  offset : ℕ
  blockBuffer : List U8
  currentBlock : ℕ

/-- No block is buffered. -/
def noBlock : ℕ := 0xFFFFFFFF

/-- The file `ext2_open` makes, with whatever is in its buffer. -/
def File.opened (inode : Inode) (buffer : List U8) : File := ⟨inode, 0, buffer, noBlock⟩

/-- `ext2_open`, with the outcomes of its two allocations. -/
def openFile (d : Disk) (fs : Fs) (inodeNum : ℕ) (room room' : Bool) (buffer : List U8) :
    Option File :=
  (readInode d fs inodeNum room).bind fun bytes =>
    if room' then some (.opened (.decode bytes) buffer) else none

/-- A block is brought into the buffer, unless it is there. -/
def File.load (d : Disk) (fs : Fs) (f : File) (blockIdx : ℕ) (room : Bool) : Option File :=
  if blockIdx = f.currentBlock then some f
  else
    (readInodeBlock d fs f.inode blockIdx room).map fun block =>
      { f with blockBuffer := block, currentBlock := blockIdx }

/-- The loop of `ext2_read`: the bytes copied and the file afterwards.  Each round copies a byte at
least, so `size` rounds are enough. -/
def readLoop (d : Disk) (fs : Fs) (alloc : ℕ → Bool) : ℕ → File → ℕ → List U8 × File
  | 0, f, _ => ([], f)
  | rounds + 1, f, size =>
    if size = 0 ∨ f.inode.iSize ≤ f.offset then ([], f)
    else
      let blockIdx := f.offset / fs.blockSize
      let blockOffset := f.offset % fs.blockSize
      let toRead := min (fs.blockSize - blockOffset) size
      let toRead :=
        if f.inode.iSize < wrap32 (f.offset + toRead) then f.inode.iSize - f.offset else toRead
      match f.load d fs blockIdx (alloc blockIdx) with
      | none => ([], f)
      | some f =>
        let next := { f with offset := wrap32 (f.offset + toRead) }
        let (rest, last) := readLoop d fs alloc rounds next (size - toRead)
        ((f.blockBuffer.drop blockOffset).take toRead ++ rest, last)

/-- `ext2_read`; no result stands for -1. -/
def readFile (d : Disk) (fs : Fs) (alloc : ℕ → Bool) (f : File) (size : ℕ) :
    Option (List U8 × File) :=
  if !fs.mounted then none
  else if f.inode.iSize ≤ f.offset then some ([], f)
  else
    let size :=
      if f.inode.iSize < wrap32 (f.offset + size) then f.inode.iSize - f.offset else size
    some (readLoop d fs alloc size f size)

/-- What is done with an open file: the offset is set, or bytes are read. -/
inductive FileOp where
  | seek (offset : ℕ)
  | read (alloc : ℕ → Bool) (size : ℕ)

/-- A seek or a read. -/
def File.step (d : Disk) (fs : Fs) (f : File) : FileOp → Option File
  | .seek offset => some { f with offset := wrap32 offset }
  | .read alloc size => (readFile d fs alloc f size).map Prod.snd

/-! ## The content of a file -/

namespace Disk

variable (d : Disk) (start : ℕ) (inode : Inode)

/-- A pointer of a pointer block; there is none in a hole. -/
def pointerAt (b i : ℕ) : ℕ := if b = 0 then 0 else le32 d.byte (d.blockAddr start b + 4 * i)

/-- The block behind each index, zero for a hole. -/
def filePointer (i : ℕ) : ℕ :=
  let p := (d.superblock start).blockSize / 4
  if h : i < 12 then inode.iBlock ⟨i, by omega⟩
  else if i - 12 < p then d.pointerAt start (inode.iBlock 12) (i - 12)
  else if i - 12 - p < p ^ 2 then
    let j := i - 12 - p
    d.pointerAt start (d.pointerAt start (inode.iBlock 13) (j / p)) (j % p)
  else
    let j := i - 12 - p - p ^ 2
    d.pointerAt start (d.pointerAt start (d.pointerAt start (inode.iBlock 14) (j / p ^ 2))
      (j / p % p)) (j % p)

/-- The byte of a file at a position. -/
def fileByte (x : ℕ) : U8 :=
  let b := d.filePointer start inode (x / (d.superblock start).blockSize)
  if b = 0 then 0 else d.byte (d.blockAddr start b + x % (d.superblock start).blockSize)

/-- The size, of 64 bits for regular files from revision 1 on. -/
def fileSize : ℕ :=
  if 1 ≤ (d.superblock start).sRevLevel ∧ inode.iMode / 0x1000 = 8 then
    inode.iSize + 2 ^ 32 * inode.iDirAcl
  else inode.iSize

/-- The content of a file from an offset on, at most `length` bytes. -/
def slice (offset length : ℕ) : List U8 :=
  window (d.fileByte start inode) offset (min (offset + length) (d.fileSize start inode) - offset)

end Disk

variable {b size x : ℕ} {room : Bool} {block : List U8}

/-- How many blocks the pointers of an inode reach. -/
def Disk.mapLength (d : Disk) (start : ℕ) : ℕ :=
  let p := (d.superblock start).blockSize / 4
  12 + p + p ^ 2 + p ^ 3

/-- The blocks an inode names are blocks of the file system. -/
structure Inode.Valid (d : Disk) (start : ℕ) (inode : Inode) : Prop where
  size_lt : inode.iSize < 2 ^ 32
  block_lt : ∀ i, inode.iBlock i < (d.superblock start).sBlocksCount
  pointer_lt : ∀ i < d.mapLength start,
    d.filePointer start inode i < (d.superblock start).sBlocksCount

variable {d : Disk} {start : ℕ} {fs : Fs} {inode : Inode} {f : File} {alloc : ℕ → Bool}

/-! ## What the source reads -/

lemma inodeBlockNum_lt {p : ℕ} (h : inodeBlockNum d fs inode b room = some p) : b < 12 + 256 := by
  rw [inodeBlockNum] at h
  split_ifs at h <;> omega

lemma readInodeBlock_room (h : readInodeBlock d fs inode b room = some block) :
    readInodeBlock d fs inode b true = some block := by
  cases room with
  | true => exact h
  | false =>
    obtain ⟨p, hp, hblock⟩ := bind_eq_some_iff.mp h
    refine bind_eq_some_iff.mpr ⟨p, ?_, hblock⟩
    rw [inodeBlockNum] at hp ⊢
    by_cases h12 : b < 12
    · rw [dif_pos h12] at hp ⊢
      exact hp
    · simp [h12] at hp

/-- The byte of a file as the source finds it. -/
def readByte (d : Disk) (fs : Fs) (inode : Inode) (x : ℕ) : U8 :=
  ((readInodeBlock d fs inode (x / fs.blockSize) true).getD []).getD (x % fs.blockSize) 0

/-- The buffer holds the block the file says it does. -/
structure File.Cached (d : Disk) (fs : Fs) (f : File) : Prop where
  offset_lt : f.offset < 2 ^ 32
  size_lt : f.inode.iSize < 2 ^ 32
  block : f.currentBlock = noBlock ∨
    readInodeBlock d fs f.inode f.currentBlock true = some f.blockBuffer

/-- The block with the byte at `x` is in the buffer when the read starts, or can be read. -/
def File.Loads (d : Disk) (fs : Fs) (alloc : ℕ → Bool) (f : File) (x : ℕ) : Prop :=
  (x / fs.blockSize = f.offset / fs.blockSize ∧ f.currentBlock = x / fs.blockSize) ∨
    (readInodeBlock d fs f.inode (x / fs.blockSize) (alloc (x / fs.blockSize))).isSome = true

/-- Blocks have a size of at least one sector. -/
structure Fs.Proper (fs : Fs) : Prop where
  blockSize_ge : 512 ≤ fs.blockSize
  blockSize_le : fs.blockSize ≤ 2 ^ 23
  length_eq : ∀ {d : Disk} {b : ℕ} {block : List U8}, readBlock d fs b = some block →
    block.length = fs.blockSize

lemma length_readInodeBlock (hfs : fs.Proper) (h : readInodeBlock d fs inode b room = some block) :
    block.length = fs.blockSize := by
  obtain ⟨p, -, hblock⟩ := bind_eq_some_iff.mp h
  split_ifs at hblock
  · rw [← some.inj hblock, length_replicate]
  · exact hfs.length_eq hblock

lemma div_mod_add {i : ℕ} (hb : 0 < b) (h : x % b + i < b) :
    (x + i) / b = x / b ∧ (x + i) % b = x % b + i := by
  have hx : x + i = x % b + i + b * (x / b) := by
    have := div_add_mod x b
    omega
  rw [hx, add_mul_div_left _ _ hb, add_mul_mod_self_left, div_eq_of_lt h,
    mod_eq_of_lt h, zero_add]
  exact ⟨rfl, rfl⟩

lemma piece_eq (hfs : fs.Proper) {n : ℕ}
    (h : readInodeBlock d fs inode (x / fs.blockSize) true = some block)
    (hn : x % fs.blockSize + n ≤ fs.blockSize) :
    (block.drop (x % fs.blockSize)).take n = window (readByte d fs inode) x n := by
  have hlen := length_readInodeBlock hfs h
  have hpos : 0 < fs.blockSize := by have := hfs.blockSize_ge; omega
  refine ext_getElem? fun i => ?_
  by_cases hi : i < n
  · obtain ⟨hdiv, hmod⟩ := div_mod_add hpos (show x % fs.blockSize + i < fs.blockSize by omega)
    rw [getElem?_take_of_lt hi, getElem?_drop, getElem?_window hi, readByte, hdiv, hmod, h,
      getD_some, getD_eq_getElem?_getD, getElem?_eq_getElem (by omega),
      getD_some]
  · rw [getElem?_eq_none (by simp; omega), getElem?_eq_none (by simpa using hi)]

/-! ## The loop -/

lemma load_some {g : File} (hfs : fs.Proper) (hc : f.Cached d fs)
    (h : f.load d fs (f.offset / fs.blockSize) room = some g) :
    g = { f with blockBuffer := g.blockBuffer, currentBlock := f.offset / fs.blockSize } ∧
      readInodeBlock d fs f.inode (f.offset / fs.blockSize) true = some g.blockBuffer ∧
      (f.currentBlock = f.offset / fs.blockSize ∨
        (readInodeBlock d fs f.inode (f.offset / fs.blockSize) room).isSome = true) := by
  rw [File.load] at h
  split_ifs at h with hcur
  · obtain rfl := some.inj h
    have hlt : f.offset / fs.blockSize < noBlock :=
      lt_of_le_of_lt (div_le_div_left hfs.blockSize_ge (by decide))
        (by have := hc.offset_lt; rw [noBlock]; omega)
    refine ⟨by rw [hcur], ?_, .inl hcur.symm⟩
    rw [hcur]
    exact hc.block.resolve_left (by omega)
  · obtain ⟨block, hblock, rfl⟩ := map_eq_some_iff.mp h
    exact ⟨rfl, readInodeBlock_room hblock, .inr (by rw [hblock]; rfl)⟩

lemma load_none (h : f.load d fs (f.offset / fs.blockSize) room = none) :
    f.currentBlock ≠ f.offset / fs.blockSize ∧
      (readInodeBlock d fs f.inode (f.offset / fs.blockSize) room).isSome = false := by
  rw [File.load] at h
  split_ifs at h with hcur
  exact ⟨fun h => hcur h.symm, by rw [map_eq_none_iff.mp h]; rfl⟩

/-- The loop gives bytes of the file as far as their blocks can be had, up to the size. -/
structure ReadSpec (d : Disk) (fs : Fs) (alloc : ℕ → Bool) (f : File) (size : ℕ)
    (result : List U8 × File) (m : ℕ) : Prop where
  bytes_eq : result.1 = window (readByte d fs f.inode) f.offset m
  le_size : m ≤ size
  le_iSize : 0 < m → f.offset + m ≤ f.inode.iSize
  loads : ∀ x, f.offset ≤ x → x < f.offset + m → f.Loads d fs alloc x
  stops : f.offset + m < min (f.offset + size) f.inode.iSize → ¬ f.Loads d fs alloc (f.offset + m)
  cached : result.2.Cached d fs
  inode_eq : result.2.inode = f.inode
  offset_eq : result.2.offset = f.offset + m

lemma ReadSpec.nothing (hc : f.Cached d fs)
    (hstop : f.offset < min (f.offset + size) f.inode.iSize → ¬ f.Loads d fs alloc f.offset) :
    ReadSpec d fs alloc f size ([], f) 0 where
  bytes_eq := rfl
  le_size := zero_le _
  le_iSize := nofun
  loads x hx hx' := by omega
  stops := hstop
  cached := hc
  inode_eq := rfl
  offset_eq := rfl

lemma ReadSpec.round {g : File} {t m : ℕ} {result : List U8 × File} (hfs : fs.Proper)
    (hblock : readInodeBlock d fs f.inode (f.offset / fs.blockSize) true = some g.blockBuffer)
    (hg : g = { f with blockBuffer := g.blockBuffer, currentBlock := f.offset / fs.blockSize })
    (hload : f.Loads d fs alloc f.offset)
    (ht : t = min (min (fs.blockSize - f.offset % fs.blockSize) size) (f.inode.iSize - f.offset))
    (hlt : f.offset < f.inode.iSize)
    (h : ReadSpec d fs alloc { g with offset := f.offset + t } (size - t) result m) :
    ReadSpec d fs alloc f size
      ((g.blockBuffer.drop (f.offset % fs.blockSize)).take t ++ result.1, result.2) (t + m) := by
  have hpos : 0 < fs.blockSize := by have := hfs.blockSize_ge; omega
  have hmod := mod_lt f.offset hpos
  have hinode : g.inode = f.inode := by rw [hg]
  have hcur : g.currentBlock = f.offset / fs.blockSize := by rw [hg]
  have hdm := div_add_mod f.offset fs.blockSize
  -- a round that does not finish the read copies to the end of its block
  have hnext : ∀ x, f.offset + t ≤ x → f.offset + t < min (f.offset + size) f.inode.iSize →
      f.offset / fs.blockSize < x / fs.blockSize := by
    intro x hx hmore
    rw [lt_iff_add_one_le, le_div_iff_mul_le hpos, add_mul, one_mul]
    rw [mul_comm] at hdm
    omega
  have hiff : ∀ x, f.offset + t ≤ x → f.offset + t < min (f.offset + size) f.inode.iSize →
      (File.Loads d fs alloc { g with offset := f.offset + t } x ↔ f.Loads d fs alloc x) := by
    intro x hx hmore
    have hne := hnext x hx hmore
    rw [File.Loads, File.Loads, hinode, hcur]
    refine or_congr_left (iff_of_false (fun hand => ?_) fun hand => ?_) <;> omega
  have hsize := h.le_size
  have hend : 0 < m → f.offset + t + m ≤ f.inode.iSize := hinode ▸ h.le_iSize
  have hstop : f.offset + t + m < min (f.offset + t + (size - t)) f.inode.iSize →
      ¬ File.Loads d fs alloc { g with offset := f.offset + t } (f.offset + t + m) := by
    rw [← hinode]
    exact h.stops
  constructor
  · rw [piece_eq hfs hblock (by omega), h.bytes_eq, hinode, window_append]
  · omega
  · omega
  · intro x hx hx'
    by_cases hsame : x < f.offset + t
    · obtain ⟨hdiv, -⟩ := div_mod_add (x := f.offset) (i := x - f.offset) hpos (by omega)
      rw [Nat.add_sub_cancel' hx] at hdiv
      rcases hload with ⟨-, hcur⟩ | hsome
      · exact .inl ⟨hdiv, by rw [hdiv]; exact hcur⟩
      · exact .inr (by rw [hdiv]; exact hsome)
    · exact (hiff x (by omega) (by omega)).mp
        (h.loads x (show f.offset + t ≤ x by omega) (show x < f.offset + t + m by omega))
  · intro hmore hloads
    rw [← add_assoc] at hloads hmore
    exact hstop (by omega) ((hiff _ (by omega) (by omega)).mpr hloads)
  · exact h.cached
  · exact h.inode_eq.trans hinode
  · exact h.offset_eq.trans (add_assoc _ _ _)

variable (alloc) in
theorem readLoop_spec (hfs : fs.Proper) (rounds : ℕ) (hc : f.Cached d fs) (hsize : size ≤ rounds) :
    ∃ m, ReadSpec d fs alloc f size (readLoop d fs alloc rounds f size) m := by
  -- on the number of rounds; the cached block carries the invariant
  induction rounds generalizing f size with
  | zero => exact ⟨0, .nothing hc fun hlt => by omega⟩
  | succ rounds ih =>
    rw [readLoop]
    split_ifs with hdone
    · exact ⟨0, .nothing hc fun hlt => by omega⟩
    dsimp only
    cases hl : f.load d fs (f.offset / fs.blockSize) (alloc (f.offset / fs.blockSize)) with
    | none =>
      obtain ⟨hcur, hnone⟩ := load_none hl
      refine ⟨0, .nothing hc fun _ => ?_⟩
      rintro (⟨-, h⟩ | h)
      · exact hcur h
      · exact absurd (hnone.symm.trans h) (by decide)
    | some g =>
      obtain ⟨hg, hblock, hload⟩ := load_some hfs hc hl
      have hsmall : f.offset / fs.blockSize < 12 + 256 := by
        obtain ⟨p, hp, -⟩ := bind_eq_some_iff.mp hblock
        exact inodeBlockNum_lt hp
      have hbs := hfs.blockSize_le
      have hbs' := hfs.blockSize_ge
      have hoff : f.offset < 268 * 2 ^ 23 := by
        have hlt := lt_div_mul_add (a := f.offset) (b := fs.blockSize) (by omega)
        have hle : f.offset / fs.blockSize * fs.blockSize ≤ 267 * 2 ^ 23 :=
          Nat.mul_le_mul (by omega) hbs
        omega
      obtain ⟨hsize₀, hlt⟩ := not_or.mp hdone
      have hlt : f.offset < f.inode.iSize := Nat.lt_of_not_le hlt
      have hgo : g.offset = f.offset := by rw [hg]
      -- no sum wraps, so the piece is the least of the three bounds
      have hwrap : ∀ t ≤ 2 ^ 23, wrap32 (f.offset + t) = f.offset + t :=
        fun t ht => wrap32_of_lt (by omega)
      dsimp only
      rw [hwrap _ (by omega), hgo]
      generalize ht : (if f.inode.iSize < f.offset + min (fs.blockSize - f.offset % fs.blockSize) size
        then f.inode.iSize - f.offset
        else min (fs.blockSize - f.offset % fs.blockSize) size) = t
      have ht' : t = min (min (fs.blockSize - f.offset % fs.blockSize) size)
          (f.inode.iSize - f.offset) := by
        split_ifs at ht <;> omega
      have hmod := mod_lt f.offset (show 0 < fs.blockSize by omega)
      rw [hwrap t (by omega)]
      have hc' : File.Cached d fs { g with offset := f.offset + t } := by
        refine ⟨show f.offset + t < 2 ^ 32 by omega, ?_, .inr ?_⟩
        · rw [hg]
          exact hc.size_lt
        · rw [hg]
          exact hblock
      have hleft : size - t ≤ rounds := by omega
      obtain ⟨m, hm⟩ := ih hc' hleft
      refine ⟨t + m, .round hfs hblock hg ?_ ht' hlt hm⟩
      exact hload.imp (fun h => ⟨rfl, h⟩) id

variable (alloc) in
/-- The clamp of the request to the size changes nothing, even where its sum wraps. -/
theorem readFile_spec (size : ℕ) (hfs : fs.Proper) (hmounted : fs.mounted = true)
    (hc : f.Cached d fs) :
    ∃ m result, readFile d fs alloc f size = some result ∧ ReadSpec d fs alloc f size result m := by
  rw [readFile, hmounted]
  simp only [Bool.not_true, Bool.false_eq_true, if_false]
  split_ifs with hend hclamp
  · exact ⟨0, _, rfl, .nothing hc fun hlt => by omega⟩
  · obtain ⟨m, hm⟩ := readLoop_spec alloc hfs (f.inode.iSize - f.offset) hc le_rfl
    have hle : wrap32 (f.offset + size) ≤ f.offset + size := mod_le _ _
    have hsize := hm.le_size
    refine ⟨m, _, rfl, ⟨hm.bytes_eq, by omega, hm.le_iSize, hm.loads, fun hlt => ?_, hm.cached,
      hm.inode_eq, hm.offset_eq⟩⟩
    exact hm.stops (by omega)
  · obtain ⟨m, hm⟩ := readLoop_spec alloc hfs size hc le_rfl
    exact ⟨m, _, rfl, hm⟩

/-- **A read gives a slice of the bytes the source finds exactly if every block of it can be
had.** -/
theorem readFile_eq_iff (hfs : fs.Proper) (hmounted : fs.mounted = true) {e : ℕ} {byte : ℕ → U8}
    (hc : f.Cached d fs) (he : e ≤ f.offset + size)
    (he' : min (f.offset + size) f.inode.iSize ≤ e) :
    (∃ g, readFile d fs alloc f size = some (window byte f.offset (e - f.offset), g)) ↔
      ∀ x, f.offset ≤ x → x < e →
        x < f.inode.iSize ∧ f.Loads d fs alloc x ∧ readByte d fs f.inode x = byte x := by
  obtain ⟨m, result, hr, hm⟩ := readFile_spec alloc size hfs hmounted hc
  rw [hr]
  constructor
  · rintro ⟨g, hg⟩ x hx hxe
    have hbytes : window (readByte d fs f.inode) f.offset m = window byte f.offset (e - f.offset) := by
      rw [← hm.bytes_eq, some.inj hg]
    have hlen : m = e - f.offset := by simpa using congrArg length hbytes
    have hmi := hm.le_iSize
    subst hlen
    refine ⟨by omega, hm.loads x hx (by omega), ?_⟩
    have := window_eq_iff.mp hbytes (x - f.offset) (by omega)
    rwa [Nat.add_sub_cancel' hx] at this
  · intro hall
    have hlen : m = e - f.offset := by
      have hsize := hm.le_size
      have hmi := hm.le_iSize
      by_contra hne
      by_cases hmore : f.offset + m < e
      · have hlast := (hall (e - 1) (by omega) (by omega)).1
        exact hm.stops (by omega) (hall (f.offset + m) (by omega) hmore).2.1
      · omega
    refine ⟨result.2, ?_⟩
    congr 1
    refine Prod.ext ?_ rfl
    rw [hm.bytes_eq, ← hlen]
    refine window_eq_iff.mpr fun i hi => (hall (f.offset + i) (by omega) (by omega)).2.2

/-! ## Blocks of a valid image -/

lemma Disk.Valid.proper (h : d.Valid start) : (d.mountedFs start).Proper := by
  have hv := h.superblock
  have hsize : (d.mountedFs start).blockSize = (d.superblock start).blockSize :=
    hv.blockSize_ofSuperblock start
  have hspb : (d.mountedFs start).sectorsPerBlock = (d.superblock start).blockSize / sectorSize :=
    hv.sectorsPerBlock_ofSuperblock start
  constructor
  · rcases hv.blockSize_cases with hb | hb | hb <;> omega
  · rcases hv.blockSize_cases with hb | hb | hb <;> omega
  · intro e b block hread
    rw [readBlock, Disk.read] at hread
    split_ifs at hread
    rw [← some.inj hread, length_window, hspb, hv.sectors_blockSize, hsize]

/-- The content of the block behind a pointer. -/
def Disk.blockContent (d : Disk) (start p : ℕ) : List U8 :=
  if p = 0 then replicate (d.superblock start).blockSize 0
  else window d.byte (d.blockAddr start p) (d.superblock start).blockSize

/-- The pointer found where block 0 is taken for a pointer block. -/
def Disk.zeroPointer (d : Disk) (start i : ℕ) : ℕ :=
  le32 d.byte (d.blockAddr start 0 + 4 * (i - 12))

namespace Disk.Valid

lemma fileByte_eq (h : d.Valid start) (x : ℕ) :
    d.fileByte start inode x =
      (d.blockContent start (d.filePointer start inode
        (x / (d.superblock start).blockSize))).getD (x % (d.superblock start).blockSize) 0 := by
  have hmod := mod_lt x h.superblock.blockSize_pos
  rw [Disk.fileByte, Disk.blockContent]
  split_ifs
  · rw [getD_eq_getElem?_getD, getElem?_replicate, if_pos hmod]
    rfl
  · rw [getD_window hmod]

lemma readBlock_mountedFs (h : d.Valid start) {b : ℕ}
    (hb : b < (d.superblock start).sBlocksCount) : readBlock d (d.mountedFs start) b =
      some (window d.byte (d.blockAddr start b) (d.superblock start).blockSize) :=
  h.readBlock_eq rfl (h.superblock.sectorsPerBlock_ofSuperblock start) hb

lemma read_pointer (h : d.Valid start) {p : ℕ} (hp : p < (d.superblock start).sBlocksCount) :
    (if p = 0 then some (replicate (d.mountedFs start).blockSize 0)
      else readBlock d (d.mountedFs start) p) = some (d.blockContent start p) := by
  have hsize : (d.mountedFs start).blockSize = (d.superblock start).blockSize :=
    h.superblock.blockSize_ofSuperblock start
  rw [Disk.blockContent, hsize]
  split_ifs
  · rfl
  · exact h.readBlock_mountedFs hp

lemma lt_mapLength (h : d.Valid start) {i : ℕ} (hi : i < 12 + 256) : i < d.mapLength start := by
  rw [Disk.mapLength]
  rcases h.superblock.blockSize_cases with hb | hb | hb <;> rw [hb] <;> omega

lemma readInodeBlock_direct (h : d.Valid start) (hinode : inode.Valid d start) {i : ℕ}
    (hi : i < 12) (room : Bool) :
    readInodeBlock d (d.mountedFs start) inode i room =
      some (d.blockContent start (d.filePointer start inode i)) := by
  have hpointer : d.filePointer start inode i = inode.iBlock ⟨i, by omega⟩ := by
    rw [Disk.filePointer, dif_pos hi]
  have hlt := hinode.pointer_lt i (h.lt_mapLength (by omega))
  rw [hpointer] at hlt ⊢
  rw [readInodeBlock, inodeBlockNum, dif_pos hi, bind_some]
  exact h.read_pointer hlt

lemma inodeBlockNum_indirect (h : d.Valid start) (hinode : inode.Valid d start) {i : ℕ}
    (hi : 12 ≤ i) (hi' : i < 12 + 256) :
    inodeBlockNum d (d.mountedFs start) inode i true =
      some (le32 d.byte (d.blockAddr start (inode.iBlock 12) + 4 * (i - 12))) := by
  rw [inodeBlockNum, dif_neg (by omega), if_pos hi', if_neg (by decide),
    h.readBlock_mountedFs (hinode.block_lt 12), map_some, le32_window]
  rcases h.superblock.blockSize_cases with hb | hb | hb <;> omega

lemma filePointer_indirect (h : d.Valid start) {i : ℕ} (hi : 12 ≤ i) (hi' : i < 12 + 256) :
    d.filePointer start inode i = d.pointerAt start (inode.iBlock 12) (i - 12) := by
  rw [Disk.filePointer, dif_neg (by omega), if_pos]
  rcases h.superblock.blockSize_cases with hb | hb | hb <;> omega

lemma readInodeBlock_indirect (h : d.Valid start) (hinode : inode.Valid d start) {i : ℕ}
    (hi : 12 ≤ i) (hi' : i < 12 + 256) (hblock : inode.iBlock 12 ≠ 0) :
    readInodeBlock d (d.mountedFs start) inode i true =
      some (d.blockContent start (d.filePointer start inode i)) := by
  have hpointer : d.filePointer start inode i =
      le32 d.byte (d.blockAddr start (inode.iBlock 12) + 4 * (i - 12)) := by
    rw [h.filePointer_indirect hi hi', Disk.pointerAt, if_neg hblock]
  have hlt := hinode.pointer_lt i (h.lt_mapLength hi')
  rw [hpointer] at hlt ⊢
  rw [readInodeBlock, h.inodeBlockNum_indirect hinode hi hi', bind_some]
  exact h.read_pointer hlt

lemma readInodeBlock_hole (h : d.Valid start) (hinode : inode.Valid d start) {i : ℕ}
    (hi : 12 ≤ i) (hi' : i < 12 + 256) (hblock : inode.iBlock 12 = 0) :
    readInodeBlock d (d.mountedFs start) inode i true =
      if d.zeroPointer start i = 0 then
        some (replicate (d.mountedFs start).blockSize 0)
      else readBlock d (d.mountedFs start) (d.zeroPointer start i) := by
  rw [readInodeBlock, h.inodeBlockNum_indirect hinode hi hi', bind_some, hblock]
  rfl

end Disk.Valid

/-! ## Reading a file -/

/-- In place of a pointer block that is a hole, block 0 gives a zero byte: by a zero pointer, or by
one to a block with a zero at that place. -/
def Disk.HoleReads (d : Disk) (fs : Fs) (start x : ℕ) : Prop :=
  d.zeroPointer start (x / fs.blockSize) = 0 ∨
    ∃ block, readBlock d fs (d.zeroPointer start (x / fs.blockSize)) = some block ∧
      block.getD (x % fs.blockSize) 0 = 0

/-- The byte at `x` is read right: it lies within the lower 32 bits of the size and the first 268
blocks, and behind the direct blocks there is memory for the pointer block, unless the block is in
the buffer when the read starts, and that block is no hole. -/
def File.ReadsRight (d : Disk) (fs : Fs) (start : ℕ) (alloc : ℕ → Bool) (f : File) (x : ℕ) : Prop :=
  x < f.inode.iSize ∧ x / fs.blockSize < 12 + 256 ∧
    (12 ≤ x / fs.blockSize →
      ((x / fs.blockSize = f.offset / fs.blockSize ∧ f.currentBlock = x / fs.blockSize) ∨
        alloc (x / fs.blockSize) = true) ∧
      (f.inode.iBlock 12 = 0 → d.HoleReads fs start x))

lemma not_loads (hfs : fs.Proper) (hc : f.Cached d fs) {x : ℕ}
    (hx : 12 + 256 ≤ x / fs.blockSize) (hlt : x < 2 ^ 32) : ¬ f.Loads d fs alloc x := by
  have hnone : ∀ room, readInodeBlock d fs f.inode (x / fs.blockSize) room = none := by
    intro room
    rw [readInodeBlock, inodeBlockNum, dif_neg (by omega), if_neg (by omega), bind_none]
  rintro (⟨-, hcur⟩ | hsome)
  · have hsmall : x / fs.blockSize < noBlock :=
      lt_of_le_of_lt (div_le_div_left hfs.blockSize_ge (by decide))
        (by rw [noBlock]; omega)
    have hblock := hc.block.resolve_left (by omega)
    rw [hcur, hnone] at hblock
    exact absurd hblock (by simp)
  · rw [hnone] at hsome
    exact absurd hsome (by simp)

lemma loads_iff (hfs : fs.Proper) (hc : f.Cached d fs) {x : ℕ} (hlt : x < 2 ^ 32)
    (hx : 12 ≤ x / fs.blockSize) :
    f.Loads d fs alloc x ↔
      ((x / fs.blockSize = f.offset / fs.blockSize ∧ f.currentBlock = x / fs.blockSize) ∨
        alloc (x / fs.blockSize) = true) ∧
      (readInodeBlock d fs f.inode (x / fs.blockSize) true).isSome = true := by
  have hsmall : x / fs.blockSize < noBlock :=
    lt_of_le_of_lt (div_le_div_left hfs.blockSize_ge (by decide)) (by rw [noBlock]; omega)
  have hcached : f.currentBlock = x / fs.blockSize →
      (readInodeBlock d fs f.inode (x / fs.blockSize) true).isSome = true := by
    intro hcur
    rw [← hcur, hc.block.resolve_left (by omega)]
    rfl
  have hroom : (readInodeBlock d fs f.inode (x / fs.blockSize) (alloc (x / fs.blockSize))).isSome
      = true ↔ alloc (x / fs.blockSize) = true ∧
        (readInodeBlock d fs f.inode (x / fs.blockSize) true).isSome = true := by
    cases ha : alloc (x / fs.blockSize) with
    | true => simp
    | false =>
      rw [readInodeBlock, inodeBlockNum, dif_neg (by omega)]
      simp
  rw [File.Loads, hroom]
  constructor
  · rintro (h | ⟨ha, hsome⟩)
    · exact ⟨.inl h, hcached h.2⟩
    · exact ⟨.inr ha, hsome⟩
  · rintro ⟨h | ha, hsome⟩
    · exact .inl h
    · exact .inr ⟨ha, hsome⟩

lemma Disk.Valid.readsRight_iff (h : d.Valid start) (hinode : f.inode.Valid d start)
    (hc : f.Cached d (d.mountedFs start)) {x : ℕ} :
    (x < f.inode.iSize ∧ f.Loads d (d.mountedFs start) alloc x ∧
      readByte d (d.mountedFs start) f.inode x = d.fileByte start f.inode x) ↔
    f.ReadsRight d (d.mountedFs start) start alloc x := by
  have hfs := h.proper
  have hsize : (d.mountedFs start).blockSize = (d.superblock start).blockSize :=
    h.superblock.blockSize_ofSuperblock start
  rw [File.ReadsRight]
  refine and_congr_right fun hx => ?_
  have hlt : x < 2 ^ 32 := hx.trans hinode.size_lt
  have hright : ∀ room, readInodeBlock d (d.mountedFs start) f.inode
      (x / (d.mountedFs start).blockSize) room = some (d.blockContent start
        (d.filePointer start f.inode (x / (d.mountedFs start).blockSize))) →
      readByte d (d.mountedFs start) f.inode x = d.fileByte start f.inode x := by
    intro room hread
    rw [readByte, readInodeBlock_room hread, h.fileByte_eq, getD_some, hsize]
  by_cases hdirect : x / (d.mountedFs start).blockSize < 12
  · have hread := h.readInodeBlock_direct hinode hdirect
      (alloc (x / (d.mountedFs start).blockSize))
    exact iff_of_true ⟨.inr (by rw [hread]; rfl), hright _ hread⟩ ⟨by omega, fun h => by omega⟩
  by_cases hfar : x / (d.mountedFs start).blockSize < 12 + 256
  swap
  · exact iff_of_false (fun h => not_loads hfs hc (by omega) hlt h.1) fun h => hfar h.1
  have hge : 12 ≤ x / (d.mountedFs start).blockSize := by omega
  rw [loads_iff hfs hc hlt hge]
  simp only [hfar, hge, true_and, forall_const, and_assoc]
  refine and_congr_right fun _ => ?_
  by_cases hblock : f.inode.iBlock 12 = 0
  · have hzero : d.fileByte start f.inode x = 0 := by
      rw [hsize] at hge hfar
      rw [Disk.fileByte, h.filePointer_indirect hge hfar, Disk.pointerAt, if_pos hblock]
      rfl
    rw [hzero, readByte, h.readInodeBlock_hole hinode hge hfar hblock, Disk.HoleReads]
    simp only [hblock, forall_const]
    by_cases hz : d.zeroPointer start (x / (d.mountedFs start).blockSize) = 0
    · rw [if_pos hz]
      refine iff_of_true ⟨rfl, ?_⟩ (.inl hz)
      rw [getD_some, getD_eq_getElem?_getD, getElem?_replicate]
      split_ifs <;> rfl
    · rw [if_neg hz]
      cases hread : readBlock d (d.mountedFs start)
        (d.zeroPointer start (x / (d.mountedFs start).blockSize)) <;> simp [hz]
  · have hread := h.readInodeBlock_indirect hinode hge hfar hblock
    exact iff_of_true ⟨by rw [hread]; rfl, hright _ hread⟩ fun h => absurd h hblock

lemma cached_of_run (hfs : fs.Proper) {buffer : List U8} {ops : List FileOp}
    (hsize : inode.iSize < 2 ^ 32)
    (hrun : run (File.step d fs) (.opened inode buffer) ops = some f) :
    f.Cached d fs ∧ f.inode = inode := by
  refine run_invariant (P := fun f => f.Cached d fs ∧ f.inode = inode) (fun {f op g} hI hs => ?_)
    ⟨⟨show 0 < 2 ^ 32 by decide, hsize, .inl rfl⟩, rfl⟩ hrun
  cases op with
  | seek offset =>
    obtain rfl := some.inj hs
    exact ⟨⟨mod_lt _ (by decide), hI.1.size_lt, hI.1.block⟩, hI.2⟩
  | read alloc size =>
    obtain ⟨result, hr, rfl⟩ := map_eq_some_iff.mp hs
    by_cases hmounted : fs.mounted = true
    · obtain ⟨m, result', hr', hm⟩ := readFile_spec alloc size hfs hmounted hI.1
      obtain rfl := some.inj (hr.symm.trans hr')
      exact ⟨hm.cached, hm.inode_eq.trans hI.2⟩
    · rw [readFile, if_pos (by simpa using hmounted)] at hr
      exact absurd hr (by simp)

/-- **`ext2_read` returns the slice of the file exactly if every byte of it is one it reads right**,
on a mounted valid image, after any seeks and reads. -/
theorem file_read_iff {d : Disk} {start : ℕ} {fs : Fs} {r : Bool} {inode : Inode}
    {buffer : List U8} {ops : List FileOp} {f : File} (h : d.Valid start)
    (hmount : mount d start r = some fs) (hinode : inode.Valid d start)
    (hrun : run (File.step d fs) (.opened inode buffer) ops = some f)
    (alloc : ℕ → Bool) (size : ℕ) :
    (∃ g, readFile d fs alloc f size = some (d.slice start inode f.offset size, g)) ↔
      ∀ x, f.offset ≤ x → x < min (f.offset + size) (d.fileSize start inode) →
        f.ReadsRight d fs start alloc x := by
  have hfs : fs = d.mountedFs start := by
    rw [h.mount_eq] at hmount
    split_ifs at hmount
    exact (some.inj hmount).symm
  subst hfs
  obtain ⟨hc, rfl⟩ := cached_of_run h.proper hinode.size_lt hrun
  have hle : f.inode.iSize ≤ d.fileSize start f.inode := by
    rw [Disk.fileSize]
    split_ifs <;> omega
  rw [Disk.slice, readFile_eq_iff h.proper rfl hc (min_le_left _ _) (min_le_min le_rfl hle)]
  exact forall_congr' fun x => imp_congr_right fun _ => imp_congr_right fun _ =>
    h.readsRight_iff hinode hc

/-! ## Files -/

/-- A regular file with block 3 as its first block and holes behind. -/
def sampleInode (size : ℕ) : Inode := ⟨0x81A4, size, fun i => if i = 0 then 3 else 0, 0⟩

lemma valid_sampleInode {size : ℕ} (hsize : size < 2 ^ 32)
    (hblocks : 3 < (d.superblock start).sBlocksCount) : (sampleInode size).Valid d start := by
  have hblock : ∀ i, (sampleInode size).iBlock i < (d.superblock start).sBlocksCount := by
    intro i
    simp only [sampleInode]
    split_ifs <;> omega
  refine ⟨hsize, hblock, fun i _ => ?_⟩
  have hhole : ∀ j, d.pointerAt start 0 j = 0 := fun j => if_pos rfl
  have hzero : ∀ i : Fin 15, i ≠ 0 → (sampleInode size).iBlock i = 0 := fun i hi => if_neg hi
  rw [Disk.filePointer]
  split_ifs
  · exact hblock _
  all_goals
    simp only [hzero 12 (by decide), hzero 13 (by decide), hzero 14 (by decide), hhole]
    omega

/-- The first bytes of a small file are read. -/
theorem small_file_read :
    ∃ g, readFile (sampleDisk 0 7) ((sampleDisk 0 7).mountedFs 0) (fun _ => false)
      (.opened (sampleInode 6) []) 8 = some ((sampleDisk 0 7).slice 0 (sampleInode 6) 0 8, g) := by
  have hvalid : (sampleDisk 0 7).Valid 0 := valid_sampleDisk (by decide) (by decide) (by decide)
  refine (file_read_iff hvalid (hvalid.mount_eq true)
    (valid_sampleInode (by decide) (by decide +kernel)) run_nil (fun _ => false) 8).mpr ?_
  intro x hx hlt
  have hsix : x < 6 := lt_of_lt_of_le hlt (le_trans (min_le_right _ _) (by decide +kernel))
  have hblock : x / ((sampleDisk 0 7).mountedFs 0).blockSize = 0 := by
    have hsize : ((sampleDisk 0 7).mountedFs 0).blockSize = 1024 := by decide +kernel
    rw [hsize]
    omega
  exact ⟨hsix, by omega, fun h => by omega⟩

/-- **Holes and long files.**  Behind a pointer block that is a hole, the byte is read from the
block that the boot block happens to name; and nothing is read behind the first 268 blocks. -/
theorem hole_and_end_misread :
    (sampleDisk 0 7).Valid 0 ∧ (sampleInode (13 * 1024)).Valid (sampleDisk 0 7) 0 ∧
    (sampleInode (269 * 1024)).Valid (sampleDisk 0 7) 0 ∧
    mount (sampleDisk 0 7) 0 true = some ((sampleDisk 0 7).mountedFs 0) ∧
    ((readFile (sampleDisk 0 7) ((sampleDisk 0 7).mountedFs 0) (fun _ => true)
        ⟨sampleInode (13 * 1024), 12 * 1024, [], noBlock⟩ 1).map Prod.fst = some [0xED] ∧
      (sampleDisk 0 7).slice 0 (sampleInode (13 * 1024)) (12 * 1024) 1 = [0]) ∧
    (readFile (sampleDisk 0 7) ((sampleDisk 0 7).mountedFs 0) (fun _ => true)
        ⟨sampleInode (269 * 1024), 268 * 1024, [], noBlock⟩ 1).map Prod.fst = some [] ∧
      (sampleDisk 0 7).slice 0 (sampleInode (269 * 1024)) (268 * 1024) 1 = [0] := by
  have hvalid : (sampleDisk 0 7).Valid 0 := valid_sampleDisk (by decide) (by decide) (by decide)
  refine ⟨hvalid, valid_sampleInode (by decide) (by decide +kernel),
    valid_sampleInode (by decide) (by decide +kernel), hvalid.mount_eq true, ?_⟩
  decide +kernel

end OpenHobbyOS.Ext2
