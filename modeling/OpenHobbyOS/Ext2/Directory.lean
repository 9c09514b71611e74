/-
# Directories

`ext2_dir_lookup` goes through the blocks of a directory, `ext2_readdir` through the whole of it by
an offset.  Both read a block into a buffer on the heap and take the records from there; what a
record says to lie behind the block is read from the heap.
-/
import OpenHobbyOS.Ext2.Files
import OpenHobbyOS.Lib.Fetch

namespace OpenHobbyOS.Ext2

open Lib List Option Nat

/-! ## The source -/

/-- `EXT2_NAME_LEN`. -/
def ext2NameLen : ℕ := 255

/-- `struct ext2_dir_entry`, with as much of the name as is copied. -/
structure DirEntry where
  inode : ℕ
  recLen : ℕ
  name : List U8
  deriving DecidableEq

/-- The record at an offset of a buffer. -/
def entryAt (buffer : ℕ → U8) (offset : ℕ) : DirEntry where
  inode := le32 buffer offset
  recLen := le16 buffer (offset + 4)
  name := window buffer (offset + 8) (min (buffer (offset + 6)).toNat ext2NameLen)

/-- The C string at the start of an array. -/
def cString (bytes : List U8) : List U8 := bytes.takeWhile (· ≠ 0)

/-- The memory for a directory's inode and buffer and for pointer blocks, and the bytes behind the
buffer when a block is read. -/
structure Heap where
  inode : Bool
  buffer : Bool
  pointers : ℕ → Bool
  behind : ℕ → ℕ → U8

/-- A block in the buffer, and what lies behind. -/
def Heap.withBlock (h : Heap) (blockIdx : ℕ) (block : List U8) (i : ℕ) : U8 :=
  block.getD i (h.behind blockIdx i)

/-- The number of blocks of a directory. -/
def numBlocks (fs : Fs) (inode : Inode) : ℕ :=
  wrap32 (inode.iSize + fs.blockSize - 1) / fs.blockSize

/-- The loop of `ext2_dir_lookup` over the records of a block, with fuel. -/
def lookupBlock (buffer : ℕ → U8) (blockSize : ℕ) (name : List U8) : ℕ → ℕ → Option (Option ℕ)
  | 0, _ => none
  | fuel + 1, offset =>
    if blockSize ≤ offset then some none else
    let entry := entryAt buffer offset
    let next := wrap32 (offset + entry.recLen)
    if entry.inode = 0 then lookupBlock buffer blockSize name fuel next else
    if cString entry.name = cString name then some (some entry.inode) else
    if entry.recLen = 0 then some none else lookupBlock buffer blockSize name fuel next

/-- The loop over the blocks.  A block that cannot be read is passed over. -/
def lookupBlocks (d : Disk) (fs : Fs) (h : Heap) (inode : Inode) (name : List U8) (fuel : ℕ) :
    List ℕ → Option ℕ
  | [] => some 0
  | i :: is =>
    match readInodeBlock d fs inode i (h.pointers i) with
    | none => lookupBlocks d fs h inode name fuel is
    | some block =>
      match lookupBlock (h.withBlock i block) fs.blockSize name fuel 0 with
      | none => none
      | some none => lookupBlocks d fs h inode name fuel is
      | some (some result) => some result

/-- `ext2_dir_lookup`. -/
def dirLookup (d : Disk) (fs : Fs) (h : Heap) (inode : Inode) (name : List U8) (fuel : ℕ) :
    Option ℕ :=
  if ¬h.buffer then some 0
  else lookupBlocks d fs h inode name fuel (List.range (numBlocks fs inode))

/-- `ext2_is_dir`. -/
def Inode.isDir (inode : Inode) : Bool := inode.iMode &&& 0xF000 = 0x4000

/-- `ext2_opendir`, with whatever is in the buffer. -/
def openDir (d : Disk) (fs : Fs) (h : Heap) (inodeNum : ℕ) (buffer : List U8) : Option File :=
  (readInode d fs inodeNum h.inode).bind fun bytes =>
    if ¬(Inode.decode bytes).isDir then none
    else if h.buffer then some (.opened (.decode bytes) buffer) else none

/-- A round of `ext2_readdir`: nothing when it returns false, or the entry, if the record is not
deleted, and the directory afterwards. -/
def readdirStep (d : Disk) (fs : Fs) (h : Heap) (f : File) : Option (Option DirEntry × File) :=
  if ¬fs.mounted ∨ f.inode.iSize ≤ f.offset then none else
  let blockIdx := f.offset / fs.blockSize
  let blockOffset := f.offset % fs.blockSize
  if numBlocks fs f.inode ≤ blockIdx then none else
  (f.load d fs blockIdx (h.pointers blockIdx)).bind fun f =>
    let entry := entryAt (h.withBlock blockIdx f.blockBuffer) blockOffset
    let next := { f with offset := wrap32 (f.offset + entry.recLen) }
    if entry.inode ≠ 0 then some (some entry, next) else
    if entry.recLen = 0 then none else some (none, next)

/-- The entries that `ext2_readdir` returns, called until it returns false. -/
def listing (d : Disk) (fs : Fs) (h : Heap) : ℕ → File → Option (List DirEntry) :=
  fetchAll (readdirStep d fs h)

/-! ## Records that tile a block -/

/-- From an offset on records follow each other to the end of the block; the entries are those not
deleted. -/
inductive Tiles (block : List U8) : ℕ → List DirEntry → Prop
  | done : Tiles block block.length []
  | deleted {offset : ℕ} {es : List DirEntry} (hheader : offset + 8 ≤ block.length)
      (hinode : (entryAt (block.getD · 0) offset).inode = 0)
      (hlen : (entryAt (block.getD · 0) offset).recLen ≠ 0)
      (rest : Tiles block (offset + (entryAt (block.getD · 0) offset).recLen) es) :
      Tiles block offset es
  | entry {offset : ℕ} {es : List DirEntry}
      (hname : offset + 8 + (entryAt (block.getD · 0) offset).name.length ≤ block.length)
      (hinode : (entryAt (block.getD · 0) offset).inode ≠ 0)
      (hlen : (entryAt (block.getD · 0) offset).recLen ≠ 0)
      (rest : Tiles block (offset + (entryAt (block.getD · 0) offset).recLen) es) :
      Tiles block offset (entryAt (block.getD · 0) offset :: es)

/-- The directory is whole blocks, each can be read with each of the heaps, and is tiled. -/
structure Inode.Tiled (d : Disk) (fs : Fs) (inode : Inode) (heaps : List Heap) : Prop where
  multiple : fs.blockSize ∣ inode.iSize
  blocks : ∀ i < inode.iSize / fs.blockSize, ∃ block es,
    (∀ h ∈ heaps, readInodeBlock d fs inode i (h.pointers i) = some block) ∧ Tiles block 0 es

variable {d : Disk} {fs : Fs} {h : Heap} {block : List U8} {blockIdx offset : ℕ}
  {es : List DirEntry} {name : List U8}

lemma Tiles.le (ht : Tiles block offset es) : offset ≤ block.length := by
  cases ht with
  | done => exact le_rfl
  | deleted hheader => omega
  | entry hname => omega

lemma withBlock_of_lt {i : ℕ} (hi : i < block.length) :
    h.withBlock blockIdx block i = block.getD i 0 := by
  rw [Heap.withBlock, getD_eq_getElem _ _ hi, getD_eq_getElem _ _ hi]

lemma entryAt_header (hheader : offset + 8 ≤ block.length) :
    (entryAt (h.withBlock blockIdx block) offset).inode = (entryAt (block.getD · 0) offset).inode ∧
    (entryAt (h.withBlock blockIdx block) offset).recLen =
      (entryAt (block.getD · 0) offset).recLen ∧
    h.withBlock blockIdx block (offset + 6) = block.getD (offset + 6) 0 := by
  have hsame : ∀ i < 8, h.withBlock blockIdx block (offset + i) = block.getD (offset + i) 0 :=
    fun i hi => withBlock_of_lt (by omega)
  refine ⟨?_, ?_, hsame 6 (by decide)⟩
  · exact le32_congr fun i hi => hsame i (by omega)
  · show le16 (h.withBlock blockIdx block) (offset + 4) = le16 (block.getD · 0) (offset + 4)
    rw [le16, le16, add_assoc, hsame 4 (by decide), hsame 5 (by decide)]

lemma entryAt_eq
    (hname : offset + 8 + (entryAt (block.getD · 0) offset).name.length ≤ block.length) :
    entryAt (h.withBlock blockIdx block) offset = entryAt (block.getD · 0) offset := by
  obtain ⟨hinode, hlen, hn⟩ := @entryAt_header h block blockIdx offset (by omega)
  rw [DirEntry.mk.injEq]
  refine ⟨hinode, hlen, ?_⟩
  show window (h.withBlock blockIdx block) (offset + 8)
    (min (h.withBlock blockIdx block (offset + 6)).toNat ext2NameLen) = _
  rw [hn]
  refine window_eq_iff.mpr fun i hi => withBlock_of_lt ?_
  have hlength : (entryAt (block.getD · 0) offset).name.length =
      min (block.getD (offset + 6) 0).toNat ext2NameLen := length_window
  omega

/-! ## Looking up a name -/

/-- The inode of the first entry with a name. -/
def firstNamed (name : List U8) (es : List DirEntry) : Option ℕ :=
  (es.find? fun e => cString e.name = cString name).map (·.inode)

lemma lookupBlock_tiles (ht : Tiles block offset es) (hlt : block.length < 2 ^ 32) {fuel : ℕ}
    (hfuel : block.length < offset + fuel) :
    lookupBlock (h.withBlock blockIdx block) block.length name fuel offset =
      some (firstNamed name es) := by
  induction ht generalizing fuel with
  | done =>
    obtain ⟨k, rfl⟩ : ∃ k, fuel = k + 1 := ⟨fuel - 1, by omega⟩
    exact if_pos le_rfl
  | @deleted offset es hheader hinode hlen rest ih =>
    obtain ⟨k, rfl⟩ : ∃ k, fuel = k + 1 := ⟨fuel - 1, by omega⟩
    obtain ⟨hi, hr, -⟩ := @entryAt_header h block blockIdx offset hheader
    have hle := rest.le
    rw [lookupBlock, if_neg (by omega)]
    dsimp only
    rw [hi, hr, if_pos hinode, wrap32_of_lt (by omega)]
    exact ih (by omega)
  | @entry offset es hname hinode hlen rest ih =>
    obtain ⟨k, rfl⟩ : ∃ k, fuel = k + 1 := ⟨fuel - 1, by omega⟩
    have hle := rest.le
    rw [lookupBlock, if_neg (by omega)]
    dsimp only
    rw [entryAt_eq hname, if_neg hinode, firstNamed, find?_cons]
    by_cases hfound : cString (entryAt (block.getD · 0) offset).name = cString name
    · rw [if_pos hfound, decide_eq_true hfound]
      rfl
    · rw [if_neg hfound, decide_eq_false hfound, if_neg hlen, wrap32_of_lt (by omega)]
      exact ih (by omega)

lemma firstNamed_append (name : List U8) (es es' : List DirEntry) :
    firstNamed name (es ++ es') = (firstNamed name es).or (firstNamed name es') := by
  rw [firstNamed, find?_append, map_or]
  rfl

variable {inode : Inode} {entries : ℕ → List DirEntry}

lemma lookupBlocks_tiles {is : List ℕ} (hlt : fs.blockSize < 2 ^ 32)
    (hblocks : ∀ i ∈ is, ∃ block, readInodeBlock d fs inode i (h.pointers i) = some block ∧
      block.length = fs.blockSize ∧ Tiles block 0 (entries i)) {fuel : ℕ}
    (hfuel : fs.blockSize < fuel) :
    lookupBlocks d fs h inode name fuel is =
      some ((firstNamed name (is.flatMap entries)).getD 0) := by
  induction is with
  | nil => rfl
  | cons i is ih =>
    obtain ⟨hfirst, hrest⟩ := forall_mem_cons.mp hblocks
    obtain ⟨block, hread, hlen, ht⟩ := hfirst
    have hblock := @lookupBlock_tiles h block i 0 (entries i) name ht (by omega) fuel (by omega)
    rw [hlen] at hblock
    rw [lookupBlocks, hread, flatMap_cons, firstNamed_append]
    dsimp only
    rw [hblock]
    cases firstNamed name (entries i) with
    | none => exact ih hrest
    | some result => rfl

/-! ## Listing -/

/-- The buffer of a directory holds the block that it says. -/
structure File.Keeps (d : Disk) (fs : Fs) (h : Heap) (inode : Inode) (f : File) : Prop where
  inode_eq : f.inode = inode
  block : f.currentBlock = noBlock ∨
    readInodeBlock d fs inode f.currentBlock (h.pointers f.currentBlock) = some f.blockBuffer

variable {f : File}

lemma load_holds (hf : f.Keeps d fs h inode) {i : ℕ} (hi : i < noBlock) :
    f.load d fs i (h.pointers i) = (readInodeBlock d fs inode i (h.pointers i)).map fun block =>
      { f with blockBuffer := block, currentBlock := i } := by
  rw [File.load, hf.inode_eq]
  split_ifs with hcur
  · subst hcur
    rw [hf.block.resolve_left hi.ne, map_some, ← hf.inode_eq]
  · rfl

/-- The block and the record at an offset of a directory. -/
def recordAt (d : Disk) (fs : Fs) (h : Heap) (inode : Inode) (offset : ℕ) :
    Option (List U8 × DirEntry) :=
  if ¬fs.mounted ∨ inode.iSize ≤ offset ∨ numBlocks fs inode ≤ offset / fs.blockSize then none else
  (readInodeBlock d fs inode (offset / fs.blockSize) (h.pointers (offset / fs.blockSize))).map
    fun block =>
      (block, entryAt (h.withBlock (offset / fs.blockSize) block) (offset % fs.blockSize))

/-- What comes after a record. -/
def File.after (fs : Fs) (f : File) (record : List U8 × DirEntry) :
    Option (Option DirEntry × File) :=
  let next := { f with
    offset := wrap32 (f.offset + record.2.recLen)
    blockBuffer := record.1
    currentBlock := f.offset / fs.blockSize }
  if record.2.inode ≠ 0 then some (some record.2, next) else
  if record.2.recLen = 0 then none else some (none, next)

/-- **A round of `ext2_readdir`** depends on the offset only. -/
lemma readdirStep_eq (hf : f.Keeps d fs h inode) (hoffset : f.offset / fs.blockSize < noBlock) :
    readdirStep d fs h f = (recordAt d fs h inode f.offset).bind (f.after fs) := by
  rw [readdirStep, recordAt, hf.inode_eq]
  by_cases hend : ¬fs.mounted ∨ inode.iSize ≤ f.offset
  · rw [if_pos hend, if_pos (by tauto), bind_none]
  · rw [if_neg hend]
    dsimp only
    by_cases hblocks : numBlocks fs inode ≤ f.offset / fs.blockSize
    · rw [if_pos hblocks, if_pos (by tauto), bind_none]
    · rw [if_neg hblocks, if_neg (by tauto), load_holds hf hoffset]
      cases readInodeBlock d fs inode (f.offset / fs.blockSize)
        (h.pointers (f.offset / fs.blockSize)) with
      | none => rfl
      | some block => rfl

lemma keeps_after {record : List U8 × DirEntry} {e : Option DirEntry} {g : File}
    (hf : f.Keeps d fs h inode) (hrecord : recordAt d fs h inode f.offset = some record)
    (hg : f.after fs record = some (e, g)) :
    g.Keeps d fs h inode ∧ g.offset = wrap32 (f.offset + record.2.recLen) := by
  rw [recordAt] at hrecord
  split_ifs at hrecord with hend
  obtain ⟨block, hblock, rfl⟩ := map_eq_some_iff.mp hrecord
  rw [File.after] at hg
  dsimp only at hg
  split_ifs at hg
  all_goals
    rw [some.injEq, Prod.mk.injEq] at hg
    obtain ⟨-, rfl⟩ := hg
    exact ⟨⟨hf.inode_eq, .inr hblock⟩, rfl⟩

lemma yields_block {i : ℕ} {rest : List DirEntry} (hmounted : fs.mounted = true)
    (hi : (i + 1) * fs.blockSize ≤ inode.iSize) (hsize : inode.iSize < 2 ^ 32)
    (hnum : i < numBlocks fs inode) (hsmall : i < noBlock)
    (hread : readInodeBlock d fs inode i (h.pointers i) = some block)
    (hlen : block.length = fs.blockSize)
    (hrest : ∀ g : File, g.Keeps d fs h inode → g.offset = (i + 1) * fs.blockSize →
      Yields (readdirStep d fs h) g rest)
    (ht : Tiles block offset es) (hf : f.Keeps d fs h inode)
    (hoffset : f.offset = i * fs.blockSize + offset) :
    Yields (readdirStep d fs h) f (es ++ rest) := by
  have hmul : (i + 1) * fs.blockSize = i * fs.blockSize + fs.blockSize := succ_mul ..
  -- a round at an offset inside the block
  have hround : ∀ {o : ℕ} {f : File}, o < fs.blockSize → f.Keeps d fs h inode →
      f.offset = i * fs.blockSize + o →
      recordAt d fs h inode f.offset = some (block, entryAt (h.withBlock i block) o) ∧
      readdirStep d fs h f = f.after fs (block, entryAt (h.withBlock i block) o) := by
    intro o f ho hf hoffset
    have hdiv : f.offset / fs.blockSize = i := by
      rw [hoffset, mul_comm, mul_add_div (by omega), div_eq_of_lt ho, add_zero]
    have hmod : f.offset % fs.blockSize = o := by
      rw [hoffset, mul_comm, mul_add_mod, mod_eq_of_lt ho]
    have hrecord : recordAt d fs h inode f.offset =
        some (block, entryAt (h.withBlock i block) o) := by
      have hgo : ¬(¬fs.mounted = true ∨ inode.iSize ≤ f.offset ∨ numBlocks fs inode ≤ i) := by
        rintro (hno | hno | hno)
        · exact hno hmounted
        · omega
        · omega
      rw [recordAt, hdiv, hmod, if_neg hgo, hread, map_some]
    refine ⟨hrecord, ?_⟩
    rw [readdirStep_eq hf (by omega), hrecord, bind_some]
  induction ht generalizing f with
  | done => exact hrest f hf (by omega)
  | @deleted o es hheader hinode hlen' tail ih =>
    obtain ⟨hrecord, hstep⟩ := hround (by omega) hf hoffset
    obtain ⟨hi', hr, -⟩ := @entryAt_header h block i o hheader
    have hle := tail.le
    have hafter := hstep
    rw [File.after, if_neg (not_not.mpr (hi'.trans hinode)), if_neg (hr.symm ▸ hlen')] at hafter
    obtain ⟨hg, hgo⟩ := keeps_after hf hrecord (hstep.symm.trans hafter)
    refine .pass hafter (ih hg ?_)
    rw [hgo, hr, wrap32_of_lt (by omega)]
    omega
  | @entry o es hname hinode hlen' tail ih =>
    obtain ⟨hrecord, hstep⟩ := hround (by omega) hf hoffset
    have hle := tail.le
    rw [entryAt_eq hname] at hrecord hstep
    have hafter := hstep
    rw [File.after, if_pos hinode] at hafter
    obtain ⟨hg, hgo⟩ := keeps_after hf hrecord (hstep.symm.trans hafter)
    have hwrap : wrap32 (f.offset + (entryAt (block.getD · 0) o).recLen) =
        f.offset + (entryAt (block.getD · 0) o).recLen := wrap32_of_lt (by omega)
    refine .give hafter (ih hg ?_)
    rw [hgo]
    exact hwrap.trans (by omega)

lemma yields_blocks {n : ℕ} (hmounted : fs.mounted = true)
    (hblocks : ∀ i < n, ∃ block, readInodeBlock d fs inode i (h.pointers i) = some block ∧
      block.length = fs.blockSize ∧ Tiles block 0 (entries i))
    (hn : inode.iSize = n * fs.blockSize) (hsize : inode.iSize < 2 ^ 32)
    (hnum : numBlocks fs inode = n) (hsmall : n < noBlock) {i : ℕ} (hi : i ≤ n)
    (hf : f.Keeps d fs h inode) (hoffset : f.offset = i * fs.blockSize) :
    Yields (readdirStep d fs h) f ((List.range' i (n - i)).flatMap entries) := by
  -- on the number of blocks that are left
  induction hk : n - i generalizing i f with
  | zero =>
    obtain rfl : i = n := by omega
    refine .stop ?_
    rw [readdirStep, hf.inode_eq, if_pos (.inr (by omega))]
  | succ k ih =>
    obtain ⟨block, hread, hlen, ht⟩ := hblocks i (by omega)
    rw [range'_succ, flatMap_cons]
    refine yields_block hmounted ?_ hsize (by omega) (by omega) hread hlen
      (fun g hg hgo => ih (by omega) hg hgo (by omega)) ht hf hoffset
    rw [hn]
    exact mul_le_mul_right _ (by omega)

/-! ## Lookup and listing -/

/-- On a mounted file system the size of a block is a power of two, and blocks have that size. -/
lemma blockSize_of_mount {start : ℕ} {r : Bool} (hmount : mount d start r = some fs) :
    ∃ k ≤ 21, fs.blockSize = 2 ^ (10 + k) ∧ fs.sectorsPerBlock * sectorSize = fs.blockSize := by
  obtain ⟨-, hpos, hsize, hspb⟩ := mount_some hmount
  generalize hlog : fs.sb.sLogBlockSize % 32 = k at hsize
  have hk : k < 32 := hlog ▸ mod_lt _ (by decide)
  have hle : k ≤ 21 := by
    by_contra hlarge
    refine hpos (hsize.trans ?_)
    interval_cases k <;> rfl
  have hpow := shift_eq hle
  rw [mod_eq_of_lt hk] at hpow
  rw [hpow] at hsize
  refine ⟨k, hle, hsize, ?_⟩
  rw [hspb, hsize]
  exact Nat.div_mul_cancel (Nat.pow_dvd_pow 2 (show 9 ≤ 10 + k by omega))

lemma length_of_mount {i : ℕ} {room : Bool} (hspb : fs.sectorsPerBlock * sectorSize = fs.blockSize)
    (hread : readInodeBlock d fs inode i room = some block) : block.length = fs.blockSize := by
  obtain ⟨p, -, hblock⟩ := bind_eq_some_iff.mp hread
  split_ifs at hblock
  · rw [← some.inj hblock, length_replicate]
  · rw [readBlock, Disk.read] at hblock
    split_ifs at hblock
    rw [← some.inj hblock, length_window, hspb]

lemma numBlocks_of_dvd {k : ℕ} (hk : k ≤ 21) (hsize : fs.blockSize = 2 ^ (10 + k))
    (hdvd : fs.blockSize ∣ inode.iSize) (hlt : inode.iSize < 2 ^ 32) :
    numBlocks fs inode = inode.iSize / fs.blockSize ∧
      inode.iSize = inode.iSize / fs.blockSize * fs.blockSize := by
  have hpos : 0 < fs.blockSize := hsize ▸ Nat.two_pow_pos _
  obtain ⟨m, hm⟩ := hdvd
  have hall : 2 ^ 32 = fs.blockSize * 2 ^ (22 - k) := by
    rw [hsize, ← pow_add]
    congr 1
    omega
  -- the last multiple below the end of the numbers leaves room for a block
  have hlast : fs.blockSize * (m + 1) ≤ fs.blockSize * 2 ^ (22 - k) := by
    refine Nat.mul_le_mul_left _ (Nat.lt_of_mul_lt_mul_left (a := fs.blockSize) ?_)
    rw [← hm, ← hall]
    exact hlt
  rw [mul_succ, ← hm, ← hall] at hlast
  rw [numBlocks, wrap32_of_lt (by omega), hm, Nat.mul_div_cancel_left _ hpos]
  refine ⟨?_, mul_comm ..⟩
  rw [Nat.add_sub_assoc hpos, Nat.mul_add_div hpos, Nat.div_eq_of_lt (by omega), Nat.add_zero]

lemma Tiles.inode_ne (ht : Tiles block offset es) : ∀ e ∈ es, e.inode ≠ 0 := by
  induction ht with
  | done => exact fun e he => absurd he not_mem_nil
  | deleted _ _ _ _ ih => exact ih
  | entry _ hinode _ _ ih => exact forall_mem_cons.mpr ⟨hinode, ih⟩

lemma firstNamed_eq_zero (hes : ∀ e ∈ es, e.inode ≠ 0) :
    (firstNamed name es).getD 0 = 0 ↔ ∀ e ∈ es, cString e.name ≠ cString name := by
  rw [firstNamed]
  cases hfound : es.find? fun e => cString e.name = cString name with
  | none =>
    refine iff_of_true rfl fun e he => ?_
    simpa using find?_eq_none.mp hfound e he
  | some e =>
    have hname : cString e.name = cString name := by simpa using find?_some hfound
    exact iff_of_false (hes e (mem_of_find?_eq_some hfound)) fun h =>
      h e (mem_of_find?_eq_some hfound) hname

/-- **Lookup and listing.**  For a directory of whole blocks that can all be read and are tiled by
records, both end, and the lookup of a name returns the inode of the first entry listed with it, and
0 exactly if none is. -/
theorem lookup_first_listed {d : Disk} {start : ℕ} {r : Bool} {fs : Fs} {n : ℕ} {buffer : List U8}
    {dir : File} {list find : Heap} (hmount : mount d start r = some fs)
    (hopen : openDir d fs list n buffer = some dir) (hfind : find.buffer = true)
    (htiled : dir.inode.Tiled d fs [list, find]) :
    ∃ entries enough, ∀ fuel ≥ enough, listing d fs list fuel dir = some entries ∧
      ∀ name, dirLookup d fs find dir.inode name fuel = some ((firstNamed name entries).getD 0) ∧
        (dirLookup d fs find dir.inode name fuel = some 0 ↔
          ∀ e ∈ entries, cString e.name ≠ cString name) := by
  obtain ⟨k, hk, hsize, hspb⟩ := blockSize_of_mount hmount
  obtain ⟨hmounted, -⟩ := mount_some hmount
  obtain ⟨bytes, -, hdir⟩ := bind_eq_some_iff.mp hopen
  split_ifs at hdir
  obtain rfl := some.inj hdir
  change (Inode.decode bytes).Tiled d fs [list, find] at htiled
  have hlt : (Inode.decode bytes).iSize < 2 ^ 32 := le32_lt _ _
  have hle : fs.blockSize ≤ 2 ^ 31 := hsize ▸ Nat.pow_le_pow_right (by decide) (by omega)
  have hge : 2 ^ 10 ≤ fs.blockSize := hsize ▸ Nat.pow_le_pow_right (by decide) (by omega)
  obtain ⟨hnum, hmul⟩ := numBlocks_of_dvd hk hsize htiled.multiple hlt
  choose! block es hread ht using htiled.blocks
  have hblocks : ∀ h ∈ [list, find], ∀ i < numBlocks fs (Inode.decode bytes),
      ∃ block, readInodeBlock d fs (.decode bytes) i (h.pointers i) = some block ∧
        block.length = fs.blockSize ∧ Tiles block 0 (es i) := by
    intro h hh i hi
    have hi : i < (Inode.decode bytes).iSize / fs.blockSize := hnum ▸ hi
    have hb := hread i hi h hh
    exact ⟨block i, hb, length_of_mount hspb hb, ht i hi⟩
  have hsmall : numBlocks fs (Inode.decode bytes) < noBlock := by
    have hdiv : (Inode.decode bytes).iSize / fs.blockSize ≤ (Inode.decode bytes).iSize / 2 ^ 10 :=
      div_le_div_left hge (by decide)
    rw [hnum, noBlock]
    omega
  have hkeeps : (File.opened (.decode bytes) buffer).Keeps d fs list (.decode bytes) :=
    ⟨rfl, .inl rfl⟩
  have hyields := yields_blocks hmounted (hblocks list (by simp)) (by rw [hnum]; exact hmul) hlt rfl
    hsmall (zero_le _) hkeeps (zero_mul _).symm
  rw [Nat.sub_zero, ← range_eq_range'] at hyields
  obtain ⟨enough, hlist⟩ := hyields.fetchAll
  refine ⟨_, max enough (fs.blockSize + 1), fun fuel hfuel => ⟨hlist fuel (by omega), ?_⟩⟩
  intro name
  have hlookup : dirLookup d fs find (.decode bytes) name fuel = some ((firstNamed name
      ((range (numBlocks fs (.decode bytes))).flatMap es)).getD 0) := by
    rw [dirLookup, if_neg (not_not.mpr hfind)]
    exact lookupBlocks_tiles (by omega) (fun i hi => hblocks find (by simp) i (mem_range.mp hi))
      (by omega)
  refine ⟨hlookup, ?_⟩
  show dirLookup d fs find (.decode bytes) name fuel = some 0 ↔ _
  rw [hlookup, some.injEq]
  refine firstNamed_eq_zero fun e he => ?_
  obtain ⟨i, hi, he⟩ := mem_flatMap.mp he
  exact (ht i (hnum ▸ mem_range.mp hi)).inode_ne e he

/-- An image with fields stored in it and the records of inodes from 3072 on. -/
def dirDisk (fields : List (ℕ × ℕ)) : Disk :=
  { sampleDisk 0 7 with
    byte := ((3200, 0x41ED) :: fields).foldl (fun byte field => poke byte field.1 field.2)
      (sampleDisk 0 7).byte }

/-- A root directory of one block with one entry. -/
def oneEntry : Disk :=
  dirDisk [(3204, 1024), (3240, 5), (5120, 11), (5124, 1024 + 2 ^ 16 + 2 * 2 ^ 24), (5128, 0x61)]

/-- A heap with memory, and zeros behind the buffer. -/
def roomyHeap : Heap := ⟨true, true, fun _ => true, fun _ _ => 0⟩

theorem lookup_one_entry :
    ∃ fs dir, mount oneEntry 0 true = some fs ∧ openDir oneEntry fs roomyHeap 2 [] = some dir ∧
      dir.inode.Tiled oneEntry fs [roomyHeap, roomyHeap] ∧
      ∃ entries enough, ∀ fuel ≥ enough, listing oneEntry fs roomyHeap fuel dir = some entries ∧
        ∀ name, dirLookup oneEntry fs roomyHeap dir.inode name fuel =
            some ((firstNamed name entries).getD 0) ∧
          (dirLookup oneEntry fs roomyHeap dir.inode name fuel = some 0 ↔
            ∀ e ∈ entries, cString e.name ≠ cString name) := by
  have hsome : ((mount oneEntry 0 true).bind fun fs =>
      (openDir oneEntry fs roomyHeap 2 []).map fun dir => (fs.blockSize, dir.inode.iSize,
        (readInodeBlock oneEntry fs dir.inode 0 true).map fun block =>
          (block.length, entryAt (block.getD · 0) 0))) =
      some (1024, 1024, some (1024, ⟨11, 1024, [0x61]⟩)) := by
    decide +kernel
  obtain ⟨fs, hmount, hsome⟩ := bind_eq_some_iff.mp hsome
  obtain ⟨dir, hopen, heq⟩ := map_eq_some_iff.mp hsome
  rw [Prod.mk.injEq, Prod.mk.injEq] at heq
  obtain ⟨hsize, hisize, hblock⟩ := heq
  obtain ⟨block, hread, heq⟩ := map_eq_some_iff.mp hblock
  rw [Prod.mk.injEq] at heq
  obtain ⟨hlen, hentry⟩ := heq
  have htiles : Tiles block 0 [entryAt (block.getD · 0) 0] := by
    have hend : 0 + (entryAt (block.getD · 0) 0).recLen = block.length := by
      rw [hentry, hlen]
      rfl
    refine .entry ?_ ?_ ?_ (hend ▸ .done)
    all_goals
      simp only [hentry, hlen]
      decide
  have htiled : dir.inode.Tiled oneEntry fs [roomyHeap, roomyHeap] := by
    refine ⟨by rw [hsize, hisize], fun i hi => ⟨block, _, fun h hh => ?_, htiles⟩⟩
    rw [hsize, hisize] at hi
    obtain rfl : i = 0 := by omega
    obtain rfl : h = roomyHeap := by simpa using hh
    exact hread
  exact ⟨fs, dir, hmount, hopen, htiled, lookup_first_listed hmount hopen rfl htiled⟩

end OpenHobbyOS.Ext2
