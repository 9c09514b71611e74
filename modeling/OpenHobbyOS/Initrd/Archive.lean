/-
# The initial ramdisk

`tools/mkramdisk.py` writes an archive, `initrd_init` reads it from the memory the boot loader put
it in.  The two meet at `recordsFrom`, the records as a function of the files.
-/
import OpenHobbyOS.Lib.Bytes
import OpenHobbyOS.Paging.Entry

namespace OpenHobbyOS.Initrd

open BitVec hiding not_not not_or replicate_succ
open Lib Option List Nat

variable {src : Source} {specs : List Source} {cursor i : ℕ} {moduleSize : U32}

/-! ## The writer -/

/-- A file for the archive: its path there, encoded, and its contents. -/
structure Source where
  dest : List U8
  blob : List U8
  deriving DecidableEq

/-- `MAGIC`: `OHOSRD1` and a zero byte. -/
def magic : List U8 := [0x4f, 0x48, 0x4f, 0x53, 0x52, 0x44, 0x31, 0x00]

/-- `HEADER_STRUCT.size`, and the size of `initrd_header_t`. -/
def headerSize : ℕ := 20

/-- `ENTRY_STRUCT.size`, and the size of `initrd_entry_t`. -/
def entrySize : ℕ := 76

/-- A field `I`: a number that does not fit is refused. -/
def packU32 (n : ℕ) : Option (List U8) := if n < 2 ^ 32 then some (le32Bytes n) else none

/-- The field for the path. -/
def packPath (data : List U8) : Option (List U8) :=
  if 64 ≤ data.length then none else some (data ++ List.replicate (64 - data.length) 0)

/-- A tuple of `entries`. -/
structure Entry where
  name : List U8
  offset : ℕ
  size : ℕ
  flags : ℕ

/-- The loop over the files. -/
def entriesFrom (cursor : ℕ) : List Source → Option (List Entry)
  | [] => some []
  | src :: rest => do
    let name ← packPath src.dest
    let entries ← entriesFrom (cursor + src.blob.length) rest
    return ⟨name, cursor, src.blob.length, 0⟩ :: entries

/-- `HEADER_STRUCT.pack`. -/
def packHeader (version count dataOffset : ℕ) : Option (List U8) := do
  let version ← packU32 version
  let count ← packU32 count
  let dataOffset ← packU32 dataOffset
  return magic ++ version ++ count ++ dataOffset

/-- `ENTRY_STRUCT.pack`. -/
def packEntry (entry : Entry) : Option (List U8) := do
  let offset ← packU32 entry.offset
  let size ← packU32 entry.size
  let flags ← packU32 entry.flags
  return entry.name ++ offset ++ size ++ flags

/-- What `main` writes, or nothing when it ends with an error. -/
def mkramdisk (specs : List Source) : Option (List U8) := do
  let dataOffset := headerSize + entrySize * specs.length
  let entries ← entriesFrom dataOffset specs
  let header ← packHeader 1 entries.length dataOffset
  let records ← entries.mapM packEntry
  return header ++ records.flatten ++ specs.flatMap (·.blob)

/-! ## The reader -/

/-- `multiboot_module_t`. -/
structure MultibootModule where
  modStart : U32
  modEnd : U32

/-- The boot information: its flags and the modules. -/
structure MultibootInfo where
  flags : U32
  mods : List MultibootModule

/-- `MULTIBOOT_FLAG_MODS`. -/
def multibootFlagMods : U32 := 1 <<< 3

/-- `initrd_file_t`: pointers into the archive. -/
structure InitrdFile where
  name : U32
  data : U32
  size : U32
  flags : U32
  index : U32
  deriving DecidableEq

/-- The size of `initrd_file_t`. -/
def fileSize : U32 := 20

/-- The variables of `initrd.c`. -/
structure Ramdisk where
  mounted : Bool
  fileCount : U32
  moduleSize : U32
  files : List InitrdFile
  deriving DecidableEq

/-- The memory from an address on. -/
def bytesAt (mem : U32 → U8) (base : U32) (i : ℕ) : U8 := mem (base + .ofNat 32 i)

/-- The body of the loop over the records. -/
def mountEntry (mem : U32 → U8) (base moduleSize : U32) (i : ℕ) : Except String InitrdFile :=
  let entry := headerSize + entrySize * i
  let offset := .ofNat 32 (le32 (bytesAt mem base) (entry + 64))
  let size := .ofNat 32 (le32 (bytesAt mem base) (entry + 68))
  let flags := .ofNat 32 (le32 (bytesAt mem base) (entry + 72))
  if moduleSize < offset + size then .error "Initrd file escapes archive"
  else .ok ⟨base + .ofNat 32 entry, base + offset, size, flags, .ofNat 32 i⟩

/-- `initrd_init`.  The error is the text of the panic; `kcalloc` says whether the heap has room. -/
def initrdInit (mbi : MultibootInfo) (mem : U32 → U8) (kcalloc : U32 → U32 → Bool) :
    Except String Ramdisk :=
  match mbi.mods with
  | [] => .ok ⟨false, 0, 0, []⟩
  | mod :: _ =>
    if mbi.flags &&& multibootFlagMods = 0 then .ok ⟨false, 0, 0, []⟩ else
    let base := mod.modStart
    let moduleSize := mod.modEnd - mod.modStart
    if moduleSize < .ofNat 32 headerSize then .error "Initrd is too small" else
    let version := le32 (bytesAt mem base) 8
    let count := .ofNat 32 (le32 (bytesAt mem base) 12)
    if window (bytesAt mem base) 0 8 ≠ magic ∨ version ≠ 1 then
      .error "Initrd header is invalid" else
    if moduleSize < .ofNat 32 headerSize + count * .ofNat 32 entrySize then
      .error "Initrd directory is truncated" else
    if count = 0 then .ok ⟨true, 0, moduleSize, []⟩ else
    if ¬kcalloc count fileSize then .error "Out of memory while mounting initrd" else do
    let files ← (List.range count.toNat).mapM (mountEntry mem base moduleSize)
    return ⟨true, count, moduleSize, files⟩

/-! ## What is written -/

/-- The record of a file whose contents start at `cursor`. -/
def record (cursor : ℕ) (src : Source) : List U8 :=
  src.dest ++ List.replicate (64 - src.dest.length) 0 ++ le32Bytes cursor ++
    le32Bytes src.blob.length ++ le32Bytes 0

/-- The records of the files, the first contents at `cursor`. -/
def recordsFrom (cursor : ℕ) : List Source → List U8
  | [] => []
  | src :: rest => record cursor src ++ recordsFrom (cursor + src.blob.length) rest

/-- The length of the contents of all files. -/
def blobSize (specs : List Source) : ℕ := (specs.flatMap (·.blob)).length

lemma blobSize_cons (src : Source) (rest : List Source) :
    blobSize (src :: rest) = src.blob.length + blobSize rest := by
  rw [blobSize, blobSize, flatMap_cons, length_append]

/-- The number of bytes of the archive. -/
def archiveSize (specs : List Source) : ℕ := headerSize + entrySize * specs.length + blobSize specs

/-- A path that fits a record, and is a C string there. -/
def Source.Named (src : Source) : Prop := src.dest.length ≤ 63 ∧ 0 ∉ src.dest

lemma length_record (h : src.Named) (cursor : ℕ) :
    (record cursor src).length = entrySize := by
  have hlen := h.1
  simp only [record, length_append, length_replicate, length_le32Bytes, entrySize]
  omega

lemma packU32_eq {n : ℕ} (h : n < 2 ^ 32) : packU32 n = some (le32Bytes n) := if_pos h

lemma records_eq (hnamed : ∀ src ∈ specs, src.Named) (hsize : cursor + blobSize specs < 2 ^ 32) :
    ∃ entries records, entriesFrom cursor specs = some entries ∧
      entries.length = specs.length ∧ entries.mapM packEntry = some records ∧
      records.flatten = recordsFrom cursor specs := by
  induction specs generalizing cursor with
  | nil => exact ⟨[], [], rfl, rfl, rfl, rfl⟩
  | cons src rest ih =>
    rw [blobSize_cons] at hsize
    obtain ⟨entries, records, hentries, hlen, hpack, hflat⟩ :=
      ih (fun s hs => hnamed s (mem_cons_of_mem _ hs))
        (show cursor + src.blob.length + blobSize rest < 2 ^ 32 by omega)
    have hfits := (hnamed src (mem_cons_self ..)).1
    have hname : packPath src.dest =
        some (src.dest ++ List.replicate (64 - src.dest.length) 0) := if_neg (by omega)
    refine ⟨⟨src.dest ++ List.replicate (64 - src.dest.length) 0, cursor, src.blob.length, 0⟩ ::
      entries, record cursor src :: records, ?_, ?_, ?_, ?_⟩
    · simp only [entriesFrom, hname, hentries, bind_eq_bind, bind_some]
      rfl
    · rw [length_cons, length_cons, hlen]
    · simp only [mapM_cons, packEntry, packU32_eq (show cursor < 2 ^ 32 by omega),
        packU32_eq (show src.blob.length < 2 ^ 32 by omega), packU32_eq (show 0 < 2 ^ 32 by decide),
        hpack, bind_eq_bind, bind_some]
      rfl
    · rw [flatten_cons, hflat, recordsFrom]

/-- The header of the archive. -/
def header (specs : List Source) : List U8 :=
  magic ++ le32Bytes 1 ++ le32Bytes specs.length ++
    le32Bytes (headerSize + entrySize * specs.length)

/-- The archive. -/
def archive (specs : List Source) : List U8 :=
  header specs ++ recordsFrom (headerSize + entrySize * specs.length) specs ++
    specs.flatMap (·.blob)

lemma mkramdisk_eq (hnamed : ∀ src ∈ specs, src.Named) (hsize : archiveSize specs < 2 ^ 32) :
    mkramdisk specs = some (archive specs) := by
  obtain ⟨entries, records, hentries, hlen, hpack, hflat⟩ := records_eq hnamed hsize
  have hcount : headerSize + entrySize * specs.length < 2 ^ 32 := by
    rw [archiveSize] at hsize
    omega
  have hfew : specs.length < 2 ^ 32 := by
    rw [headerSize, entrySize] at hcount
    omega
  simp only [mkramdisk, hentries, packHeader, hlen, packU32_eq hcount, packU32_eq hfew,
    packU32_eq (show 1 < 2 ^ 32 by decide), hpack, bind_eq_bind, bind_some, archive,
    header, ← hflat]
  rfl

lemma length_recordsFrom (hnamed : ∀ src ∈ specs, src.Named) (cursor : ℕ) :
    (recordsFrom cursor specs).length = entrySize * specs.length := by
  induction specs generalizing cursor with
  | nil => rfl
  | cons src rest ih =>
    rw [recordsFrom, length_append, length_record (hnamed src (mem_cons_self ..)),
      ih fun s hs => hnamed s (mem_cons_of_mem _ hs), length_cons, Nat.mul_succ,
      Nat.add_comm]

lemma length_archive (hnamed : ∀ src ∈ specs, src.Named) :
    (archive specs).length = archiveSize specs := by
  rw [archive, length_append, length_append, length_recordsFrom hnamed]
  rfl

/-! ## What is read -/

/-- The C string at an address. -/
def CString (mem : U32 → U8) (p : U32) (s : List U8) : Prop :=
  0 ∉ s ∧ Holds (bytesAt mem p) 0 (s ++ [0])

/-- A file of the ramdisk is a file given to the writer. -/
structure Represents (mem : U32 → U8) (file : InitrdFile) (src : Source) : Prop where
  name : CString mem file.name src.dest
  size : file.size.toNat = src.blob.length
  data : window (bytesAt mem file.data) 0 file.size.toNat = src.blob

lemma bytesAt_add (mem : U32 → U8) (base : U32) (k i : ℕ) :
    bytesAt mem (base + .ofNat 32 k) i = bytesAt mem base (k + i) := by
  rw [bytesAt, bytesAt, ofNat_add, BitVec.add_assoc]

lemma holds_bytesAt_add {mem : U32 → U8} {base : U32} {k : ℕ} {xs : List U8} :
    Holds (bytesAt mem (base + .ofNat 32 k)) 0 xs ↔ Holds (bytesAt mem base) k xs :=
  holds_iff_of_eq fun i => by rw [bytesAt_add, Nat.zero_add]

variable {mem : U32 → U8} {base : U32}

lemma mountEntry_eq (hnamed : src.Named)
    (hrecord : Holds (bytesAt mem base) (headerSize + entrySize * i) (record cursor src))
    (hblob : Holds (bytesAt mem base) cursor src.blob)
    (hsize : cursor + src.blob.length ≤ moduleSize.toNat) :
    ∃ file, mountEntry mem base moduleSize i = .ok file ∧ Represents mem file src := by
  have hlt := moduleSize.isLt
  have hfits := hnamed.1
  simp only [record, holds_append, length_append, length_replicate,
    length_le32Bytes] at hrecord
  obtain ⟨⟨⟨⟨hname, hpad⟩, hoffset⟩, hlength⟩, hflags⟩ := hrecord
  -- the three numbers stand behind the 64 bytes of the name
  have hoffset : le32 (bytesAt mem base) (headerSize + entrySize * i + 64) = cursor :=
    le32_of_holds (by omega) (by convert hoffset using 1; omega)
  have hlength : le32 (bytesAt mem base) (headerSize + entrySize * i + 68) = src.blob.length :=
    le32_of_holds (by omega) (by convert hlength using 1; omega)
  have hnat : ∀ n, n ≤ moduleSize.toNat → (BitVec.ofNat 32 n).toNat = n := fun n hn => by
    rw [toNat_ofNat, mod_eq_of_lt (by omega)]
  have hinside : ¬moduleSize < .ofNat 32 cursor + .ofNat 32 src.blob.length := by
    rw [lt_def, ← ofNat_add, hnat _ hsize]
    omega
  rw [mountEntry, hoffset, hlength, if_neg hinside]
  refine ⟨_, rfl, ⟨hnamed.2, ?_⟩, hnat _ (by omega), ?_⟩
  · -- the path is shorter than its field, so a zero byte of the padding ends it
    refine holds_bytesAt_add.mpr (holds_append.mpr ⟨hname, ?_⟩)
    obtain ⟨k, hk⟩ : ∃ k, 64 - src.dest.length = k + 1 := ⟨63 - src.dest.length, by omega⟩
    rw [hk, replicate_succ, holds_cons] at hpad
    exact holds_cons.mpr ⟨hpad.1, holds_nil _ _⟩
  · show window (bytesAt mem (base + .ofNat 32 cursor)) 0
      (BitVec.ofNat 32 src.blob.length).toNat = src.blob
    rw [hnat _ (by omega)]
    exact holds_bytesAt_add.mpr hblob

lemma mountEntries_eq (hnamed : ∀ src ∈ specs, src.Named)
    (hrecords : Holds (bytesAt mem base) (headerSize + entrySize * i) (recordsFrom cursor specs))
    (hblobs : Holds (bytesAt mem base) cursor (specs.flatMap (·.blob)))
    (hsize : cursor + blobSize specs ≤ moduleSize.toNat) :
    ∃ files, (List.range' i specs.length).mapM (mountEntry mem base moduleSize) = .ok files ∧
      List.Forall₂ (Represents mem) files specs := by
  induction specs generalizing cursor i with
  | nil => exact ⟨[], rfl, List.Forall₂.nil⟩
  | cons src rest ih =>
    have hhead := hnamed src (mem_cons_self ..)
    rw [recordsFrom, holds_append, length_record hhead] at hrecords
    rw [flatMap_cons, holds_append] at hblobs
    rw [blobSize_cons] at hsize
    obtain ⟨file, hfile, hrep⟩ := mountEntry_eq hhead hrecords.1 hblobs.1
      (show cursor + src.blob.length ≤ moduleSize.toNat by omega)
    obtain ⟨files, hfiles, hreps⟩ := ih (fun s hs => hnamed s (mem_cons_of_mem _ hs))
      (show Holds _ (headerSize + entrySize * (i + 1)) _ from hrecords.2) hblobs.2 (by omega)
    refine ⟨file :: files, ?_, List.Forall₂.cons hrep hreps⟩
    rw [length_cons, range'_succ, mapM_cons, hfile, hfiles]
    rfl

/-- **Round trip.**  The archive that `mkramdisk.py` writes is accepted wherever the boot loader
puts it, with the same files in the same order. -/
theorem initrd_round_trip (specs : List Source) (hnamed : ∀ src ∈ specs, src.Named)
    (hsize : archiveSize specs < 2 ^ 32) :
    ∃ bytes, mkramdisk specs = some bytes ∧ bytes.length = archiveSize specs ∧
      ∀ (mbi : MultibootInfo) (mod : MultibootModule) (more : List MultibootModule)
        (mem : U32 → U8) (kcalloc : U32 → U32 → Bool),
        mbi.flags &&& multibootFlagMods ≠ 0 → mbi.mods = mod :: more →
        mod.modEnd = mod.modStart + .ofNat 32 bytes.length →
        Holds (bytesAt mem mod.modStart) 0 bytes →
        kcalloc (BitVec.ofNat 32 specs.length) fileSize →
        ∃ rd, initrdInit mbi mem kcalloc = .ok rd ∧ rd.mounted = true ∧
          rd.fileCount.toNat = specs.length ∧
          List.Forall₂ (Represents mem) rd.files specs := by
  refine ⟨archive specs, mkramdisk_eq hnamed hsize, length_archive hnamed, ?_⟩
  intro mbi mod more mem kcalloc hflags hmods hend hmem hheap
  rw [length_archive hnamed] at hend
  have hmodule : mod.modEnd - mod.modStart = .ofNat 32 (archiveSize specs) := by
    rw [hend, BitVec.add_comm, BitVec.add_sub_cancel]
  have hnat : ∀ n, n ≤ archiveSize specs → (BitVec.ofNat 32 n).toNat = n := fun n hn => by
    rw [toNat_ofNat, mod_eq_of_lt (by omega)]
  have hsum : archiveSize specs = headerSize + entrySize * specs.length + blobSize specs := rfl
  have hcount : specs.length ≤ archiveSize specs := by
    rw [hsum, entrySize]
    omega
  -- the parts of the archive in memory
  rw [archive, header] at hmem
  simp only [holds_append, length_append, length_le32Bytes, length_recordsFrom hnamed,
    Nat.zero_add] at hmem
  obtain ⟨⟨⟨⟨⟨hmagic, hversion⟩, hnumber⟩, -⟩, hrecords⟩, hblobs⟩ := hmem
  have hversion : le32 (bytesAt mem mod.modStart) 8 = 1 := le32_of_holds (by decide) hversion
  have hnumber : le32 (bytesAt mem mod.modStart) 12 = specs.length :=
    le32_of_holds (by omega) hnumber
  obtain ⟨files, hfiles, hreps⟩ := mountEntries_eq hnamed (i := 0) hrecords hblobs
    (show _ ≤ (BitVec.ofNat 32 (archiveSize specs)).toNat by rw [hnat _ le_rfl]; rfl)
  -- no check of the reader fails
  have hlarge : ¬BitVec.ofNat 32 (archiveSize specs) < BitVec.ofNat 32 headerSize := by
    rw [lt_def, hnat _ le_rfl, hnat _ (by omega)]
    omega
  have hheader : ¬(window (bytesAt mem mod.modStart) 0 8 ≠ magic ∨ 1 ≠ 1) := by
    rw [not_or, not_not, not_not]
    exact ⟨hmagic, rfl⟩
  have hdirectory : ¬BitVec.ofNat 32 (archiveSize specs) <
      BitVec.ofNat 32 headerSize + BitVec.ofNat 32 specs.length * BitVec.ofNat 32 entrySize := by
    rw [← ofNat_mul, ← ofNat_add, lt_def, hnat _ le_rfl, Nat.mul_comm,
      hnat _ (by omega)]
    omega
  rw [initrdInit, hmods]
  dsimp only
  rw [if_neg hflags, hmodule, if_neg hlarge, hversion, hnumber, if_neg hheader, if_neg hdirectory,
    if_neg (not_not.mpr hheap), hnat _ hcount]
  split_ifs with hnone
  · have hempty : specs.length = 0 := by rw [← hnat _ hcount, hnone]; rfl
    rw [length_eq_zero_iff] at hempty
    subst hempty
    exact ⟨_, rfl, rfl, rfl, List.Forall₂.nil⟩
  · refine ⟨⟨true, .ofNat 32 specs.length, .ofNat 32 (archiveSize specs), files⟩, ?_,
      rfl, hnat _ hcount, hreps⟩
    rw [range_eq_range', hfiles]
    rfl

/-- Two files, one of them empty. -/
def sampleFiles : List Source := [⟨[0x61], [1, 2, 3]⟩, ⟨[0x2f, 0x62], []⟩]

/-- Their archive in memory at the address 4096. -/
def sampleMemory (p : U32) : U8 := (archive sampleFiles).getD (p - 4096).toNat 0

theorem initrd_round_trip_two :
    (∀ src ∈ sampleFiles, src.Named) ∧ archiveSize sampleFiles < 2 ^ 32 ∧
      ∃ bytes, mkramdisk sampleFiles = some bytes ∧
        ∃ rd, initrdInit ⟨multibootFlagMods, [⟨4096, 4096 + .ofNat 32 bytes.length⟩]⟩
            sampleMemory (fun _ _ => true) = .ok rd ∧
          List.Forall₂ (Represents sampleMemory) rd.files sampleFiles := by
  have hnamed : ∀ src ∈ sampleFiles, src.Named := by
    unfold Source.Named
    decide
  obtain ⟨bytes, hbytes, -, hmount⟩ := initrd_round_trip sampleFiles hnamed (by decide)
  have heq : bytes = archive sampleFiles := by
    have hsome : some bytes = some (archive sampleFiles) := by
      rw [← hbytes]
      decide +kernel
    exact Option.some.inj hsome
  obtain ⟨rd, hrd, -, -, hreps⟩ := hmount
    ⟨multibootFlagMods, [⟨4096, 4096 + .ofNat 32 bytes.length⟩]⟩ _ [] sampleMemory
    (fun _ _ => true) (show multibootFlagMods &&& multibootFlagMods ≠ 0 by decide) rfl rfl
    (by rw [heq]; unfold Holds; decide +kernel) rfl
  exact ⟨hnamed, by decide, bytes, hbytes, rd, hrd, hreps⟩

/-! ## What is accepted -/

/-- A field of the record with index `i`. -/
def recordField (mem : U32 → U8) (base : U32) (i k : ℕ) : ℕ :=
  le32 (bytesAt mem base) (headerSize + entrySize * i + k)

/-- The number of records that the header gives. -/
def recordCount (mem : U32 → U8) (base : U32) : ℕ := le32 (bytesAt mem base) 12

/-- The name of the record with index `i` ends within its 64 bytes. -/
def NameEnds (mem : U32 → U8) (base : U32) (i : ℕ) : Prop :=
  ∃ k < 64, bytesAt mem base (headerSize + entrySize * i + k) = 0

/-- The archive lies within its module, and every name within its field. -/
structure Sound (mem : U32 → U8) (mod : MultibootModule) : Prop where
  table : headerSize + entrySize * recordCount mem mod.modStart ≤
    (mod.modEnd - mod.modStart).toNat
  contents : ∀ i < recordCount mem mod.modStart,
    recordField mem mod.modStart i 64 + recordField mem mod.modStart i 68 ≤
      (mod.modEnd - mod.modStart).toNat
  names : ∀ i < recordCount mem mod.modStart, NameEnds mem mod.modStart i

/-- No sum of the checks passes the end of the numbers, and every name ends. -/
structure Moderate (mem : U32 → U8) (base : U32) : Prop where
  table : headerSize + entrySize * recordCount mem base < 2 ^ 32
  contents : ∀ i < recordCount mem base,
    recordField mem base i 64 + recordField mem base i 68 < 2 ^ 32
  names : ∀ i < recordCount mem base, NameEnds mem base i

lemma forall_ok_of_mapM {α β : Type} {f : α → Except String β} {l : List α} {bs : List β}
    (h : l.mapM f = .ok bs) : ∀ a ∈ l, ∃ b, f a = .ok b := by
  induction l generalizing bs with
  | nil => exact fun a ha => absurd ha not_mem_nil
  | cons a l ih =>
    rw [mapM_cons] at h
    cases hfirst : f a with
    | error e =>
      rw [hfirst] at h
      cases h
    | ok b =>
      cases hrest : l.mapM f with
      | error e =>
        rw [hfirst, hrest] at h
        cases h
      | ok bs => exact forall_mem_cons.mpr ⟨⟨b, hfirst⟩, ih hrest⟩

lemma accepted {mbi : MultibootInfo} {kcalloc : U32 → U32 → Bool} {mod : MultibootModule}
    {more : List MultibootModule} {rd : Ramdisk} (hmods : mbi.mods = mod :: more)
    (hinit : initrdInit mbi mem kcalloc = .ok rd) (hmounted : rd.mounted = true) :
    (headerSize + entrySize * recordCount mem mod.modStart) % 2 ^ 32 ≤
      (mod.modEnd - mod.modStart).toNat ∧
    ∀ i < recordCount mem mod.modStart,
      (recordField mem mod.modStart i 64 + recordField mem mod.modStart i 68) % 2 ^ 32 ≤
        (mod.modEnd - mod.modStart).toNat := by
  have hsum : ∀ {a b : ℕ} {size : U32}, ¬size < .ofNat 32 a + .ofNat 32 b →
      (a + b) % 2 ^ 32 ≤ size.toNat := by
    intro a b size h
    rwa [← ofNat_add, BitVec.not_lt, le_def, toNat_ofNat] at h
  have hcount : (BitVec.ofNat 32 (le32 (bytesAt mem mod.modStart) 12)).toNat =
      recordCount mem mod.modStart := by
    rw [toNat_ofNat, mod_eq_of_lt (le32_lt _ _), recordCount]
  rw [initrdInit, hmods] at hinit
  dsimp only at hinit
  rw [← ofNat_mul, Nat.mul_comm] at hinit
  split_ifs at hinit with hflags hsmall hheader htable hnone hheap
  · rw [Except.ok.injEq] at hinit
    rw [← hinit] at hmounted
    cases hmounted
  · refine ⟨hsum htable, fun i hi => ?_⟩
    rw [← hcount, hnone] at hi
    exact absurd hi (Nat.not_lt_zero i)
  · cases hfiles : (List.range (BitVec.ofNat 32 (le32 (bytesAt mem mod.modStart) 12)).toNat).mapM
        (mountEntry mem mod.modStart (mod.modEnd - mod.modStart)) with
    | error e =>
      rw [hfiles] at hinit
      cases hinit
    | ok files =>
      rw [hcount] at hfiles
      refine ⟨hsum htable, fun i hi => ?_⟩
      obtain ⟨file, hfile⟩ := forall_ok_of_mapM hfiles i (mem_range.mpr hi)
      rw [mountEntry] at hfile
      split_ifs at hfile with hescapes
      exact hsum hescapes

/-- **An accepted archive** lies within its module if and only if no sum of the checks passes the
end of the numbers and every name ends within its field. -/
theorem accepted_sound_iff {mbi : MultibootInfo} {kcalloc : U32 → U32 → Bool}
    {mod : MultibootModule} {more : List MultibootModule} {mem : U32 → U8} {rd : Ramdisk}
    (hmods : mbi.mods = mod :: more) (hinit : initrdInit mbi mem kcalloc = .ok rd)
    (hmounted : rd.mounted = true) : Sound mem mod ↔ Moderate mem mod.modStart := by
  obtain ⟨htable, hcontents⟩ := accepted hmods hinit hmounted
  have hlt := (mod.modEnd - mod.modStart).isLt
  constructor
  · intro h
    have := h.table
    exact ⟨by omega, fun i hi => lt_of_le_of_lt (h.contents i hi) hlt, h.names⟩
  · intro h
    refine ⟨by rwa [mod_eq_of_lt h.table] at htable, fun i hi => ?_, h.names⟩
    have := hcontents i hi
    rwa [mod_eq_of_lt (h.contents i hi)] at this

theorem accepted_sound_two :
    ∃ rd, initrdInit ⟨multibootFlagMods, [⟨4096, 4096 + 175⟩]⟩ sampleMemory (fun _ _ => true) =
        .ok rd ∧ rd.mounted = true ∧
      (Sound sampleMemory ⟨4096, 4096 + 175⟩ ↔ Moderate sampleMemory 4096) := by
  have hinit : initrdInit ⟨multibootFlagMods, [⟨4096, 4096 + 175⟩]⟩ sampleMemory
      (fun _ _ => true) = .ok ⟨true, 2, 175, [⟨4116, 4268, 3, 0, 0⟩, ⟨4192, 4271, 0, 0, 1⟩]⟩ := by
    decide +kernel
  exact ⟨_, hinit, rfl, accepted_sound_iff rfl hinit rfl⟩

/-- The memory with an archive of one record at address 4096. -/
def oneRecord (name : U8) (offset size : ℕ) (p : U32) : U8 :=
  (magic ++ le32Bytes 1 ++ le32Bytes 1 ++ le32Bytes 96 ++ List.replicate 64 name ++
    le32Bytes offset ++ le32Bytes size ++ le32Bytes 0).getD (p - 4096).toNat 0

/-- **Accepted and not sound**: a file at the last address of the numbers, and a name of 64
letters. -/
theorem unsound_archives_accepted :
    initrdInit ⟨multibootFlagMods, [⟨4096, 4192⟩]⟩ (oneRecord 0 0xFFFFFFFF 2) (fun _ _ => true) =
        .ok ⟨true, 1, 96, [⟨4116, 4095, 2, 0, 0⟩]⟩ ∧
      ¬Sound (oneRecord 0 0xFFFFFFFF 2) ⟨4096, 4192⟩ ∧
      initrdInit ⟨multibootFlagMods, [⟨4096, 4192⟩]⟩ (oneRecord 0x61 96 0) (fun _ _ => true) =
        .ok ⟨true, 1, 96, [⟨4116, 4192, 0, 0, 0⟩]⟩ ∧
      ¬Sound (oneRecord 0x61 96 0) ⟨4096, 4192⟩ := by
  refine ⟨by decide +kernel, fun h => ?_, by decide +kernel, fun h => ?_⟩
  · exact absurd (h.contents 0 (by decide +kernel)) (by decide +kernel)
  · obtain ⟨k, hk, hzero⟩ := h.names 0 (by decide +kernel)
    have hletters : ∀ k < 64,
        bytesAt (oneRecord 0x61 96 0) 4096 (headerSize + entrySize * 0 + k) ≠ 0 := by
      decide +kernel
    exact hletters k hk hzero

end OpenHobbyOS.Initrd
