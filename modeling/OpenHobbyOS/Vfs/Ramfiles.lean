/-
# The bytes of a ramfile

`vfs_write_ramfile`, `alloc_ramfile_buffer` and the ramfile part of `vfs_read` in `src/vfs.c`, with
the buffer as memory.  `Ramfile`, which the file tree uses, is the list of the first `size` bytes
(`write_refines`).  The capacity is doubled in 32 bits until it is large enough; a write that ends
above 2³¹ doubles it to 0 and then for ever.
-/
import OpenHobbyOS.Lib.Bytes
import OpenHobbyOS.Vfs.Calls

namespace OpenHobbyOS

open Lib List Paging Option Nat Function

namespace Vfs

/-! ## Capacities -/

/-- The sizes of buffers: a page doubled up to 19 times. -/
def IsCapacity (capacity : ℕ) : Prop := ∃ k, 12 ≤ k ∧ k ≤ 31 ∧ capacity = 2 ^ k

variable {required capacity k : ℕ} {f : Ramfile}

lemma growCapacity_zero (h : 0 < required) (fuel : ℕ) :
    growCapacity required fuel 0 = none := by
  induction fuel with
  | zero => rfl
  | succ fuel ih => rw [growCapacity, if_pos h, zero_mul, zero_mod, ih]

lemma growCapacity_eq (fuel : ℕ) (hreq : required ≤ 2 ^ 31) (hk : k ≤ 31)
    (hfuel : 31 < k + fuel) :
    growCapacity required fuel (2 ^ k) = some (2 ^ max k (clog 2 required)) := by
  induction fuel generalizing k with
  | zero => omega
  | succ fuel ih =>
    have hclog := (clog_le_iff_le_pow one_lt_two).mpr hreq
    rw [growCapacity]
    split_ifs with hlt
    · have hk' := (lt_clog_iff_pow_lt one_lt_two).mpr hlt
      rw [← Nat.pow_succ, Nat.mod_eq_of_lt (Nat.pow_lt_pow_right Nat.one_lt_two (by omega)),
        ih (by omega) (by omega), max_eq_right hk'.le, max_eq_right hk']
    · have hk' := mt (lt_clog_iff_pow_lt one_lt_two).mp hlt
      rw [max_eq_left (by omega)]

lemma growCapacity_none (fuel : ℕ) (hreq : 2 ^ 31 < required) (hk : k ≤ 31) :
    growCapacity required fuel (2 ^ k) = none := by
  induction fuel generalizing k with
  | zero => rfl
  | succ fuel ih =>
    have hle : 2 ^ k ≤ 2 ^ 31 := Nat.pow_le_pow_right Nat.two_pos hk
    rw [growCapacity, if_pos (by omega)]
    rcases hk.eq_or_lt with rfl | hlt
    · exact growCapacity_zero (by omega) fuel
    · rw [← Nat.pow_succ, Nat.mod_eq_of_lt (Nat.pow_lt_pow_right Nat.one_lt_two (by omega))]
      exact ih (by omega)

lemma alignCapacity_eq (h : IsCapacity capacity) :
    alignCapacity capacity = capacity := by
  obtain ⟨k, hk, hk', rfl⟩ := h
  interval_cases k <;> rfl

lemma capacityFor_eq (hf : f.capacity = 2 ^ k) (hk : 12 ≤ k) (hk' : k ≤ 31)
    (hreq : required ≤ 2 ^ 31) :
    capacityFor f required = some (2 ^ max k (clog 2 required)) := by
  have hclog := (clog_le_iff_le_pow one_lt_two).mpr hreq
  rw [capacityFor, hf]
  split_ifs with hlt
  · rw [growCapacity_eq 33 hreq hk' (by omega), map_some,
      alignCapacity_eq ⟨_, le_max_of_le_left hk, max_le hk' hclog, rfl⟩]
  · have := mt (lt_clog_iff_pow_lt one_lt_two).mp hlt
    rw [max_eq_left (by omega)]

lemma capacityFor_none (h : IsCapacity f.capacity) (hreq : 2 ^ 31 < required) :
    capacityFor f required = none := by
  obtain ⟨k, -, hk, hf⟩ := h
  have hle : 2 ^ k ≤ 2 ^ 31 := Nat.pow_le_pow_right Nat.two_pos hk
  rw [capacityFor, hf, if_pos (by omega), growCapacity_none 33 hreq hk, map_none]

/-- A buffer for a write has a proper size and holds all of it. -/
theorem capacityFor_spec (h : IsCapacity f.capacity)
    (hc : capacityFor f required = some capacity) : IsCapacity capacity ∧ required ≤ capacity := by
  by_cases hreq : required ≤ 2 ^ 31
  · have hclog := (clog_le_iff_le_pow one_lt_two).mpr hreq
    obtain ⟨k, hk, hk', hf⟩ := h
    rw [capacityFor_eq hf hk hk' hreq, some.injEq] at hc
    refine ⟨⟨_, le_max_of_le_left hk, max_le hk' hclog, hc.symm⟩, ?_⟩
    rw [← hc]
    exact (le_pow_clog one_lt_two required).trans
      (Nat.pow_le_pow_right Nat.two_pos (le_max_right _ _))
  · rw [capacityFor_none h (by omega)] at hc
    cases hc

end Vfs

/-! ## The buffer -/

/-- A ramfile with the memory its `data` points to. -/
structure RamBuffer where
  data : ℕ → U8
  size : ℕ
  capacity : ℕ

namespace RamBuffer

/-- What `alloc_ramfile_buffer` returns: zeros, and what was behind them. -/
def zeroed (capacity : ℕ) (heap : ℕ → U8) (i : ℕ) : U8 := if i < capacity then 0 else heap i

/-- The ramfile of `vfs_create_ramfile`. -/
def create (heap : ℕ → U8) : RamBuffer := ⟨zeroed 4096 heap, 0, 4096⟩

variable (f : RamBuffer)

/-- The file as the tree has it, with its number of names. -/
def file (links : ℕ) : Ramfile := ⟨window f.data 0 f.size, f.capacity, links⟩

/-- The contents are copied to a new buffer. -/
def moved (capacity : ℕ) (heap : ℕ → U8) : RamBuffer :=
  ⟨splice (zeroed capacity heap) 0 (window f.data 0 f.size), f.size, capacity⟩

/-- The stores of a write: the gap before it and the bytes. -/
def store (offset : ℕ) (bytes : List U8) : RamBuffer :=
  let data :=
    if f.size < offset then splice f.data f.size (replicate (offset - f.size) 0) else f.data
  ⟨splice data offset bytes, max f.size ((offset + bytes.length) % 2 ^ 32), f.capacity⟩

/-- `vfs_write_ramfile`; `room` and `heap` are the memory found for a larger buffer.  No result is
an endless loop or a store behind the buffer. -/
def write (offset : ℕ) (bytes : List U8) (room : Bool) (heap : ℕ → U8) : Option (RamBuffer × ℤ) :=
  if bytes = [] then some (f, -1)
  else
    let required := (offset + bytes.length) % 2 ^ 32
    (Vfs.capacityFor (f.file 0) required).bind fun capacity =>
      if f.capacity < required ∧ !room then some (f, -1)
      else if capacity < offset + bytes.length then none
      else
        let f := if f.capacity < required then f.moved capacity heap else f
        some (f.store offset bytes, bytes.length)

/-- `vfs_read` of a ramfile: the result and the bytes stored in the buffer. -/
def read (offset length : ℕ) : ℤ × List U8 :=
  if length = 0 then (-1, [])
  else if f.size ≤ offset then (0, [])
  else
    let count := min length (f.size - offset)
    (count, window f.data offset count)

end RamBuffer

/-- A use of a ramfile. -/
inductive RamOp where
  | write (offset : ℕ) (bytes : List U8) (room : Bool) (heap : ℕ → U8)
  | read (offset length : ℕ)

/-- The file after a write that reports success, or after a read. -/
def RamBuffer.step (f : RamBuffer) : RamOp → Option RamBuffer
  | .write offset bytes room heap =>
    (f.write offset bytes room heap).bind fun r => if r.2 = bytes.length then some r.1 else none
  | .read _ _ => some f

/-! ## Byte maps -/

/-- A file as a map: the byte written last at each position, and the end of the file. -/
structure ByteMap where
  byte : ℕ → Option U8
  size : ℕ

namespace ByteMap

/-- Nothing is written. -/
def empty : ByteMap := ⟨fun _ => none, 0⟩

/-- The bytes of a write replace those at their positions. -/
def apply (b : ByteMap) : RamOp → ByteMap
  | .write offset bytes _ _ =>
    ⟨fun i => if offset ≤ i then bytes[i - offset]? <|> b.byte i else b.byte i,
      max b.size (offset + bytes.length)⟩
  | .read _ _ => b

/-- A position that was never written reads as zero; a read stops at the end. -/
def read (b : ByteMap) (offset length : ℕ) : List U8 :=
  window (fun i => (b.byte i).getD 0) offset (min length (b.size - offset))

end ByteMap

/-- The file is the map. -/
structure RamBuffer.Behaves (f : RamBuffer) (b : ByteMap) : Prop where
  size_eq : f.size = b.size
  read_eq : ∀ offset length, 0 < length →
    f.read offset length = (((b.read offset length).length : ℤ), b.read offset length)
  size_le : f.size ≤ f.capacity

/-! ## The stores of a write -/

namespace RamBuffer

variable {f f' : RamBuffer} {b : ByteMap} {offset : ℕ} {bytes : List U8}

/-- The invariant: the size, the bytes below it, and nothing written above it. -/
structure Maps (f : RamBuffer) (b : ByteMap) : Prop where
  size_eq : f.size = b.size
  byte_eq : ∀ i < f.size, f.data i = (b.byte i).getD 0
  above : ∀ i, f.size ≤ i → b.byte i = none
  size_le : f.size ≤ f.capacity
  capacity : Vfs.IsCapacity f.capacity

lemma Maps.behaves (h : f.Maps b) : f.Behaves b := by
  refine ⟨h.size_eq, fun offset length hpos => ?_, h.size_le⟩
  rw [read, if_neg hpos.ne', ByteMap.read, length_window, ← h.size_eq]
  split_ifs with hend
  · rw [Nat.sub_eq_zero_of_le hend, Nat.min_zero]
    rfl
  · refine Prod.ext rfl (window_eq_iff.mpr fun i hi => h.byte_eq _ ?_)
    omega

lemma maps_create (heap : ℕ → U8) : (create heap).Maps ByteMap.empty :=
  ⟨rfl, fun _ hi => absurd hi (not_lt_zero _), fun _ _ => rfl, zero_le _, 12, le_rfl,
    by decide, rfl⟩

lemma data_moved (capacity : ℕ) (heap : ℕ → U8) {i : ℕ} (hi : i < f.size) :
    (f.moved capacity heap).data i = f.data i := by
  rw [moved]
  dsimp only [splice]
  rw [if_pos (Nat.zero_le i), Nat.sub_zero, getD_window hi, Nat.zero_add]

lemma Maps.moved (h : f.Maps b) {capacity : ℕ} (heap : ℕ → U8) (hcap : Vfs.IsCapacity capacity)
    (hle : f.capacity ≤ capacity) : (f.moved capacity heap).Maps b where
  size_eq := h.size_eq
  byte_eq i hi := by
    have hi' : i < f.size := hi
    rw [data_moved capacity heap hi', h.byte_eq i hi']
  above := h.above
  size_le := h.size_le.trans hle
  capacity := hcap

lemma data_store (offset : ℕ) (bytes : List U8) (i : ℕ) :
    (f.store offset bytes).data i =
      if offset ≤ i ∧ i < offset + bytes.length then bytes.getD (i - offset) 0
      else if f.size ≤ i ∧ i < offset then 0 else f.data i := by
  have hgap : (if f.size < offset then splice f.data f.size (replicate (offset - f.size) 0)
      else f.data) i = if f.size ≤ i ∧ i < offset then 0 else f.data i := by
    by_cases hlt : f.size < offset
    · rw [if_pos hlt, splice]
      by_cases hle : f.size ≤ i
      · rw [if_pos hle, getD_eq_getElem?_getD, getElem?_replicate]
        by_cases hi : i < offset
        · rw [if_pos (by omega), if_pos ⟨hle, hi⟩, getD_some]
        · rw [if_neg (by omega), if_neg (by omega), getD_none]
      · rw [if_neg hle, if_neg (by omega)]
    · rw [if_neg hlt, if_neg (by omega)]
  rw [store]
  dsimp only
  rw [splice, hgap]
  generalize (if f.size ≤ i ∧ i < offset then (0 : U8) else f.data i) = c
  by_cases hle : offset ≤ i
  · rw [if_pos hle]
    by_cases hi : i < offset + bytes.length
    · have hlt : i - offset < bytes.length := by omega
      rw [if_pos ⟨hle, hi⟩, getD_eq_getElem _ _ hlt, getD_eq_getElem _ _ hlt]
    · rw [if_neg (by omega), getD_eq_default _ _ (by omega)]
  · rw [if_neg hle, if_neg (by omega)]

lemma file_store (f : RamBuffer) (links : ℕ) (hlt : offset + bytes.length < 2 ^ 32) :
    (f.store offset bytes).file links =
      { f.file links with data := Vfs.overwrite (f.file links).data offset bytes } := by
  have hsize : (f.store offset bytes).size = max f.size (offset + bytes.length) :=
    congrArg (max f.size) (mod_eq_of_lt hlt)
  have hbytes : window (f.store offset bytes).data 0 (f.store offset bytes).size =
      Vfs.overwrite (window f.data 0 f.size) offset bytes := by
    rw [hsize, Vfs.overwrite, length_window]
    generalize hd : window f.data 0 f.size ++ replicate (offset - f.size) 0 = d
    have hlen : d.length = max f.size offset := by
      rw [← hd, length_append, length_window, length_replicate]
      omega
    have hbyte : ∀ i < d.length, d[i]? = some (if f.size ≤ i then 0 else f.data i) := by
      intro i hi
      rw [← hd]
      split_ifs with hle
      · rw [getElem?_append_right (by simpa using hle), length_window, getElem?_replicate,
          if_pos (by omega)]
      · rw [getElem?_append_left (by simpa using hle), getElem?_window (by omega), zero_add]
    have htake : (d.take offset).length = offset := by
      rw [length_take, Nat.min_eq_left (by omega)]
    refine ext_getElem? fun i => ?_
    by_cases hi : i < max f.size (offset + bytes.length)
    · rw [getElem?_window hi, zero_add, data_store]
      -- before the write, inside it and behind it
      by_cases hbefore : i < offset
      · rw [append_assoc, getElem?_append_left (by omega), getElem?_take_of_lt hbefore,
          hbyte i (by omega), if_neg (by omega)]
        simp only [hbefore, and_true]
      by_cases hin : i < offset + bytes.length
      · rw [append_assoc, getElem?_append_right (by omega), htake,
          getElem?_append_left (by omega), if_pos ⟨Nat.le_of_not_lt hbefore, hin⟩,
          getD_eq_getElem?_getD, getElem?_eq_getElem (by omega), getD_some]
      · rw [getElem?_append_right (by rw [length_append]; omega), length_append, htake,
          getElem?_drop, Nat.add_sub_cancel' (by omega), hbyte i (by omega), if_neg (by omega),
          if_neg (by omega), if_neg (by omega)]
    · rw [getElem?_eq_none (by simpa using hi), getElem?_eq_none]
      rw [length_append, length_append, htake, length_drop]
      omega
  rw [file, hbytes]
  rfl

lemma file_moved (f : RamBuffer) (capacity links : ℕ) (heap : ℕ → U8) :
    (f.moved capacity heap).file links = { f.file links with capacity := capacity } :=
  congrArg (Ramfile.mk · capacity links)
    (window_eq_iff.mpr fun i hi => data_moved capacity heap ((zero_add i).trans_lt hi))

/-- **The buffer of a file** does what the file tree says of a write, also where that fails. -/
theorem write_refines (v : Vfs) {n : NodeId} {r : RamfileId} {links : ℕ}
    (hr : (v.node n).ramfile = some r) (hfile : v.ramfile r = f.file links)
    (hlt : offset + bytes.length < 2 ^ 32) (room : Bool) (heap : ℕ → U8) :
    v.writeRamfile n offset bytes room = (f.write offset bytes room heap).map fun (f', result) =>
      ({ v with ramfile := update v.ramfile r (f'.file links) }, result) := by
  have hsame : update v.ramfile r (f.file links) = v.ramfile :=
    hfile ▸ update_eq_self r v.ramfile
  have hcap : (f.file links).capacity = f.capacity := rfl
  rw [Vfs.writeRamfile, hr, write]
  simp only [Vfs.updRamfile, hfile]
  by_cases hempty : bytes = []
  · rw [if_pos hempty, if_pos hempty, map_some, hsame]
  rw [if_neg hempty, if_neg hempty, hcap, map_bind]
  refine bind_congr fun capacity hc => ?_
  dsimp only [comp]
  split_ifs with hroom hover hgrow
  · rw [map_some, hsame]
  · rfl
  · rw [map_some, file_store _ _ hlt, file_moved]
  · rw [map_some, file_store _ _ hlt, Option.some.inj (hc.symm.trans (if_neg hgrow))]

lemma Maps.store (h : f.Maps b) (hfit : offset + bytes.length ≤ f.capacity) (room : Bool)
    (heap : ℕ → U8) : (f.store offset bytes).Maps (b.apply (.write offset bytes room heap)) := by
  have hcap : f.capacity ≤ 2 ^ 31 := by
    obtain ⟨k, -, hk, hf⟩ := h.capacity
    rw [hf]
    exact Nat.pow_le_pow_right Nat.two_pos hk
  have hmod : (offset + bytes.length) % 2 ^ 32 = offset + bytes.length :=
    mod_eq_of_lt (by omega)
  have hsize : (f.store offset bytes).size = max f.size (offset + bytes.length) :=
    congrArg (max f.size) hmod
  refine ⟨?_, fun i hi => ?_, fun i hi => ?_, ?_, h.capacity⟩
  · rw [hsize, h.size_eq]
    rfl
  · rw [data_store]
    dsimp only [ByteMap.apply]
    by_cases hin : offset ≤ i ∧ i < offset + bytes.length
    · have hlt : i - offset < bytes.length := by omega
      rw [if_pos hin, if_pos hin.1, getElem?_eq_getElem hlt, getD_eq_getElem _ _ hlt]
      rfl
    -- outside the write the map is as before
    have hold : (if offset ≤ i then bytes[i - offset]? <|> b.byte i else b.byte i) = b.byte i := by
      split_ifs with hle
      · rw [getElem?_eq_none (by omega)]
        rfl
      · rfl
    rw [if_neg hin, hold]
    by_cases hgap : f.size ≤ i ∧ i < offset
    · rw [if_pos hgap, h.above i hgap.1, getD_none]
    · rw [if_neg hgap]
      rw [hsize] at hi
      exact h.byte_eq i (by omega)
  · rw [hsize] at hi
    dsimp only [ByteMap.apply]
    split_ifs with hle
    · rw [getElem?_eq_none (by omega), h.above i (by omega)]
      rfl
    · exact h.above i (by omega)
  · rw [hsize]
    exact max_le h.size_le hfit

lemma Maps.step (h : f.Maps b) {op : RamOp}
    (hfit : ∀ offset bytes room heap, op = .write offset bytes room heap →
      offset + bytes.length ≤ 2 ^ 31)
    (hstep : f.step op = some f') : f'.Maps (b.apply op) := by
  cases op with
  | read offset length =>
    cases hstep
    exact h
  | write offset bytes room heap =>
    have hle := hfit offset bytes room heap rfl
    obtain ⟨⟨f₁, r⟩, hwrite, hr⟩ := bind_eq_some_iff.mp hstep
    dsimp only at hr
    by_cases hsuccess : r = bytes.length
    swap
    · rw [if_neg hsuccess] at hr
      cases hr
    rw [if_pos hsuccess] at hr
    cases hr
    subst hsuccess
    rw [write] at hwrite
    by_cases hempty : bytes = []
    · rw [if_pos hempty, some.injEq, Prod.mk.injEq] at hwrite
      rw [hempty] at hwrite
      exact absurd hwrite.2 (by decide)
    rw [if_neg hempty, mod_eq_of_lt (by omega)] at hwrite
    obtain ⟨capacity, hcap, hwrite⟩ := bind_eq_some_iff.mp hwrite
    obtain ⟨hproper, hlarge⟩ := Vfs.capacityFor_spec (f := f.file 0) h.capacity hcap
    by_cases hroom : f.capacity < offset + bytes.length ∧ (!room) = true
    · rw [if_pos hroom, some.injEq, Prod.mk.injEq] at hwrite
      exact absurd hwrite.2 (by omega)
    rw [if_neg hroom, if_neg (by omega), some.injEq, Prod.mk.injEq] at hwrite
    rw [← hwrite.1]
    split_ifs with hgrow
    · exact (h.moved heap hproper (by omega)).store hlarge room heap
    · exact h.store (by omega) room heap

/-- **A ramfile is a map of bytes.**  After writes that end at 2³¹ at most every read returns what
was written last, zeros where nothing was, and stops at the end of the longest write. -/
theorem ramfile_bytes (heap : ℕ → U8) (ops : List RamOp) (f : RamBuffer)
    (hfit : ∀ offset bytes room heap, RamOp.write offset bytes room heap ∈ ops →
      offset + bytes.length ≤ 2 ^ 31)
    (hrun : run RamBuffer.step (create heap) ops = some f) :
    f.Behaves (ops.foldl ByteMap.apply .empty) := by
  suffices hmaps : ∀ {f₀ : RamBuffer} {b : ByteMap}, f₀.Maps b →
      run RamBuffer.step f₀ ops = some f → f.Maps (ops.foldl ByteMap.apply b) from
    (hmaps (maps_create heap) hrun).behaves
  clear hrun
  intro f₀ b h hrun
  induction ops generalizing f₀ b with
  | nil =>
    cases hrun
    exact h
  | cons op ops ih =>
    obtain ⟨f₁, hfirst, hrest⟩ := run_cons_eq_some.mp hrun
    refine ih (fun offset bytes room heap hmem => ?_) (h.step (fun offset bytes room heap heq => ?_)
      hfirst) hrest
    · exact hfit offset bytes room heap (mem_cons_of_mem op hmem)
    · exact hfit offset bytes room heap (heq ▸ mem_cons_self)

/-- Two bytes behind a gap, and one over the first of them. -/
def sparseWrites : List RamOp :=
  [.write 5000 [1, 2] true fun _ => 7, .read 0 10, .write 5000 [3] false fun _ => 7]

theorem ramfile_bytes_sparse :
    ∃ f, run RamBuffer.step (create fun _ => 7) sparseWrites = some f ∧
      f.Behaves (sparseWrites.foldl ByteMap.apply .empty) ∧ f.read 4998 9 = (4, [0, 0, 3, 2]) := by
  have hread : (run RamBuffer.step (create fun _ => 7) sparseWrites).any
      (fun f => f.read 4998 9 = (4, [0, 0, 3, 2])) = true := by decide +kernel
  obtain ⟨f, hf, hbytes⟩ := (any_eq_true _ _).mp hread
  refine ⟨f, hf, ramfile_bytes _ sparseWrites f (fun offset bytes room heap hmem => ?_) hf,
    of_decide_eq_true hbytes⟩
  simp only [sparseWrites, mem_cons, RamOp.write.injEq, reduceCtorEq, not_mem_nil, or_false,
    false_or] at hmem
  rcases hmem with ⟨rfl, rfl, -⟩ | ⟨rfl, rfl, -⟩ <;> decide

end RamBuffer

/-! ## Writes to a descriptor -/

namespace FileSystem

variable {s : FileSystem} {t : ℕ} {fd : ℤ} {m : FdId} {n : NodeId} {r : RamfileId}

/-- The descriptor of the task is open on the ramfile `r`. -/
structure OpenAt (s : FileSystem) (t : ℕ) (fd : ℤ) (m : FdId) (n : NodeId) (r : RamfileId) :
    Prop where
  slot : Kernel.fdSlot fd = some m
  used : ((s.task t).fds m).used = true
  kind : ((s.task t).fds m).kind = .file
  node : ((s.task t).fds m).node = some n
  ramfile : (s.vfs.node n).ramfile = some r

/-- The call returns: the bytes are stored at the offset, or the files are as before. -/
def WriteEnds (s : FileSystem) (t : ℕ) (fd : ℤ) (m : FdId) (r : RamfileId) (buffer : U32)
    (bytes : List U8) (room : Bool) (other : ℤ) : Prop :=
  ∃ s' result, s.sysWrite t fd buffer bytes room other = some (s', result) ∧
    (result < 0 ∧ s'.vfs = s.vfs ∨ result = bytes.length ∧ (s'.vfs.ramfile r).data =
      Vfs.overwrite (s.vfs.ramfile r).data ((s.task t).fds m).offset.toNat bytes)

lemma length_of_valid {buffer : U32} {n : ℕ} (hn : n < 2 ^ 32)
    (h : taskValidateUserRange buffer (BitVec.ofNat 32 n) = true) : n < 2 ^ 31 := by
  have hlimit : userLimit.toNat = 0x05000000 := rfl
  simp only [taskValidateUserRange, Bool.not_eq_true', Bool.or_eq_false_iff,
    decide_eq_false_iff_not, BitVec.not_lt, BitVec.le_def, BitVec.toNat_add,
    BitVec.toNat_ofNat] at h
  omega

/-- **A write to a ramfile returns** exactly if it ends at 2³¹ at most; `offset` is one that seeks
and writes can lead to. -/
theorem write_ends_iff {buffer : U32} {bytes : List U8} (room : Bool) (other : ℤ)
    (hopen : s.OpenAt t fd m n r) (hcap : Vfs.IsCapacity (s.vfs.ramfile r).capacity)
    (hoff : ((s.task t).fds m).offset.toNat ≤ 2 ^ 31) (hlen : bytes.length < 2 ^ 32)
    (hvalid : taskValidateUserRange buffer (BitVec.ofNat 32 bytes.length) = true) :
    s.WriteEnds t fd m r buffer bytes room other ↔
      ((s.task t).fds m).offset.toNat + bytes.length ≤ 2 ^ 31 := by
  have hshort := length_of_valid hlen hvalid
  have hcall : s.sysWrite t fd buffer bytes room other = s.writeFile t m n bytes room := by
    rw [sysWrite, if_neg (by simp [hvalid]; omega), hopen.slot]
    dsimp only
    rw [hopen.used, hopen.kind, hopen.node, if_neg (by simp), if_pos rfl]
    dsimp only
    rw [if_neg (by rw [hopen.ramfile]; simp)]
  rw [WriteEnds, hcall, writeFile]
  dsimp only
  generalize ((s.task t).fds m).offset.toNat = offset at hoff ⊢
  rw [Vfs.writeRamfile, hopen.ramfile]
  dsimp only
  by_cases hempty : bytes = []
  · rw [if_pos hempty, hempty]
    exact iff_of_true ⟨_, -1, rfl, .inl ⟨by decide, rfl⟩⟩ hoff
  rw [if_neg hempty, mod_eq_of_lt (by omega)]
  by_cases hfit : offset + bytes.length ≤ 2 ^ 31
  swap
  · rw [Vfs.capacityFor_none hcap (by omega)]
    refine iff_of_false ?_ hfit
    rintro ⟨s', result, h, -⟩
    cases h
  refine iff_of_true ?_ hfit
  obtain ⟨k, hk, hk', hf⟩ := hcap
  have hgrown := Vfs.capacityFor_eq hf hk hk' hfit
  have hle := (Vfs.capacityFor_spec ⟨k, hk, hk', hf⟩ hgrown).2
  rw [hgrown, bind_some]
  by_cases hroom : (s.vfs.ramfile r).capacity < offset + bytes.length ∧ (!room) = true
  · rw [if_pos hroom]
    exact ⟨_, -1, rfl, .inl ⟨by decide, rfl⟩⟩
  · have hpos : (0 : ℤ) < bytes.length := by
      have := length_pos_of_ne_nil hempty
      omega
    rw [if_neg hroom, if_neg (not_lt.mpr hle), map_some]
    dsimp only
    rw [if_pos hpos]
    refine ⟨_, _, rfl, .inr ⟨rfl, ?_⟩⟩
    exact congrArg Ramfile.data (update_self r _ s.vfs.ramfile)

/-- A task with an empty ramfile open at an offset, as descriptor 3. -/
def seekedTo (offset : U32) : FileSystem where
  vfs := { Vfs.bare with
    node := fun _ => Vfs.ramfileNode (text "x") 0, ramfile := fun _ => ⟨[], 4096, 1⟩ }
  task := fun _ =>
    ⟨fun _ => { TaskFd.zero with used := true, kind := .file, node := some 1, offset := offset },
      none⟩

/-- Descriptor 3. -/
def thirdFd : FdId := ⟨3, of_decide_eq_true rfl⟩

lemma openAt_seekedTo (offset : U32) : (seekedTo offset).OpenAt 0 3 thirdFd 1 0 :=
  ⟨rfl, rfl, rfl, rfl, rfl⟩

theorem write_refines_gap :
    ((seekedTo 0).vfs.writeRamfile 1 2 [8, 9] false).map (fun x => (x.1.ramfile 0).data) =
      some [0, 0, 8, 9] := by
  rw [RamBuffer.write_refines (f := .create fun _ => 7) (seekedTo 0).vfs rfl rfl (by decide) false
    fun _ => 7]
  decide +kernel

/-- The last write that returns. -/
theorem write_ends_last : (seekedTo 0x7FFFFFFF).WriteEnds 0 3 thirdFd 0 userBase [1] false 0 :=
  (write_ends_iff false 0 (openAt_seekedTo 0x7FFFFFFF) ⟨12, le_rfl, by decide, rfl⟩ (by decide)
    (by decide) (by decide)).mpr (by decide)

/-- One byte more, and the capacity is doubled for ever. -/
theorem write_never_ends :
    ¬ (seekedTo 0x7FFFFFFF).WriteEnds 0 3 thirdFd 0 userBase [1, 2] true 0 := by
  rintro ⟨s', result, h, -⟩
  have hsome : ((seekedTo 0x7FFFFFFF).sysWrite 0 3 userBase [1, 2] true 0).isSome = true := by
    rw [h]
    rfl
  exact absurd hsome (by decide +kernel)

end FileSystem

end OpenHobbyOS
