/-
# Reading a file

`vfs_read` of `src/vfs.c` on the archive's tree.  The result is the value returned and the bytes
stored in the caller's buffer; `none` is a copy that runs past the local buffer of a virtual file.
-/
import OpenHobbyOS.Vfs.Tree

namespace OpenHobbyOS.Vfs

open Paging List

/-- What the virtual files report: `pit_ticks()` and the heap's part of `memory_stats()`. -/
structure Gauges where
  ticks : U32
  heapUsed : U32
  heapFree : U32

/-- A count as the `ssize_t` that is returned. -/
def ssize (n : ℕ) : ℤ := (n : ℤ).bmod (2 ^ 32)

/-- `append_text` on the 256 bytes of `buf`. -/
def appendText (buf text : List U8) : List U8 := buf ++ text.take (255 - buf.length)

/-- `append_u32`. -/
def appendU32 (buf : List U8) (value : U32) : List U8 := appendText buf (text (toString value.toNat))

/-- The text of a virtual file, if it has one. -/
def virtualText (g : Gauges) : VirtualFile → Option (List U8)
  | .procUptime =>
    let uptime := g.ticks / 100
    let buf := appendText (appendU32 [] uptime) (text ".00 ")
    some (appendText (appendU32 buf uptime) (text ".00\n"))
  | .procMeminfo =>
    let buf := appendU32 (appendText [] (text "MemTotal: ")) ((g.heapUsed + g.heapFree) / 1024)
    let buf := appendText buf (text " kB\nMemFree: ")
    some (appendText (appendU32 buf (g.heapFree / 1024)) (text " kB\n"))
  | _ => none

/-- The end of the branch for virtual files, with the sum of offset and length in 32 bits. -/
def readText (buf : List U8) (offset length : ℕ) : Option (ℤ × List U8) :=
  if buf.length ≤ offset then some (0, [])
  else if buf.length < (offset + length) % 2 ^ 32 then
    some (ssize (buf.length - offset), buf.drop offset)
  else if buf.length < offset + length then none
  else some (ssize length, (buf.drop offset).take length)

/-- The bytes a read of `length` bytes at `offset` asks for. -/
def slice (data : List U8) (offset length : ℕ) : List U8 := (data.drop offset).take length

/-- The branches for ramfiles and for files of the archive. -/
def readData (data : List U8) (offset length : ℕ) : ℤ × List U8 :=
  if data.length ≤ offset then (0, [])
  else
    let available := data.length - offset
    let length := if available < length then available else length
    (ssize length, slice data offset length)

/-- `vfs_read` into a buffer of the caller. -/
def read (v : Vfs) (g : Gauges) (n : NodeId) (offset length : ℕ) : Option (ℤ × List U8) :=
  if (v.node n).isDir ∨ length = 0 then some (-1, [])
  else
    match (v.node n).virtualId with
    | some id =>
      match virtualText g id with
      | some buf => readText buf offset length
      | none => some (0, [])
    | none =>
      match (v.node n).ramfile, (v.node n).file with
      | some r, _ => some (readData (v.ramfile r).data offset length)
      | none, some file => some (readData file.data offset length)
      | none, none => some (-1, [])

lemma length_slice (data : List U8) (offset length : ℕ) :
    (slice data offset length).length = min length (data.length - offset) := by
  rw [slice, length_take, length_drop]

lemma readData_eq (data : List U8) (offset length : ℕ) :
    readData data offset length =
      (ssize (slice data offset length).length, slice data offset length) := by
  rw [readData, length_slice]
  split_ifs with hend
  · rw [slice, drop_of_length_le hend, Nat.sub_eq_zero_of_le hend, Nat.min_zero, take_nil]
    rfl
  · by_cases havail : data.length - offset < length
    · simp only [if_pos havail, Nat.min_eq_right havail.le]
      rw [slice, slice, take_of_length_le (by rw [length_drop]),
        take_of_length_le (by rw [length_drop]; exact havail.le)]
    · simp only [if_neg havail, Nat.min_eq_left (Nat.le_of_not_lt havail)]

lemma ssize_eq_iff (n : ℕ) : ssize n = n ↔ n < 2 ^ 31 := by
  unfold ssize
  constructor
  · intro h
    have hlt := Int.bmod_lt (x := (n : ℤ)) (m := 2 ^ 32) (Nat.two_pow_pos 32)
    rw [h] at hlt
    push_cast at hlt
    omega
  · intro h
    exact Int.bmod_eq_of_le (by push_cast; omega) (by push_cast; omega)

lemma read_file {v : Vfs} {g : Gauges} {n : NodeId} {file : InitrdFile}
    (hdir : (v.node n).isDir = false) (hvirtual : (v.node n).virtualId = none)
    (hram : (v.node n).ramfile = none) (hfile : (v.node n).file = some file) (offset : ℕ)
    {length : ℕ} (hlen : length ≠ 0) :
    v.read g n offset length =
      some (ssize (slice file.data offset length).length, slice file.data offset length) := by
  rw [read, if_neg (by simp [hdir, hlen]), hvirtual, hram, hfile]
  exact congrArg some (readData_eq _ _ _)

lemma read_zero (v : Vfs) (g : Gauges) (n : NodeId) (offset : ℕ) :
    v.read g n offset 0 = some (-1, []) := by
  rw [read, if_pos (.inr rfl)]

end OpenHobbyOS.Vfs
