/-
# What `sendfile` accounts for

`ports/newlib/openhobbyos/compat_sendfile.c`.  How the system calls end is an input: each read is an
error or brings the bytes at the position then, each write is an error or takes so many bytes at
most.  Both descriptors may be the same one; then the writes move the position of the input.
`lseek` fails from 2^31 on (`task_lseek`).
-/
import OpenHobbyOS.Vfs.Tree

namespace OpenHobbyOS.Libc

open Paging List Nat Option

/-- The end of a read. -/
abbrev ReadOutcome := Option (List U8)

/-- The end of a write. -/
abbrev WriteOutcome := Option ℕ

/-- The result, the position of the input, the output, and the calls that were not made. -/
structure Transfer where
  ret : ℤ
  pos : ℕ
  out : List U8
  reads : List ReadOutcome
  writes : List WriteOutcome
  deriving DecidableEq

/-- The result when a read or a write fails. -/
def cutShort (total : ℕ) : ℤ := if total = 0 then -1 else total

/-- How far a read and its writes move the input; `own`: the output is the input descriptor. -/
def moved (own : Bool) (read written : ℕ) : ℕ := if own then read + written else read

/-- `*offset` behind a call that ends at position `p`. -/
def nextOffset (off : U32) (p : ℕ) : U32 := if p < 2 ^ 31 then BitVec.ofNat 32 p else off

/-- The bytes that reads bring. -/
def found (reads : List ReadOutcome) : List U8 := (reads.map (·.getD [])).flatten

/-- A write that takes something. -/
def Good (w : WriteOutcome) : Prop := w ≠ none ∧ w ≠ some 0

/-- What a call may return that has counted `n` bytes. -/
def Returns (ret : ℤ) (n : ℕ) : Prop := ret = n ∨ n = 0 ∧ ret = -1

lemma moved_true (read written : ℕ) : moved true read written = read + written := rfl

lemma moved_add (own : Bool) (a b : ℕ) : moved own (a + b) (a + b) = moved own a a + moved own b b := by
  cases own
  · rfl
  · simp only [moved_true]
    omega

/-- What is left of a transfer made the writes and reads and counted `n` more: those it read, which
it wrote all, or not all because a write failed. -/
structure Tally (own : Bool) (total pos : ℕ) (out : List U8) (made : List WriteOutcome)
    (brought : List ReadOutcome) (n : ℕ) (t : Transfer) : Prop where
  returns : Returns t.ret (total + n)
  sent : (∀ w ∈ made, Good w) → (made = [] ↔ n = 0) ∧ n = (found brought).length ∧
    t.out = out ++ found brought ∧ t.pos = pos + moved own n n
  stuck : (∃ w ∈ made, ¬Good w) → t.ret = cutShort (total + n) ∧ n < (found brought).length ∧
    (brought.length = 1 ↔ n = 0) ∧ pos + (found brought).length ≤ t.pos ∧
      t.pos ≤ pos + moved own (found brought).length (found brought).length

/-- The transfer, with what it has made of the calls that were left. -/
def Tallies (own : Bool) (total pos : ℕ) (out : List U8) (writes : List WriteOutcome)
    (reads : List ReadOutcome) (t : Transfer) : Prop :=
  ∃ made brought n, writes = made ++ t.writes ∧ reads = brought ++ t.reads ∧
    Tally own total pos out made brought n t

lemma found_cons (bytes : List U8) (reads : List ReadOutcome) :
    found (some bytes :: reads) = bytes ++ found reads := rfl

lemma Tallies.cons {own : Bool} {total pos : ℕ} {out bytes : List U8} {reads : List ReadOutcome}
    {made writes : List WriteOutcome} {t : Transfer} (hne : bytes ≠ [])
    (h : Tallies own (total + bytes.length) (pos + moved own bytes.length bytes.length)
      (out ++ bytes) writes reads t) (hgood : ∀ w ∈ made, Good w) (hmade : made ≠ []) :
    Tallies own total pos out (made ++ writes) (some bytes :: reads) t := by
  obtain ⟨made', brought, n, rfl, rfl, hret, hsent, hstuck⟩ := h
  have hpos := length_pos_iff.mpr hne
  have hlen : (found (some bytes :: brought)).length = bytes.length + (found brought).length := by
    rw [found_cons, length_append]
  refine ⟨made ++ made', some bytes :: brought, bytes.length + n, (append_assoc _ _ _).symm, rfl,
    by rwa [← add_assoc], fun hall => ?_, fun hbad => ?_⟩
  · obtain ⟨-, hn, hout, hmove⟩ := hsent fun w hw => hall w (mem_append_right _ hw)
    refine ⟨iff_of_false (by simp [hmade]) (by omega), by rw [hlen, hn], ?_, ?_⟩
    · rw [hout, found_cons, append_assoc]
    · rw [hmove, moved_add, add_assoc]
  · obtain ⟨w, hw, hwbad⟩ := hbad
    have hw' : w ∈ made' := (mem_append.mp hw).resolve_left fun hm => hwbad (hgood w hm)
    obtain ⟨hshort, hn, -, hlow, hhigh⟩ := hstuck ⟨w, hw', hwbad⟩
    have hsome : 0 < brought.length := by
      refine length_pos_iff.mpr ?_
      rintro rfl
      exact absurd hn (not_lt_zero n)
    have hmin : bytes.length ≤ moved own bytes.length bytes.length := by
      cases own
      · exact le_rfl
      · exact le_add_right _ _
    rw [hlen, moved_add, length_cons]
    exact ⟨by rwa [← add_assoc], by omega, ⟨fun h1 => by omega, fun h0 => by omega⟩, by omega,
      by omega⟩

variable {pos p n : ℕ} {off : U32} {reads rest : List ReadOutcome} {writes : List WriteOutcome}
  {ret : ℤ} {out : List U8}

end OpenHobbyOS.Libc
