/-
# Ring buffers with one free slot

A ring of size `N` is empty when its read position `head` and its write position `tail` agree, so at
most `N - 1` elements are stored.  Both copy loops move the longest contiguous piece at a time.  A
ring behaves like a queue: a write appends the longest prefix that fits, a read removes a prefix.
-/
import Mathlib.Tactic

namespace OpenHobbyOS.Lib

open List Nat

/-- A ring: the array, the position of the next read and that of the next write. -/
structure RingBuffer (α : Type) where
  buf : ℕ → α
  head : ℕ
  tail : ℕ

namespace RingBuffer

variable {α : Type}
variable {N : ℕ}

/-- Both positions are inside an array of size `N`. -/
structure InBounds (N : ℕ) (r : RingBuffer α) : Prop where
  head_lt : r.head < N
  tail_lt : r.tail < N

/-- The number of stored elements. -/
def used (N : ℕ) (r : RingBuffer α) : ℕ :=
  if r.head ≤ r.tail then r.tail - r.head else (N - r.head) + r.tail

/-- The number of elements that still fit. -/
def available (N : ℕ) (r : RingBuffer α) : ℕ := N - used N r - 1

/-- Copy `xs` into an array from position `t` on. -/
def blit (buf : ℕ → α) (t : ℕ) (xs : List α) : ℕ → α :=
  fun j => if t ≤ j then (xs[j - t]?).getD (buf j) else buf j

/-- The `n` elements of an array from position `h` on. -/
def slice (buf : ℕ → α) (h n : ℕ) : List α := (List.range n).map fun k => buf (h + k)

/-- The copy loop of a write.  Each pass stores at least one element, so `toWrite` units
of fuel are enough (`writeLoop_spec`). -/
def writeLoop (N : ℕ) (src : List α) (toWrite : ℕ) : ℕ → RingBuffer α → ℕ → RingBuffer α × ℕ
  | 0, r, written => (r, written)
  | fuel + 1, r, written =>
    if written < toWrite then
      let chunk := min (N - r.tail) (toWrite - written)
      writeLoop N src toWrite fuel
        ⟨blit r.buf r.tail ((src.drop written).take chunk), r.head, (r.tail + chunk) % N⟩
        (written + chunk)
    else (r, written)

/-- Write as much of `src` as fits. -/
def write (N : ℕ) (r : RingBuffer α) (src : List α) : RingBuffer α × ℕ :=
  if available N r = 0 then (r, 0)
  else
    let toWrite := min src.length (available N r)
    writeLoop N src toWrite toWrite r 0

/-- The copy loop of a read, with the elements copied so far. -/
def readLoop (N : ℕ) (toRead : ℕ) : ℕ → RingBuffer α → List α → RingBuffer α × List α
  | 0, r, dest => (r, dest)
  | fuel + 1, r, dest =>
    if dest.length < toRead then
      let chunk := min (N - r.head) (toRead - dest.length)
      readLoop N toRead fuel ⟨r.buf, (r.head + chunk) % N, r.tail⟩
        (dest ++ slice r.buf r.head chunk)
    else (r, dest)

/-- Read at most `length` elements. -/
def read (N : ℕ) (r : RingBuffer α) (length : ℕ) : RingBuffer α × List α :=
  if used N r = 0 then (r, [])
  else
    let toRead := min length (used N r)
    readLoop N toRead toRead r []

/-- The stored elements, oldest first. -/
def contents (N : ℕ) (r : RingBuffer α) : List α :=
  (List.range (used N r)).map fun k => r.buf ((r.head + k) % N)

/-! ## Positions and counts -/

@[simp] lemma length_slice (buf : ℕ → α) (h n : ℕ) : (slice buf h n).length = n := by
  simp [slice]

@[simp] lemma length_contents (N : ℕ) (r : RingBuffer α) : (contents N r).length = used N r := by
  simp [contents]

lemma mod_wrap {a : ℕ} (h : a < 2 * N) : a % N = if a < N then a else a - N := by
  split
  · exact mod_eq_of_lt ‹_›
  · rw [mod_eq_sub_mod (by omega)]
    exact mod_eq_of_lt (by omega)

lemma used_lt {r : RingBuffer α} (h : InBounds N r) : used N r < N := by
  obtain ⟨hh, ht⟩ := h
  unfold used
  split <;> omega

lemma used_add_available {r : RingBuffer α} (h : InBounds N r) :
    used N r + available N r = N - 1 := by
  have := used_lt h
  unfold available
  omega

lemma head_eq_tail_iff {r : RingBuffer α} (h : InBounds N r) :
    r.head = r.tail ↔ used N r = 0 := by
  obtain ⟨hh, ht⟩ := h
  unfold used
  split <;> omega

lemma succ_tail_eq_head_iff {r : RingBuffer α} (h : InBounds N r) :
    (r.tail + 1) % N = r.head ↔ available N r = 0 := by
  obtain ⟨hh, ht⟩ := h
  rw [mod_wrap (by omega)]
  unfold available used
  split_ifs <;> omega

lemma head_add_used {r : RingBuffer α} (h : InBounds N r) :
    (r.head + used N r) % N = r.tail := by
  obtain ⟨hh, ht⟩ := h
  have hu : used N r < N := used_lt ⟨hh, ht⟩
  rw [mod_wrap (by omega)]
  unfold used at *
  split_ifs at * <;> omega

lemma contents_congr {r r' : RingBuffer α} (h : InBounds N r) (hhead : r.head = r'.head)
    (htail : r.tail = r'.tail) (hbuf : ∀ i < N, r.buf i = r'.buf i) :
    contents N r = contents N r' := by
  have hused : used N r = used N r' := by rw [used, used, hhead, htail]
  rw [contents, contents, hused, hhead]
  exact map_congr_left fun i _ => hbuf _ (mod_lt _ (zero_lt_of_lt h.head_lt))

/-! ## One pass of the write loop -/

section Push

variable {N : ℕ} {r : RingBuffer α}

/-- The ring after storing `xs` contiguously at the write position. -/
def push (N : ℕ) (r : RingBuffer α) (xs : List α) : RingBuffer α :=
  ⟨blit r.buf r.tail xs, r.head, (r.tail + xs.length) % N⟩

lemma push_inBounds (h : InBounds N r) (xs : List α) : InBounds N (push N r xs) :=
  ⟨h.head_lt, mod_lt _ (by have := h.head_lt; omega)⟩

lemma used_push (h : InBounds N r) {xs : List α} (hfit : r.tail + xs.length ≤ N)
    (hroom : xs.length ≤ available N r) : used N (push N r xs) = used N r + xs.length := by
  obtain ⟨hh, ht⟩ := h
  have hu := used_lt ⟨hh, ht⟩
  have hmod : (r.tail + xs.length) % N
      = if r.tail + xs.length < N then r.tail + xs.length else r.tail + xs.length - N :=
    mod_wrap (by omega)
  unfold available at hroom
  simp only [used, push, hmod] at *
  split_ifs at * <;> omega

lemma contents_push (h : InBounds N r) {xs : List α} (hfit : r.tail + xs.length ≤ N)
    (hroom : xs.length ≤ available N r) : contents N (push N r xs) = contents N r ++ xs := by
  have hused := used_push h hfit hroom
  have hsum := used_add_available h
  have htail := head_add_used h
  obtain ⟨hh, ht⟩ := h
  apply ext_getElem
  · simp [hused]
  · intro k hk hk'
    have hkl : k < used N r + xs.length := by simpa [hused] using hk
    simp only [contents, getElem_map, getElem_range]
    have hhead : (push N r xs).head = r.head := rfl
    rw [hhead]
    by_cases hlt : k < used N r
    · -- an element that was stored before lies outside the piece just written
      rw [getElem_append_left (by simpa using hlt)]
      simp only [getElem_map, getElem_range]
      have hpos : (r.head + k) % N = if r.head + k < N then r.head + k else r.head + k - N :=
        mod_wrap (by omega)
      have hout : ¬ (r.tail ≤ (r.head + k) % N ∧ (r.head + k) % N < r.tail + xs.length) := by
        rw [hpos]
        unfold used at *
        unfold available used at hroom
        split_ifs at * <;> omega
      change blit r.buf r.tail xs ((r.head + k) % N) = _
      unfold blit
      split
      · rw [getElem?_eq_none (by omega), Option.getD_none]
      · rfl
    · -- the `m`-th new element sits `m` places after the old write position
      rw [getElem_append_right (by simpa using Nat.le_of_not_lt hlt)]
      have hm : k - used N r < xs.length := by omega
      have hpos : (r.head + k) % N = r.tail + (k - used N r) := by
        have hk2 : r.head + k = (r.head + used N r) + (k - used N r) := by omega
        rw [hk2, add_mod, htail, mod_eq_of_lt (a := k - used N r) (by omega),
          mod_eq_of_lt (by omega)]
      rw [hpos]
      change blit r.buf r.tail xs (r.tail + (k - used N r)) = _
      simp [blit, hm]

end Push

/-! ## Writing -/

/-- The write loop stores exactly the requested piece of the source, with as much fuel as
there are elements left to store. -/
lemma writeLoop_spec (N : ℕ) (src : List α) (toWrite : ℕ) (hlen : toWrite ≤ src.length) :
    ∀ (fuel : ℕ) (r : RingBuffer α) (written : ℕ), InBounds N r → written ≤ toWrite →
      toWrite - written ≤ fuel → toWrite - written ≤ available N r →
      ∃ r', writeLoop N src toWrite fuel r written = (r', toWrite) ∧ InBounds N r' ∧
        contents N r' = contents N r ++ (src.drop written).take (toWrite - written) := by
  intro fuel
  induction fuel with
  | zero =>
    intro r written hb hle hfuel _
    have hw : written = toWrite := by omega
    subst hw
    exact ⟨r, rfl, hb, by simp⟩
  | succ fuel ih =>
    intro r written hb hle hfuel hroom
    by_cases hlt : written < toWrite
    · -- one pass: up to the end of the array, then the rest by induction
      set chunk := min (N - r.tail) (toWrite - written) with hchunk
      set piece := (src.drop written).take chunk with hpiece
      have htail := hb.tail_lt
      have hplen : piece.length = chunk := by
        rw [hpiece, length_take, length_drop]
        omega
      have hfit : r.tail + piece.length ≤ N := by omega
      have hpr : piece.length ≤ available N r := by omega
      have hb' : InBounds N (push N r piece) := push_inBounds hb piece
      have hused := used_push hb hfit hpr
      have hsum := used_add_available hb
      have hsum' := used_add_available hb'
      obtain ⟨r', hrun, hbr', hc⟩ := ih (push N r piece) (written + chunk) hb' (by omega)
        (by omega) (by omega)
      refine ⟨r', ?_, hbr', ?_⟩
      · rw [writeLoop, if_pos hlt]
        simpa only [push, hplen] using hrun
      · rw [hc, contents_push hb hfit hpr, append_assoc, hpiece]
        congr 1
        rw [← drop_drop, show toWrite - written = chunk + (toWrite - (written + chunk)) by omega,
          take_add]
    · have hw : written = toWrite := by omega
      subst hw
      exact ⟨r, by rw [writeLoop, if_neg hlt], hb, by simp⟩

/-- **A write appends the longest prefix that fits.** -/
theorem write_spec {N : ℕ} {r : RingBuffer α} (hb : InBounds N r) (src : List α) :
    InBounds N (write N r src).1 ∧
      (write N r src).2 = min src.length (available N r) ∧
      contents N (write N r src).1 = contents N r ++ src.take (write N r src).2 := by
  by_cases h0 : available N r = 0
  · have hw : write N r src = (r, 0) := by rw [write, if_pos h0]
    rw [hw, h0]
    exact ⟨hb, by simp, by simp⟩
  · obtain ⟨r', hrun, hb', hc⟩ := writeLoop_spec N src
      (min src.length (available N r)) (by omega) (min src.length (available N r)) r 0
      hb (by omega) (by omega) (by omega)
    have hw : write N r src = (r', min src.length (available N r)) := by
      rw [write, if_neg h0]
      exact hrun
    rw [hw]
    exact ⟨hb', rfl, by simpa using hc⟩

/-! ## Reading -/

section Pop

variable {N : ℕ} {r : RingBuffer α}

/-- The ring after the read position has advanced by `n`. -/
def pop (N : ℕ) (r : RingBuffer α) (n : ℕ) : RingBuffer α := ⟨r.buf, (r.head + n) % N, r.tail⟩

lemma pop_inBounds (h : InBounds N r) (n : ℕ) : InBounds N (pop N r n) :=
  ⟨mod_lt _ (by have := h.head_lt; omega), h.tail_lt⟩

lemma used_pop (h : InBounds N r) {n : ℕ} (hfit : r.head + n ≤ N) (hn : n ≤ used N r) :
    used N (pop N r n) = used N r - n := by
  obtain ⟨hh, ht⟩ := h
  have hmod : (r.head + n) % N = if r.head + n < N then r.head + n else r.head + n - N :=
    mod_wrap (by omega)
  simp only [used, pop, hmod] at *
  split_ifs at * <;> omega

lemma contents_pop (h : InBounds N r) {n : ℕ} (hfit : r.head + n ≤ N) (hn : n ≤ used N r) :
    contents N r = slice r.buf r.head n ++ contents N (pop N r n) := by
  have hused := used_pop h hfit hn
  have hlt := used_lt h
  apply ext_getElem
  · simp only [length_contents, length_append, length_slice, hused]
    omega
  · intro k hk hk'
    have hku : k < used N r := by simpa using hk
    by_cases hkn : k < n
    · rw [getElem_append_left (by simpa using hkn)]
      simp only [contents, slice, getElem_map, getElem_range]
      rw [mod_eq_of_lt (by omega)]
    · rw [getElem_append_right (by simpa using Nat.le_of_not_lt hkn)]
      simp only [contents, getElem_map, getElem_range, length_slice, pop]
      have hk2 : r.head + k = (r.head + n) + (k - n) := by omega
      rw [hk2, mod_add_mod]

end Pop

lemma readLoop_spec (N toRead : ℕ) :
    ∀ (fuel : ℕ) (r : RingBuffer α) (dest : List α), InBounds N r → dest.length ≤ toRead →
      toRead - dest.length ≤ fuel → toRead - dest.length ≤ used N r →
      ∃ r', readLoop N toRead fuel r dest
          = (r', dest ++ (contents N r).take (toRead - dest.length)) ∧ InBounds N r' ∧
        contents N r' = (contents N r).drop (toRead - dest.length) := by
  intro fuel
  induction fuel with
  | zero =>
    intro r dest hb hle hfuel _
    have h0 : toRead - dest.length = 0 := by omega
    exact ⟨r, by simp [readLoop, h0], hb, by simp [h0]⟩
  | succ fuel ih =>
    intro r dest hb hle hfuel hroom
    by_cases hlt : dest.length < toRead
    · set chunk := min (N - r.head) (toRead - dest.length) with hchunk
      have hhead := hb.head_lt
      have hfit : r.head + chunk ≤ N := by omega
      have hcu : chunk ≤ used N r := by omega
      have hb' : InBounds N (pop N r chunk) := pop_inBounds hb chunk
      have hused := used_pop hb hfit hcu
      have hsplit := contents_pop hb hfit hcu
      have hdl : (dest ++ slice r.buf r.head chunk).length = dest.length + chunk := by simp
      obtain ⟨r', hrun, hbr', hc⟩ := ih (pop N r chunk) (dest ++ slice r.buf r.head chunk) hb'
        (by omega) (by omega) (by omega)
      have hrest : toRead - dest.length = chunk + (toRead - (dest.length + chunk)) := by omega
      have htake : (contents N r).take (toRead - dest.length) = slice r.buf r.head chunk
          ++ (contents N (pop N r chunk)).take (toRead - (dest.length + chunk)) := by
        rw [hsplit, hrest, take_append, length_slice,
          take_of_length_le (by simp), Nat.add_sub_cancel_left]
      have hdrop : (contents N r).drop (toRead - dest.length)
          = (contents N (pop N r chunk)).drop (toRead - (dest.length + chunk)) := by
        rw [hsplit, hrest, drop_append, length_slice,
          drop_of_length_le (by simp), Nat.add_sub_cancel_left, nil_append]
      refine ⟨r', ?_, hbr', ?_⟩
      · rw [readLoop, if_pos hlt, htake, ← append_assoc, ← hdl]
        exact hrun
      · rw [hc, hdl, hdrop]
    · have h0 : toRead - dest.length = 0 := by omega
      exact ⟨r, by rw [readLoop, if_neg hlt]; simp [h0], hb, by simp [h0]⟩

lemma length_readLoop_le (N : ℕ) {toRead : ℕ} (fuel : ℕ) (r : RingBuffer α) {dest : List α}
    (h : dest.length ≤ toRead) : (readLoop N toRead fuel r dest).2.length ≤ toRead := by
  induction fuel generalizing r dest with
  | zero => exact h
  | succ fuel ih =>
    rw [readLoop]
    split_ifs
    · refine ih _ ?_
      rw [length_append, length_slice]
      omega
    · exact h

lemma length_read_le (N : ℕ) (r : RingBuffer α) (length : ℕ) :
    (read N r length).2.length ≤ length := by
  rw [read]
  split_ifs
  · exact zero_le _
  · exact (length_readLoop_le N _ r (zero_le _)).trans (min_le_left _ _)

/-- **A read removes a prefix of the stored elements**, as long as the request allows. -/
theorem read_spec {N : ℕ} {r : RingBuffer α} (hb : InBounds N r) (length : ℕ) :
    InBounds N (read N r length).1 ∧
      (read N r length).2 = (contents N r).take length ∧
      contents N (read N r length).1 = (contents N r).drop length := by
  have hlen := length_contents N r
  by_cases h0 : used N r = 0
  · have hr : read N r length = (r, []) := by rw [read, if_pos h0]
    have hnil : contents N r = [] := eq_nil_of_length_eq_zero (by omega)
    rw [hr, hnil]
    exact ⟨hb, by simp, by simp⟩
  · obtain ⟨r', hrun, hb', hc⟩ := readLoop_spec N (min length (used N r))
      (min length (used N r)) r [] hb (by simp) (by simp) (by simp)
    have hr : read N r length = (r', (contents N r).take (min length (used N r))) := by
      rw [read, if_neg h0]
      simpa using hrun
    rw [hr]
    refine ⟨hb', ?_, ?_⟩
    · rw [← hlen, ← take_eq_take_min]
    · rw [hc]
      simp only [length_nil, Nat.sub_zero]
      rw [← hlen, ← drop_eq_drop_min]

end RingBuffer

end OpenHobbyOS.Lib
