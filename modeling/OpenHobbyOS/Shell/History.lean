/-
# The history of the shell

`hist_add` and `read_line` of `user/gosh.c`, one pass of the loop at a time.  Passes that change
nothing are left out, and so is what is drawn apart from the text on the line.  The counters are
natural numbers.
-/
import OpenHobbyOS.Vfs.Tree

namespace OpenHobbyOS.Shell

open Paging Function List Nat

/-- `HIST_MAX`. -/
def histMax : ℕ := 16
/-- `LINE_MAX`. -/
def lineMax : ℕ := 1024

/-- `g_history`, `g_hist_count` and `g_hist_pos`, with the text on the line. -/
structure Editor where
  ring : ℕ → List U8
  count : ℕ
  pos : ℕ
  line : List U8

/-- What a pass reads: the end of the line, a backspace, an arrow, or another byte. -/
inductive Key where
  | enter
  | erase
  | up
  | down
  | char (ch : U8)
  deriving DecidableEq

namespace Editor

/-- `main` before the first line. -/
def start : Editor := ⟨fun _ => [], 0, 0, []⟩

/-- `hist_add`. -/
def histAdd (e : Editor) (line : List U8) : Editor :=
  if line = [] then e
  else if 0 < e.count ∧ e.ring ((e.count - 1) % histMax) = line then e
  else
    { e with
      ring := update e.ring (e.count % histMax) line
      count := e.count + 1
      pos := e.count + 1 }

/-- The entry at `pos` on the line. -/
def putEntry (e : Editor) (pos : ℕ) : Editor :=
  { e with pos := pos, line := e.ring (pos % histMax) }

/-- A pass of `read_line`; behind the end of a line comes the next prompt. -/
def step (e : Editor) : Key → Editor
  | .enter => { e.histAdd e.line with line := [] }
  | .erase => { e with line := e.line.dropLast }
  | .up => if 0 < e.pos ∧ 0 < e.count then e.putEntry (e.pos - 1) else e
  | .down =>
    if e.pos + 1 < e.count then e.putEntry (e.pos + 1)
    else if e.pos + 1 = e.count then { e with pos := e.count, line := [] }
    else e
  | .char ch =>
    if lineMax - 1 ≤ e.line.length ∨ ch < 32 then e else { e with line := e.line ++ [ch] }

/-- The keys one after the other. -/
def run (e : Editor) (keys : List Key) : Editor := keys.foldl step e

/-- The lines entered by the keys. -/
def entered (e : Editor) : List Key → List (List U8)
  | [] => []
  | .enter :: keys => e.line :: entered (e.step .enter) keys
  | key :: keys => entered (e.step key) keys

end Editor

/-- The lines worth keeping, the newest first: not empty, and not like the one before. -/
def record (kept : List (List U8)) (line : List U8) : List (List U8) :=
  if line = [] ∨ kept.head? = some line then kept else line :: kept

/-- The text on the line after `k` times Up. -/
def shown (e : Editor) (k : ℕ) : List U8 := ((·.step .up)^[k] e).line

/-- What the arrows should do at a fresh prompt, with the given lines kept. -/
structure Navigates (e : Editor) (kept : List (List U8)) : Prop where
  recent : ∀ k < kept.length, k < histMax → kept[k]? = some (shown e (k + 1))
  oldest : ∀ k, min kept.length histMax ≤ k → shown e k = shown e (min kept.length histMax)
  undo : ∀ k < kept.length, k < histMax →
    (((·.step .up)^[k + 1] e).step .down).line = shown e k

/-! ## What every session keeps -/

/-- The ring holds the newest lines that were kept. -/
structure Keeps (e : Editor) (kept : List (List U8)) : Prop where
  count : e.count = kept.length
  pos : e.pos ≤ e.count
  ring : ∀ k < kept.length, k < histMax →
    kept[k]? = some (e.ring ((e.count - 1 - k) % histMax))
  nonempty : ∀ line ∈ kept, line ≠ []
  apart : kept.IsChain (· ≠ ·)

namespace Keeps

variable {e : Editor} {kept : List (List U8)}

lemma start : Keeps .start [] :=
  ⟨rfl, le_rfl, fun k hk => absurd hk (not_lt_zero k), by simp, .nil⟩

lemma congr (h : Keeps e kept) {e' : Editor} (hring : e'.ring = e.ring)
    (hcount : e'.count = e.count) (hpos : e'.pos ≤ e'.count) : Keeps e' kept where
  count := hcount.trans h.count
  pos := hpos
  ring := by
    rw [hring, hcount]
    exact h.ring
  nonempty := h.nonempty
  apart := h.apart

lemma histAdd (h : Keeps e kept) (line : List U8) :
    Keeps (e.histAdd line) (record kept line) := by
  have hlast : 0 < e.count → kept.head? = some (e.ring ((e.count - 1) % histMax)) := by
    intro hpos
    rw [head?_eq_getElem?]
    exact h.ring 0 (h.count ▸ hpos) (by decide)
  have hrepeat : (0 < e.count ∧ e.ring ((e.count - 1) % histMax) = line) ↔
      kept.head? = some line := by
    constructor
    · rintro ⟨hpos, rfl⟩
      exact hlast hpos
    · intro hhead
      have hpos : 0 < e.count := by
        rw [h.count, length_pos_iff]
        rintro rfl
        cases hhead
      exact ⟨hpos, Option.some.inj ((hlast hpos).symm.trans hhead)⟩
  by_cases hempty : line = []
  · rw [Editor.histAdd, record, if_pos hempty, if_pos (.inl hempty)]
    exact h
  rw [Editor.histAdd, record, if_neg hempty]
  simp only [hrepeat, hempty, false_or]
  split_ifs with hsame
  · exact h
  have hcount := h.count
  refine ⟨congrArg (· + 1) hcount, le_rfl, fun k hk hmax => ?_, ?_, ?_⟩
  · -- the newest line is in the slot just written, the others in theirs
    cases k with
    | zero => simp
    | succ k =>
      rw [length_cons] at hk
      have hslot : (e.count + 1 - 1 - (k + 1)) % histMax ≠ e.count % histMax := by
        simp only [histMax] at hmax ⊢
        omega
      show kept[k]? = some (update e.ring (e.count % histMax) line _)
      rw [update_of_ne hslot, h.ring k (by omega) (by omega)]
      congr 3
      omega
  · rintro l (_ | ⟨_, hl⟩)
    · exact hempty
    · exact h.nonempty l hl
  · refine isChain_cons.mpr ⟨fun l hl heq => hsame ?_, h.apart⟩
    rw [heq]
    exact hl

lemma enter (h : Keeps e kept) : Keeps (e.step .enter) (record kept e.line) :=
  (h.histAdd e.line).congr rfl rfl (h.histAdd e.line).pos

lemma step (h : Keeps e kept) {key : Key} (hkey : key ≠ .enter) : Keeps (e.step key) kept := by
  have hpos := h.pos
  cases key with
  | enter => exact absurd rfl hkey
  | erase => exact h.congr rfl rfl hpos
  | up =>
    rw [Editor.step]
    split_ifs
    · exact h.congr rfl rfl ((sub_le _ _).trans hpos)
    · exact h
  | down =>
    rw [Editor.step]
    split_ifs with hlt
    · exact h.congr rfl rfl hlt.le
    · exact h.congr rfl rfl le_rfl
    · exact h
  | char ch =>
    rw [Editor.step]
    split_ifs
    · exact h
    · exact h.congr rfl rfl hpos

/-- **The ring after any keys.** -/
theorem run (h : Keeps e kept) (keys : List Key) :
    Keeps (e.run keys) ((e.entered keys).foldl record kept) := by
  induction keys generalizing e kept with
  | nil => exact h
  | cons key keys ih =>
    cases key with
    | enter => exact ih h.enter
    | erase | up | down | char => exact ih (h.step Key.noConfusion)

lemma ring_mem (h : Keeps e kept) {j : ℕ} (hj : j < e.count) : e.ring (j % histMax) ∈ kept := by
  have hcount := h.count
  have hslot := h.ring ((e.count - 1 - j) % histMax)
    (by have := mod_le (e.count - 1 - j) histMax; omega) (mod_lt _ (by decide))
  have hsame : (e.count - 1 - (e.count - 1 - j) % histMax) % histMax = j % histMax := by
    simp only [histMax]
    omega
  rw [hsame] at hslot
  exact mem_of_getElem? hslot

end Keeps

/-! ## Up and Down -/

section Arrows

variable {e : Editor} {kept : List (List U8)}

lemma step_up (h : 0 < e.pos) (hpos : e.pos ≤ e.count) :
    e.step .up = e.putEntry (e.pos - 1) := if_pos ⟨h, by omega⟩

lemma step_up_zero (h : e.pos = 0) : e.step .up = e := if_neg (by omega)

lemma iterate_up (h : e.pos ≤ e.count) {k : ℕ} (hk : k < e.pos) :
    (·.step .up)^[k + 1] e = e.putEntry (e.pos - (k + 1)) := by
  induction k with
  | zero => exact step_up hk h
  | succ k ih =>
    rw [iterate_succ_apply', ih (by omega), step_up]
    · rfl
    · show 0 < e.pos - (k + 1)
      omega
    · show e.pos - (k + 1) ≤ e.count
      omega

lemma shown_succ (h : e.pos ≤ e.count) {k : ℕ} (hk : k < e.pos) :
    shown e (k + 1) = e.ring ((e.pos - (k + 1)) % histMax) := by
  rw [shown, iterate_up h hk]
  rfl

lemma shown_of_le (h : e.pos ≤ e.count) {k : ℕ} (hk : e.pos ≤ k) : shown e k = shown e e.pos := by
  have hfixed : ((·.step .up)^[e.pos] e).step .up = (·.step .up)^[e.pos] e := by
    rcases Nat.eq_zero_or_pos e.pos with h0 | hpos
    · rw [h0]
      exact step_up_zero h0
    · obtain ⟨m, hm⟩ := Nat.exists_eq_add_of_lt hpos
      rw [zero_add] at hm
      rw [hm, iterate_up h (by omega)]
      exact step_up_zero (show e.pos - (m + 1) = 0 by omega)
  obtain ⟨m, rfl⟩ := Nat.exists_eq_add_of_le hk
  rw [shown, add_comm, iterate_add_apply, iterate_fixed hfixed, shown]

lemma line_down {p : ℕ} (h : p < e.count) : ((e.putEntry p).step .down).line =
    if p + 1 < e.count then e.ring ((p + 1) % histMax) else [] := by
  by_cases hlt : p + 1 < e.count
  · have hdown : (e.putEntry p).step .down = (e.putEntry p).putEntry (p + 1) := if_pos hlt
    rw [hdown, if_pos hlt]
    rfl
  · have hdown : (e.putEntry p).step .down = { e with pos := e.count, line := [] } :=
      (if_neg hlt).trans (if_pos (show p + 1 = e.count by omega))
    rw [hdown, if_neg hlt]

lemma navigates_of (h : Keeps e kept) (hline : e.line = []) (hpos : e.pos = e.count)
    (hfull : e.count ≤ histMax ∨ e.count = histMax + 1 ∧ kept[0]? = kept[15]?) :
    Navigates e kept := by
  have hle := h.pos
  have hcount := h.count
  have hrecent : ∀ k < kept.length, k < histMax → kept[k]? = some (shown e (k + 1)) := by
    intro k hk hmax
    rw [h.ring k hk hmax, shown_succ hle (by omega), hpos]
    congr 3
    omega
  refine ⟨hrecent, fun k hk => ?_, fun k hk hmax => ?_⟩
  · rcases hfull with hshort | ⟨hfull, hsame⟩
    · rw [min_eq_left (by omega)] at hk ⊢
      rw [shown_of_le hle (by omega), hpos, hcount]
    · rw [min_eq_right (by omega)] at hk ⊢
      rcases eq_or_lt_of_le hk with rfl | hlt
      · rfl
      · -- the 17th Up shows the newest line again
        have hlast : shown e (histMax + 1) = shown e histMax := by
          have hnew := h.ring 0 (by omega) (by decide)
          rw [hsame, hrecent 15 (by rw [← hcount, hfull]; decide) (by decide), hfull] at hnew
          rw [shown_succ hle (by omega), hpos, hfull]
          exact (Option.some.inj hnew).symm
        rw [shown_of_le hle (by omega), hpos, hfull, hlast]
  · rw [iterate_up hle (by omega)]
    rw [line_down (by omega)]
    cases k with
    | zero => rw [if_neg (by omega), shown, iterate_zero_apply, hline]
    | succ k =>
      have hnext : e.pos - (k + 1 + 1) + 1 = e.pos - (k + 1) := by omega
      rw [hnext, if_pos (by omega), shown_succ hle (by omega)]

/-- The first Up and the Down behind it show where the position is, the 17th and 18th Up whether the
ring has gone round. -/
lemma Navigates.full (h : Keeps e kept) (hline : e.line = []) (hn : Navigates e kept) :
    e.pos = e.count ∧
      (e.count ≤ histMax ∨ e.count = histMax + 1 ∧ kept[0]? = kept[15]?) := by
  have hle := h.pos
  have hcount := h.count
  have hmax : histMax = 16 := rfl
  have hpos : e.pos = e.count := by
    rcases Nat.eq_zero_or_pos e.count with h0 | hcount0
    · omega
    have hfirst := hn.recent 0 (by omega) (by decide)
    have hpos0 : 0 < e.pos := by
      by_contra h0
      rw [shown_of_le hle (by omega), Nat.eq_zero_of_not_pos h0] at hfirst
      exact h.nonempty _ (mem_of_getElem? hfirst) hline
    by_contra hne
    have hundo := hn.undo 0 (by omega) (by decide)
    rw [iterate_up hle hpos0, line_down (by omega), Nat.zero_add, Nat.sub_add_cancel hpos0,
      if_pos (by omega)] at hundo
    exact h.nonempty _ (h.ring_mem (lt_of_le_of_ne hle hne)) (hundo.trans hline)
  refine ⟨hpos, ?_⟩
  rcases lt_or_ge histMax e.count with hfull | hshort
  · right
    -- the Up number 16 + k shows the k-th newest line again
    have hround : ∀ k < 2, k + histMax < e.count → kept[k]? = some (shown e histMax) := by
      intro k hk hlt
      have hold := hn.oldest (k + histMax + 1) (by omega)
      rw [min_eq_right (by omega), shown_succ hle (by omega), hpos] at hold
      rw [h.ring k (by omega) (by omega), ← hold]
      congr 2
      rw [show e.count - 1 - k = e.count - (k + histMax + 1) + histMax by omega,
        add_mod_right]
    have hsame := hround 0 (by decide) (by omega)
    refine ⟨?_, hsame.trans (hn.recent 15 (by omega) (by decide)).symm⟩
    by_contra hmore
    have hsame' := hround 1 (by decide) (by omega)
    rcases kept with _ | ⟨a, _ | ⟨b, rest⟩⟩
    · cases hsame
    · cases hsame'
    · exact (isChain_cons_cons.mp h.apart).1 (Option.some.inj (hsame.trans hsame'.symm))
  · exact .inl hshort

end Arrows

/-- The lines kept of those entered by the keys. -/
def kept (keys : List Key) : List (List U8) := (Editor.start.entered keys).foldl record []

/-- **Up and Down at a fresh prompt.**  The arrows go through the last 16 lines kept if and only if
the position is at the end of the history and at most 16 lines were kept, or 17 of which the newest
is like the oldest one still there. -/
theorem history_navigates_iff {keys : List Key} (h : (Editor.start.run keys).line = []) :
    Navigates (.run .start keys) (kept keys) ↔
      (Editor.start.run keys).pos = (Editor.start.run keys).count ∧
      ((Editor.start.run keys).count ≤ histMax ∨
        (Editor.start.run keys).count = histMax + 1 ∧ (kept keys)[0]? = (kept keys)[15]?) := by
  have hkeeps : Keeps (.run .start keys) (kept keys) := Keeps.start.run keys
  constructor
  · exact Navigates.full hkeeps h
  · rintro ⟨hpos, hfull⟩
    exact navigates_of hkeeps h hpos hfull

theorem history_navigates_iff_one :
    Navigates (.run .start [.char 0x61, .enter]) (kept [.char 0x61, .enter]) :=
  (history_navigates_iff rfl).mpr (by decide)

/-- The line `b` entered, then `a`, and so on in turns. -/
def turns : ℕ → List Key
  | 0 => []
  | n + 1 => (if n % 2 = 0 then .char 0x61 else .char 0x62) :: .enter :: turns n

/-- When the last line is entered again from the history, the next Up goes on from where the
position was; and with 18 lines the 17th Up shows the newest line again. -/
theorem history_lost :
    kept [.char 0x61, .enter, .up, .enter] = [[0x61]] ∧
    shown (.run .start [.char 0x61, .enter, .up, .enter]) 1 = [] ∧
    kept (turns 18) = (List.range 18).map (fun n => if n % 2 = 0 then [0x61] else [0x62]) ∧
    shown (.run .start (turns 18)) 16 = [0x62] ∧ shown (.run .start (turns 18)) 17 = [0x61] := by
  decide +kernel

end OpenHobbyOS.Shell
