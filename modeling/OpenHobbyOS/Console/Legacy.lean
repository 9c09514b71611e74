/-
# The text console

`legacy_putc` of `src/console.c` on the 25 rows of the VGA text buffer, beside a `Terminal` with
rows without end.  They differ in the characters from `0x80` on: `char` is signed, and `vga_entry`
extends the sign over the colour.
-/
import OpenHobbyOS.Lib.Run
import OpenHobbyOS.Paging.Entry

namespace OpenHobbyOS.Console

open Lib List Nat Function

/-! ## The code -/

/-- `VGA_WIDTH`. -/
def vgaWidth : ℕ := 80
/-- `VGA_HEIGHT`. -/
def vgaHeight : ℕ := 25

/-- A line feed. -/
def newline : U8 := 0x0A
/-- A carriage return. -/
def carriageReturn : U8 := 0x0D
/-- A tab. -/
def tab : U8 := 0x09
/-- A backspace. -/
def backspace : U8 := 0x08
/-- A blank. -/
def space : U8 := 0x20

/-- The cells of the VGA buffer and what is behind them, and the cursor. -/
structure Screen where
  cells : ℕ → BitVec 16
  row : ℕ
  col : ℕ

/-- `vga_entry`. -/
def vgaEntry (ch color : U8) : BitVec 16 := ch.signExtend 16 ||| color.setWidth 16 <<< 8

/-- A write to the cell under the cursor, `none` outside the buffer. -/
def Screen.store (s : Screen) (cell : BitVec 16) : Option Screen :=
  let i := s.row * vgaWidth + s.col
  if i < vgaHeight * vgaWidth then some { s with cells := update s.cells i cell } else none

/-- `legacy_scroll_if_needed`. -/
def legacyScrollIfNeeded (color : U8) (s : Screen) : Screen :=
  if s.row < vgaHeight then s
  else
    { s with
      cells := fun i =>
        if i < (vgaHeight - 1) * vgaWidth then s.cells (i + vgaWidth)
        else if i < vgaHeight * vgaWidth then vgaEntry space color
        else s.cells i
      row := vgaHeight - 1 }

/-- `legacy_clear`. -/
def legacyClear (color : U8) (s : Screen) : Screen :=
  ⟨fun i => if i < vgaWidth * vgaHeight then vgaEntry space color else s.cells i, 0, 0⟩

/-- `if (cursor_col >= VGA_WIDTH) { cursor_col = 0; cursor_row++; }`. -/
def Screen.wrap (s : Screen) : Screen :=
  if vgaWidth ≤ s.col then { s with row := s.row + 1, col := 0 } else s

/-- Where `'\b'` moves the cursor. -/
def Screen.back (s : Screen) : Screen :=
  if 0 < s.col then { s with col := s.col - 1 }
  else if 0 < s.row then { s with row := s.row - 1, col := vgaWidth - 1 }
  else s

/-- The `switch` of `legacy_putc`; `& ~3u` cuts to a multiple of 4. -/
def legacyAct (color : U8) (s : Screen) (ch : U8) : Option Screen :=
  if ch = newline then some { s with row := s.row + 1, col := 0 }
  else if ch = carriageReturn then some { s with col := 0 }
  else if ch = tab then some { s with col := (s.col + 4) / 4 * 4 }.wrap
  else if ch = backspace then s.back.store (vgaEntry space color)
  else (s.store (vgaEntry ch color)).map fun s => { s with col := s.col + 1 }.wrap

/-- `legacy_putc`. -/
def legacyPutc (color : U8) (s : Screen) (ch : U8) : Option Screen :=
  (legacyAct color s ch).map (legacyScrollIfNeeded color)

/-! ## The ideal terminal -/

/-- Rows of characters without end, the cursor, and the last row so far. -/
structure Terminal where
  text : ℕ → ℕ → U8
  row : ℕ
  col : ℕ
  bottom : ℕ

namespace Terminal

/-- A terminal with nothing on it. -/
def cleared : Terminal := ⟨fun _ _ => space, 0, 0, vgaHeight - 1⟩

/-- The first row that is seen. -/
def top (t : Terminal) : ℕ := t.bottom - (vgaHeight - 1)

/-- A character under the cursor. -/
def write (t : Terminal) (ch : U8) : Terminal :=
  { t with text := update t.text t.row (update (t.text t.row) t.col ch) }

lemma text_write (t : Terminal) (ch : U8) (r c : ℕ) :
    (t.write ch).text r c = if r = t.row ∧ c = t.col then ch else t.text r c := by
  simp only [write, update_apply]
  by_cases hr : r = t.row
  · subst hr
    simp [update_apply]
  · simp [hr]

/-- Behind the end of a row comes the next. -/
def wrap (t : Terminal) : Terminal :=
  if vgaWidth ≤ t.col then { t with row := t.row + 1, col := 0 } else t

/-- A backspace. -/
def back (t : Terminal) : Terminal :=
  if 0 < t.col then { t with col := t.col - 1 }
  else if t.top < t.row then { t with row := t.row - 1, col := vgaWidth - 1 }
  else t

/-- What a character does. -/
def act (t : Terminal) (ch : U8) : Terminal :=
  if ch = newline then { t with row := t.row + 1, col := 0 }
  else if ch = carriageReturn then { t with col := 0 }
  else if ch = tab then { t with col := (t.col / 4 + 1) * 4 }.wrap
  else if ch = backspace then t.back.write space
  else wrap { t.write ch with col := t.col + 1 }

/-- A row below the last one is a new last row. -/
def put (t : Terminal) (ch : U8) : Terminal :=
  { t.act ch with bottom := max t.bottom (t.act ch).row }

end Terminal

/-- The cell of a character in a colour. -/
def entry (ch color : U8) : BitVec 16 := ch.setWidth 16 ||| color.setWidth 16 <<< 8

/-- The buffer is what is seen of the terminal. -/
def Seen (color : U8) (s : Screen) (t : Terminal) : Prop :=
  ∀ r < vgaHeight, ∀ c < vgaWidth,
    s.cells (r * vgaWidth + c) = entry (t.text (t.top + r) c) color

/-! ## Where the characters stand -/

/-- The cursors agree, and so does every cell; the cursor may be one row below the last. -/
structure Near (color : U8) (s : Screen) (t : Terminal) : Prop where
  row : t.row = t.top + s.row
  row_le : s.row ≤ vgaHeight
  col : t.col = s.col
  col_lt : s.col < vgaWidth
  bottom : vgaHeight - 1 ≤ t.bottom
  cells : ∀ r < vgaHeight, ∀ c < vgaWidth,
    s.cells (r * vgaWidth + c) = vgaEntry (t.text (t.top + r) c) color
  below : ∀ r, t.bottom < r → ∀ c, t.text r c = space

/-- The cursor is in the window. -/
structure Shows (color : U8) (s : Screen) (t : Terminal) : Prop extends Near color s t where
  row_lt : s.row < vgaHeight

variable {color : U8} {s : Screen} {t : Terminal}

lemma Near.move (h : Near color s t) (row col : ℕ) (hrow : row ≤ vgaHeight)
    (hcol : col < vgaWidth) :
    Near color ⟨s.cells, row, col⟩ ⟨t.text, t.top + row, col, t.bottom⟩ :=
  ⟨rfl, hrow, rfl, hcol, h.bottom, h.cells, h.below⟩

lemma Shows.store (h : Shows color s t) (ch : U8) :
    ∃ cells, s.store (vgaEntry ch color) = some ⟨cells, s.row, s.col⟩ ∧
      Shows color ⟨cells, s.row, s.col⟩ (t.write ch) := by
  obtain ⟨⟨hrow, -, hcol, hcol_lt, hbottom, hcells, hbelow⟩, hrow_lt⟩ := h
  have hinside : s.row * vgaWidth + s.col < vgaHeight * vgaWidth := by
    simp only [vgaWidth, vgaHeight] at *
    omega
  refine ⟨_, if_pos hinside, ⟨hrow, hrow_lt.le, hcol, hcol_lt, hbottom, ?_, ?_⟩, hrow_lt⟩
  · intro r hr c hc
    have hplace : r * vgaWidth + c = s.row * vgaWidth + s.col ↔
        t.top + r = t.row ∧ c = t.col := by
      simp only [vgaWidth] at *
      omega
    show update s.cells _ _ _ = vgaEntry ((t.write ch).text (t.top + r) c) color
    rw [update_apply, Terminal.text_write]
    simp only [hplace]
    split_ifs
    · rfl
    · exact hcells r hr c hc
  · intro r hr c
    have hlt : t.bottom < r := hr
    have hne : r ≠ t.row := by
      simp only [Terminal.top, vgaHeight] at *
      omega
    rw [Terminal.text_write, if_neg fun h => hne h.1]
    exact hbelow r hr c

lemma Shows.wrap (h : Shows color s t) (col : ℕ) :
    Near color (Screen.wrap ⟨s.cells, s.row, col⟩)
      (Terminal.wrap ⟨t.text, t.row, col, t.bottom⟩) := by
  simp only [Screen.wrap, Terminal.wrap]
  split_ifs with hfull
  · have := h.move (s.row + 1) 0 h.row_lt (by decide)
    rwa [← add_assoc, ← h.row] at this
  · have := h.move _ _ h.row_lt.le (not_le.mp hfull)
    rwa [← h.row] at this

lemma Shows.back (h : Shows color s t) : Shows color s.back t.back := by
  have hrow := h.row
  have hrow_lt := h.row_lt
  have hcol := h.col
  have hcol_lt := h.col_lt
  simp only [Screen.back, Terminal.back, hcol]
  split_ifs with hpos hup hup' hup'
  · have := h.move _ (s.col - 1) hrow_lt.le (by omega)
    rw [← hrow] at this
    exact ⟨this, hrow_lt⟩
  · have := h.move (s.row - 1) (vgaWidth - 1) (by omega) (by decide)
    rw [show t.top + (s.row - 1) = t.row - 1 by omega] at this
    exact ⟨this, (by omega : s.row - 1 < vgaHeight)⟩
  · omega
  · omega
  · exact h

lemma Shows.act (h : Shows color s t) (ch : U8) :
    ∃ s', legacyAct color s ch = some s' ∧ Near color s' (t.act ch) := by
  have hrow := h.row
  have hrow_lt := h.row_lt
  have hcol := h.col
  have hcol_lt := h.col_lt
  simp only [legacyAct, Terminal.act]
  split_ifs with hnl hcr htab hbs
  · refine ⟨_, rfl, ?_⟩
    rw [hrow, add_assoc]
    exact h.move _ _ hrow_lt (by decide)
  · refine ⟨_, rfl, ?_⟩
    rw [hrow]
    exact h.move _ _ hrow_lt.le (by decide)
  · refine ⟨_, rfl, ?_⟩
    rw [hcol, show (s.col / 4 + 1) * 4 = (s.col + 4) / 4 * 4 by omega]
    exact h.wrap _
  · obtain ⟨cells, hstore, hshows⟩ := h.back.store space
    exact ⟨_, hstore, hshows.toNear⟩
  · obtain ⟨cells, hstore, hshows⟩ := h.store ch
    refine ⟨_, by rw [hstore]; rfl, ?_⟩
    rw [hcol]
    exact hshows.wrap _

lemma Terminal.bottom_act (t : Terminal) (ch : U8) : (t.act ch).bottom = t.bottom := by
  simp only [Terminal.act, Terminal.wrap, Terminal.write, Terminal.back]
  split_ifs <;> rfl

lemma Near.scroll (h : Near color s t) :
    Shows color (legacyScrollIfNeeded color s) { t with bottom := max t.bottom t.row } := by
  have hrow := h.row
  have hrow_le := h.row_le
  have hbottom := h.bottom
  rw [legacyScrollIfNeeded]
  split_ifs with hlt
  · have hmax : max t.bottom t.row = t.bottom := by
      simp only [Terminal.top, vgaHeight] at *
      omega
    rw [hmax]
    exact ⟨h, hlt⟩
  have htop : t.top = t.bottom - 24 := rfl
  have hheight : vgaHeight = 25 := rfl
  have hwidth : vgaWidth = 80 := rfl
  rw [show max t.bottom t.row = t.bottom + 1 by omega]
  refine ⟨⟨?_, le_succ 24, h.col, h.col_lt, hbottom.trans (le_succ _),
    fun r hr c hc => ?_, fun r hr c => ?_⟩, lt_succ_self 24⟩
  · show t.row = t.bottom + 1 - 24 + 24
    omega
  · rw [show Terminal.top { t with bottom := t.bottom + 1 } + r = t.top + (r + 1) by
      show t.bottom + 1 - 24 + r = _
      omega]
    show (if _ then _ else _) = _
    by_cases hlast : r + 1 < vgaHeight
    · rw [if_pos (by rw [hheight, hwidth]; omega), ← h.cells _ hlast c hc]
      congr 1
      ring
    · rw [if_neg (by rw [hheight, hwidth]; omega), if_pos (by rw [hheight, hwidth]; omega),
        h.below _ (by omega) c]
  · have hbelow : t.bottom + 1 < r := hr
    exact h.below r (by omega) c

lemma Shows.putc (h : Shows color s t) (ch : U8) :
    ∃ s', legacyPutc color s ch = some s' ∧ Shows color s' (t.put ch) := by
  obtain ⟨s', hact, hnear⟩ := h.act ch
  refine ⟨_, by rw [legacyPutc, hact, Option.map_some], ?_⟩
  have hscroll := hnear.scroll
  rwa [t.bottom_act] at hscroll

lemma Shows.run (h : Shows color s t) (text : List U8) :
    ∃ s', run (legacyPutc color) s text = some s' ∧ Shows color s' (text.foldl Terminal.put t) := by
  induction text generalizing s t with
  | nil => exact ⟨s, rfl, h⟩
  | cons ch text ih =>
    obtain ⟨s₁, hputc, h₁⟩ := h.putc ch
    obtain ⟨s', hrun, h'⟩ := ih h₁
    exact ⟨s', by rw [run_cons_of_eq hputc, hrun], h'⟩

lemma shows_clear (color : U8) (s : Screen) : Shows color (legacyClear color s) .cleared := by
  refine ⟨⟨rfl, zero_le _, rfl, zero_lt_succ 79, le_rfl, fun r hr c hc => if_pos ?_,
    fun _ _ _ => rfl⟩, zero_lt_succ 24⟩
  simp only [vgaHeight, vgaWidth] at *
  omega

/-! ## The cells -/

lemma vgaEntry_eq_entry_iff (ch color : U8) :
    vgaEntry ch color = entry ch color ↔ ch.msb = false ∨ color = 0xFF := by
  cases hmsb : ch.msb with
  | false => simp [vgaEntry, entry, BitVec.signExtend_eq_setWidth_of_msb_false hmsb]
  | true =>
    -- the upper byte of the cell: all ones, and the colour
    have hcode (i : ℕ) (hi : i < 8) : (vgaEntry ch color).getLsbD (8 + i) = true := by
      simp [vgaEntry, BitVec.getLsbD_signExtend, hmsb, show 8 + i < 16 by omega]
    have hcolor (i : ℕ) (hi : i < 8) : (entry ch color).getLsbD (8 + i) = color.getLsbD i := by
      simp [entry, hi, show 8 + i < 16 by omega]
    have hones (i : ℕ) (hi : i < 8) : (0xFF : U8).getLsbD i = true := by
      rw [show (0xFF : U8) = BitVec.allOnes 8 from rfl, BitVec.getLsbD_allOnes, decide_eq_true hi]
    constructor
    · intro h
      refine .inr (BitVec.eq_of_getLsbD_eq fun i hi => ?_)
      rw [← hcolor i hi, ← h, hcode i hi, hones i hi]
    · rintro (h | rfl)
      · cases h
      refine BitVec.eq_of_getLsbD_eq fun i hi => ?_
      by_cases hlow : i < 8
      · simp [vgaEntry, entry, BitVec.getLsbD_signExtend, hlow]
      · obtain ⟨j, rfl⟩ := Nat.exists_eq_add_of_le (not_lt.mp hlow)
        rw [hcode j (by omega), hcolor j (by omega), hones j (by omega)]

lemma Shows.seen_iff (h : Shows color s t) :
    Seen color s t ↔
      ∀ r < vgaHeight, ∀ c < vgaWidth, (t.text (t.top + r) c).msb = false ∨ color = 0xFF := by
  simp only [Seen, ← vgaEntry_eq_entry_iff]
  exact forall₄_congr fun r hr c hc => by rw [h.cells r hr c hc]

namespace Terminal

/-- No character of the text has its highest bit set. -/
def Plain (t : Terminal) : Prop := ∀ r c, (t.text r c).msb = false

lemma text_wrap (t : Terminal) : t.wrap.text = t.text := by
  rw [wrap]
  split_ifs <;> rfl

lemma text_back (t : Terminal) : t.back.text = t.text := by
  rw [back]
  split_ifs <;> rfl

lemma Plain.write {t : Terminal} (h : t.Plain) {ch : U8} (hch : ch.msb = false) :
    (t.write ch).Plain := by
  intro r c
  rw [text_write]
  split_ifs
  · exact hch
  · exact h r c

lemma Plain.put {t : Terminal} (h : t.Plain) {ch : U8} (hch : ch.msb = false) :
    (t.put ch).Plain := by
  intro r c
  show ((t.act ch).text r c).msb = false
  rw [act]
  split_ifs
  · exact h r c
  · exact h r c
  · rw [text_wrap]
    exact h r c
  · exact Plain.write (fun r c => by rw [text_back]; exact h r c) rfl r c
  · rw [text_wrap]
    exact h.write hch r c

/-- Such a character is none of those that only move the cursor, and it can be seen after it
was put. -/
lemma put_of_msb {t : Terminal} {ch : U8} (hch : ch.msb = true) :
    (t.put ch).text t.row t.col = ch ∧ t.bottom ≤ (t.put ch).bottom ∧
      (t.put ch).bottom ≤ max t.bottom (t.row + 1) := by
  have hne {c : U8} (hc : c.msb = false) : ch ≠ c := by
    rintro rfl
    rw [hch] at hc
    cases hc
  have hact : t.act ch = wrap { t.write ch with col := t.col + 1 } := by
    rw [act, if_neg (hne rfl), if_neg (hne rfl), if_neg (hne rfl), if_neg (hne rfl)]
  have hrow : (t.act ch).row ≤ t.row + 1 := by
    rw [hact, wrap]
    split_ifs
    · exact le_rfl
    · exact le_succ _
  refine ⟨?_, le_max_left _ _, max_le_max le_rfl hrow⟩
  show (t.act ch).text _ _ = ch
  rw [hact, text_wrap]
  show (t.write ch).text _ _ = ch
  rw [text_write, if_pos ⟨rfl, rfl⟩]

end Terminal

lemma Shows.not_seen_put (h : Shows color s t) {ch : U8} (hch : ch.msb = true)
    (hcolor : color ≠ 0xFF) {s' : Screen} (h' : Shows color s' (t.put ch)) :
    ¬Seen color s' (t.put ch) := by
  rw [h'.seen_iff]
  intro hall
  obtain ⟨htext, hle, hge⟩ := Terminal.put_of_msb (t := t) hch
  have hrow := h.row
  have hrow_lt := h.row_lt
  have hbottom := h.bottom
  have htop : t.top = t.bottom - 24 := rfl
  have htop' : (t.put ch).top = (t.put ch).bottom - 24 := rfl
  have hheight : vgaHeight = 25 := rfl
  have hplace := hall (t.row - (t.put ch).top) (by omega) t.col (by rw [h.col]; exact h.col_lt)
  rw [show (t.put ch).top + (t.row - (t.put ch).top) = t.row by omega, htext, hch] at hplace
  rcases hplace with h | h
  · cases h
  · exact hcolor h

/-- **The text console.**  The cursor stays in the grid and writes stay in the buffer, which is what
is seen of the ideal terminal after every character exactly if no character has its highest bit set,
or the colour has all its bits set. -/
theorem console_shows_iff (color : U8) (s₀ : Screen) (text : List U8) :
    (∀ pre, pre <+: text → ∃ s, run (legacyPutc color) (legacyClear color s₀) pre = some s ∧
      s.row < vgaHeight ∧ s.col < vgaWidth) ∧
    ((∀ pre, pre <+: text → ∃ s, run (legacyPutc color) (legacyClear color s₀) pre = some s ∧
      Seen color s (pre.foldl Terminal.put .cleared)) ↔
      (∀ ch ∈ text, ch.msb = false) ∨ color = 0xFF) := by
  have hrun := (shows_clear color s₀).run
  refine ⟨fun pre _ => ?_, fun hseen => ?_, fun hplain pre hpre => ?_⟩
  · obtain ⟨s, hs, h⟩ := hrun pre
    exact ⟨s, hs, h.row_lt, h.col_lt⟩
  · by_contra hnot
    simp only [not_or, not_forall] at hnot
    obtain ⟨⟨ch, hmem, hch⟩, hcolor⟩ := hnot
    obtain ⟨pre, rest, rfl⟩ := append_of_mem hmem
    obtain ⟨s, hs, h⟩ := hrun pre
    obtain ⟨s', hs', h'⟩ := hrun (pre ++ [ch])
    obtain ⟨s'', hs'', hseen⟩ := hseen (pre ++ [ch]) ⟨rest, by simp⟩
    obtain rfl : s' = s'' := Option.some.inj (hs'.symm.trans hs'')
    rw [foldl_append, foldl_cons, foldl_nil] at h' hseen
    exact h.not_seen_put (by simpa using hch) hcolor h' hseen
  · obtain ⟨s, hs, h⟩ := hrun pre
    refine ⟨s, hs, h.seen_iff.mpr fun r _ c _ => ?_⟩
    rcases hplain with hplain | hcolor
    · left
      have hcleared : Terminal.cleared.Plain := fun _ _ => (by decide : space.msb = false)
      have htext : (pre.foldl Terminal.put .cleared).Plain :=
        foldlRecOn pre Terminal.put hcleared fun t ht ch hch => ht.put (hplain ch (hpre.subset hch))
      exact htext _ _
    · exact .inr hcolor

/-- **`é` in Latin-1** in light grey: the buffer has it in the colour `0xFF`. -/
theorem console_high_character :
    ∃ s, run (legacyPutc 0x07) (legacyClear 0x07 ⟨fun _ => 0, 0, 0⟩) [0xE9] = some s ∧
      s.cells 0 = 0xFFE9 ∧ entry ((Terminal.cleared.put 0xE9).text 0 0) 0x07 = 0x07E9 ∧
      ¬Seen 0x07 s (Terminal.cleared.put 0xE9) := by
  refine ⟨_, rfl, by decide, by decide, fun h => ?_⟩
  have := h 0 (by decide) 0 (by decide)
  revert this
  decide

end OpenHobbyOS.Console
