/-
# Formatted output

`vsnprintf` of `src/format.c`.  Every helper hands its characters to `append_char`, which drops
those behind the end of the buffer and counts all of them (`Writes`).  Strings are the bytes before
the zero byte, in memory that is not written; `int` wraps.
-/
import OpenHobbyOS.Lib.Bytes
import OpenHobbyOS.Paging.Entry

namespace OpenHobbyOS.Support

open Lib List Nat Function

/-- The byte of a character. -/
def ascii (ch : Char) : U8 := BitVec.ofNat 8 ch.toNat

/-- The bytes of a text. -/
def literal (s : String) : List U8 := s.toList.map ascii

/-! ## The code -/

/-- Memory, `cursor` and `written`. -/
structure Out where
  mem : ℕ → U8
  cursor : ℕ
  written : U32

/-- An argument of the call: a number, or a string that may be NULL. -/
inductive Arg where
  | word (value : U32)
  | string (text : Option (List U8))

/-- `append_char`. -/
def appendChar (limit : ℕ) (o : Out) (ch : U8) : Out :=
  if o.cursor < limit then
    ⟨update o.mem o.cursor ch, o.cursor + 1, o.written + 1⟩
  else ⟨o.mem, o.cursor, o.written + 1⟩

/-- A text, a character at a time. -/
def appendText (limit : ℕ) (text : List U8) (o : Out) : Out := text.foldl (appendChar limit) o

/-- The digits of the number, the highest first. -/
def formatUint (value : U32) (base : ℕ) (uppercase : Bool) : List U8 :=
  let digits := literal (if uppercase then "0123456789ABCDEF" else "0123456789abcdef")
  if value = 0 then [ascii '0']
  else ((Nat.digits base value.toNat).map (digits.getD · 0)).reverse

/-- The loop of `append_padded` that writes the padding. -/
def padLoop (limit : ℕ) (pad : U8) (length width : ℤ) (o : Out) : Out :=
  if length < width then padLoop limit pad length (width - 1) (appendChar limit o pad) else o
termination_by (width - length).toNat
decreasing_by omega

/-- `append_padded`. -/
def appendPadded (limit : ℕ) (text : List U8) (width : ℤ) (pad : U8) (o : Out) : Out :=
  appendText limit text (padLoop limit pad (BitVec.ofNat 32 text.length).toInt width o)

/-- `append_uint`. -/
def appendUint (limit : ℕ) (value : U32) (base : ℕ) (uppercase : Bool) (width : ℤ) (pad : U8)
    (o : Out) : Out :=
  appendPadded limit (formatUint value base uppercase) width pad o

/-- `append_int`. -/
def appendInt (limit : ℕ) (value : U32) (width : ℤ) (pad : U8) (o : Out) : Out :=
  if value.toInt < 0 then
    appendPadded limit (formatUint (0 - value) 10 false) (if 0 < width then width - 1 else width)
      pad (appendChar limit o (ascii '-'))
  else appendPadded limit (formatUint value 10 false) width pad o

/-- A decimal digit. -/
def isDigit (ch : U8) : Bool := ascii '0' ≤ ch && ch ≤ ascii '9'

/-- What stands behind `%`; `conversion` is 0 if the format ends there. -/
structure Directive where
  pad : U8
  width : U32
  conversion : U8

/-- What stands behind `%`, and the rest of the format. -/
def directive (fmt : List U8) : Directive × List U8 :=
  let zero := fmt.head? = some (ascii '0')
  let fmt := if zero then fmt.tail else fmt
  let width := (fmt.takeWhile isDigit).foldl
    (fun width ch => width * 10 + (ch - ascii '0').setWidth 32) 0
  let fmt := fmt.dropWhile isDigit
  (⟨if zero then ascii '0' else ascii ' ', width, fmt.headD 0⟩, fmt.tail)

/-- The `switch`, `none` if `va_arg` finds no argument of its type. -/
def convert (limit : ℕ) (d : Directive) (args : List Arg) (o : Out) : Option (Out × List Arg) :=
  let width := d.width.toInt
  if d.conversion = ascii '%' then some (appendChar limit o (ascii '%'), args)
  else if d.conversion = ascii 's' then
    match args with
    | .string text :: args =>
      some (appendPadded limit (text.getD (literal "(null)")) width d.pad o, args)
    | _ => none
  else if d.conversion ∈ literal "cdiuxXp" then
    match args with
    | .word value :: args =>
      let o :=
        if d.conversion = ascii 'c' then appendChar limit o (value.setWidth 8)
        else if d.conversion = ascii 'd' ∨ d.conversion = ascii 'i' then
          appendInt limit value width d.pad o
        else if d.conversion = ascii 'u' then appendUint limit value 10 false width d.pad o
        else if d.conversion = ascii 'x' then appendUint limit value 16 false width d.pad o
        else if d.conversion = ascii 'X' then appendUint limit value 16 true width d.pad o
        else
          appendUint limit value 16 false (if width ≠ 0 then width else 8) (ascii '0')
            (appendText limit (literal "0x") o)
      some (o, args)
    | _ => none
  else some (appendChar limit (appendChar limit o (ascii '%')) d.conversion, args)

lemma length_directive (fmt : List U8) : (directive fmt).2.length ≤ fmt.length := by
  have htail (l : List U8) : l.tail.length ≤ l.length := by simp
  have hdrop (l : List U8) : (l.dropWhile isDigit).length ≤ l.length :=
    (dropWhile_suffix _).length_le
  refine ((htail _).trans (hdrop _)).trans ?_
  split_ifs
  · exact htail fmt
  · exact le_rfl

/-- The loop of `vsnprintf`. -/
def formatLoop (limit : ℕ) : List U8 → List Arg → Out → Option Out
  | [], _, o => some o
  | ch :: fmt, args, o =>
    if ch ≠ ascii '%' then formatLoop limit fmt args (appendChar limit o ch)
    else
      match convert limit (directive fmt).1 args o with
      | none => none
      | some (o, args) => formatLoop limit (directive fmt).2 args o
termination_by fmt => fmt.length
decreasing_by
  · exact lt_succ_self _
  · exact lt_succ_of_le (length_directive fmt)

/-- `vsnprintf`; `sink` is the address of the local variable. -/
def vsnprintf (mem : ℕ → U8) (sink buffer size : ℕ) (fmt : List U8) (args : List Arg) :
    Option ((ℕ → U8) × U32) :=
  let (buffer, size) := if size = 0 then (sink, 1) else (buffer, size)
  (formatLoop (buffer + size - 1) fmt args ⟨mem, buffer, 0⟩).map fun o =>
    (update o.mem o.cursor 0, o.written)

/-! ## Arguments that match a format -/

/-- The kinds of arguments. -/
inductive Kind where
  | word
  | string
  deriving DecidableEq

/-- The kind of an argument. -/
def Arg.kind : Arg → Kind
  | .word _ => .word
  | .string _ => .string

/-- The argument that a conversion takes. -/
def takes (conversion : U8) : Option Kind :=
  if conversion = ascii 's' then some .string
  else if conversion ∈ literal "cdiuxXp" then some .word
  else none

/-- The arguments that a format takes, in order. -/
def taken : List U8 → List Kind
  | [] => []
  | ch :: fmt =>
    if ch ≠ ascii '%' then taken fmt
    else (takes (directive fmt).1.conversion).toList ++ taken (directive fmt).2
termination_by fmt => fmt.length
decreasing_by
  · exact lt_succ_self _
  · exact lt_succ_of_le (length_directive fmt)

/-- The arguments are those the format takes. -/
def Matches (fmt : List U8) (args : List Arg) : Prop := taken fmt <+: args.map Arg.kind

/-! ## What is written is a text -/

/-- The function appends a text that depends on nothing else. -/
def Writes (f : ℕ → Out → Out) : Prop := ∃ text, ∀ limit o, f limit o = appendText limit text o

lemma writes_char (ch : U8) : Writes fun limit o => appendChar limit o ch :=
  ⟨[ch], fun _ _ => rfl⟩

lemma writes_text (text : List U8) : Writes fun limit o => appendText limit text o :=
  ⟨text, fun _ _ => rfl⟩

lemma Writes.comp {f g : ℕ → Out → Out} (hg : Writes g) (hf : Writes f) :
    Writes fun limit o => g limit (f limit o) := by
  obtain ⟨s, hs⟩ := hf
  obtain ⟨t, ht⟩ := hg
  refine ⟨s ++ t, fun limit o => ?_⟩
  simp only [hs, ht, appendText, foldl_append]

lemma Writes.ite {f g : ℕ → Out → Out} (p : Prop) [Decidable p] (hf : Writes f) (hg : Writes g) :
    Writes fun limit o => if p then f limit o else g limit o := by
  by_cases h : p
  · simpa only [if_pos h] using hf
  · simpa only [if_neg h] using hg

lemma writes_padLoop (pad : U8) (length width : ℤ) :
    Writes fun limit o => padLoop limit pad length width o := by
  induction hn : (width - length).toNat generalizing width with
  | zero =>
    refine ⟨[], fun limit o => ?_⟩
    show padLoop limit pad length width o = o
    rw [padLoop, if_neg (by omega)]
  | succ n ih =>
    obtain ⟨s, hs⟩ := (ih (width - 1) (by omega)).comp (writes_char pad)
    refine ⟨s, fun limit o => ?_⟩
    show padLoop limit pad length width o = _
    rw [padLoop, if_pos (by omega)]
    exact hs limit o

lemma writes_appendPadded (text : List U8) (width : ℤ) (pad : U8) :
    Writes fun limit o => appendPadded limit text width pad o :=
  (writes_text text).comp (writes_padLoop pad _ width)

lemma writes_appendInt (value : U32) (width : ℤ) (pad : U8) :
    Writes fun limit o => appendInt limit value width pad o :=
  .ite _ ((writes_appendPadded _ _ pad).comp (writes_char _)) (writes_appendPadded _ _ pad)

lemma convert_writes (d : Directive) {args : List Arg} {ks : List Kind}
    (h : (takes d.conversion).toList ++ ks <+: args.map Arg.kind) :
    ∃ f rest, Writes f ∧ ks <+: rest.map Arg.kind ∧
      ∀ limit o, convert limit d args o = some (f limit o, rest) := by
  simp only [convert, takes] at h ⊢
  by_cases hpercent : d.conversion = ascii '%'
  · rw [hpercent, if_neg (by decide), if_neg (by decide)] at h
    simp only [if_pos hpercent]
    exact ⟨_, args, writes_char _, h, fun _ _ => rfl⟩
  simp only [if_neg hpercent]
  by_cases hs : d.conversion = ascii 's'
  · simp only [if_pos hs] at h ⊢
    match args, h with
    | .string text :: args, h =>
      exact ⟨_, args, writes_appendPadded _ _ _, (cons_prefix_cons.mp h).2, fun _ _ => rfl⟩
    | .word _ :: _, h => exact nomatch (cons_prefix_cons.mp h).1
    | [], h => simp at h
  simp only [if_neg hs] at h ⊢
  by_cases hword : d.conversion ∈ literal "cdiuxXp"
  · simp only [if_pos hword] at h ⊢
    match args, h with
    | .word value :: args, h =>
      refine ⟨_, args, ?_, (cons_prefix_cons.mp h).2, fun _ _ => rfl⟩
      refine .ite _ (writes_char _) (.ite _ (writes_appendInt _ _ _) (.ite _ ?_ (.ite _ ?_
        (.ite _ ?_ ?_))))
      · exact writes_appendPadded _ _ _
      · exact writes_appendPadded _ _ _
      · exact writes_appendPadded _ _ _
      · exact (writes_appendPadded _ _ _).comp (writes_text _)
    | .string _ :: _, h => exact nomatch (cons_prefix_cons.mp h).1
    | [], h => simp at h
  · simp only [if_neg hword] at h ⊢
    exact ⟨_, args, (writes_char _).comp (writes_char _), h, fun _ _ => rfl⟩

lemma formatLoop_writes {fmt : List U8} {args : List Arg} (h : Matches fmt args) :
    ∃ out, ∀ limit o, formatLoop limit fmt args o = some (appendText limit out o) := by
  induction hn : fmt.length using Nat.strong_induction_on generalizing fmt args with
  | _ n ih =>
    match fmt with
    | [] => exact ⟨[], fun _ _ => by rw [formatLoop]; rfl⟩
    | ch :: fmt =>
      rw [length_cons] at hn
      rw [Matches, taken] at h
      by_cases hch : ch = ascii '%'
      · rw [if_neg (not_not.mpr hch)] at h
        obtain ⟨f, rest, ⟨s, hs⟩, hrest, hconvert⟩ := convert_writes _ h
        have hlen := length_directive fmt
        obtain ⟨out, hout⟩ := ih _ (by omega) hrest rfl
        refine ⟨s ++ out, fun limit o => ?_⟩
        rw [formatLoop, if_neg (not_not.mpr hch), hconvert, hs]
        simp only [hout, appendText, foldl_append]
      · rw [if_pos hch] at h
        obtain ⟨out, hout⟩ := ih _ (by omega) h rfl
        refine ⟨ch :: out, fun limit o => ?_⟩
        rw [formatLoop, if_pos hch, hout]
        rfl

/-! ## What the buffer receives -/

lemma splice_update (mem : ℕ → U8) (a : ℕ) (ch : U8) (text : List U8) :
    splice (update mem a ch) (a + 1) text = splice mem a (ch :: text) := by
  funext i
  rcases lt_trichotomy i a with hi | rfl | hi
  · rw [splice, splice, if_neg (by omega), if_neg (by omega), update_of_ne (by omega)]
  · rw [splice, splice, if_neg (by omega), if_pos le_rfl, update_self, Nat.sub_self]
    rfl
  · obtain ⟨j, rfl⟩ := Nat.exists_eq_add_of_lt hi
    rw [splice, splice, if_pos (by omega), if_pos (by omega), update_of_ne (by omega),
      show a + j + 1 - (a + 1) = j by omega, show a + j + 1 - a = j + 1 by omega, getD_cons_succ]

lemma appendText_eq (limit : ℕ) (text : List U8) (mem : ℕ → U8) {cursor : ℕ} (written : U32)
    (h : cursor ≤ limit) :
    appendText limit text ⟨mem, cursor, written⟩ =
      ⟨splice mem cursor (text.take (limit - cursor)), cursor + min (limit - cursor) text.length,
        written + BitVec.ofNat 32 text.length⟩ := by
  induction text generalizing mem cursor written with
  | nil =>
    rw [take_nil]
    simp only [appendText, foldl_nil, length_nil, min_zero, add_zero, Out.mk.injEq]
    exact ⟨(funext fun i => by simp [splice]).symm, trivial, (BitVec.add_zero written).symm⟩
  | cons ch text ih =>
    have hcount : written + 1 + BitVec.ofNat 32 text.length =
        written + BitVec.ofNat 32 (text.length + 1) := by
      rw [BitVec.ofNat_add, BitVec.add_assoc, BitVec.add_comm (1 : U32)]
      rfl
    rw [appendText, foldl_cons, appendChar, ← appendText, length_cons]
    split_ifs with hlt
    · rw [ih _ _ hlt, splice_update, hcount]
      simp only at hlt ⊢
      obtain ⟨k, rfl⟩ := Nat.exists_eq_add_of_lt hlt
      rw [show cursor + k + 1 - (cursor + 1) = k by omega,
        show cursor + k + 1 - cursor = k + 1 by omega, take_succ_cons]
      congr 1
      omega
    · obtain rfl : cursor = limit := le_antisymm h (not_lt.mp hlt)
      rw [ih _ _ le_rfl, hcount, Nat.sub_self, take_zero, take_zero, Nat.zero_min, Nat.zero_min]

lemma update_splice (mem : ℕ → U8) (a : ℕ) (text : List U8) (ch : U8) :
    update (splice mem a text) (a + text.length) ch = splice mem a (text ++ [ch]) := by
  induction text generalizing mem a with
  | nil =>
    rw [nil_append, ← splice_update]
    funext i
    simp [splice, update]
  | cons c text ih =>
    rw [← splice_update, cons_append, ← splice_update, ← ih, length_cons]
    congr 1
    omega

/-- **Bounded output.**  A format with matching arguments is a text.  The result is its length; the
buffer receives as much of it as there is room for before a zero byte, and nothing outside the
buffer is written. -/
theorem vsnprintf_bounded {fmt : List U8} {args : List Arg} (h : Matches fmt args) :
    ∃ out : List U8, ∀ (mem : ℕ → U8) (sink buffer size : ℕ),
      ∃ mem' result, vsnprintf mem sink buffer size fmt args = some (mem', result) ∧
        (out.length < 2 ^ 31 → result.toInt = out.length) ∧
        (size = 0 → ∀ x ≠ sink, mem' x = mem x) ∧
        (0 < size → Holds mem' buffer (out.take (size - 1) ++ [0]) ∧
          ∀ x, x < buffer ∨ buffer + size ≤ x → mem' x = mem x) := by
  obtain ⟨out, hout⟩ := formatLoop_writes h
  refine ⟨out, fun mem sink buffer size => ?_⟩
  have hresult (hlen : out.length < 2 ^ 31) :
      (0 + BitVec.ofNat 32 out.length : U32).toInt = out.length := by
    have hval : (BitVec.ofNat 32 out.length).toNat = out.length := by
      rw [BitVec.toNat_ofNat, mod_eq_of_lt (by omega)]
    rw [show (0 : U32) = 0#32 from rfl, BitVec.zero_add,
      BitVec.toInt_eq_toNat_of_lt (by omega), hval]
  -- the local variable is a buffer of one byte
  have hrun (b s : ℕ) (hs : 0 < s) :
      (formatLoop (b + s - 1) fmt args ⟨mem, b, 0⟩).map
        (fun o => (update o.mem o.cursor 0, o.written)) =
      some (splice mem b (out.take (s - 1) ++ [0]), 0 + BitVec.ofNat 32 out.length) := by
    rw [hout, appendText_eq _ _ _ _ (by omega), Option.map_some]
    simp only [show b + s - 1 - b = s - 1 by omega]
    rw [← length_take, update_splice]
  rcases Nat.eq_zero_or_pos size with rfl | hsize
  · refine ⟨_, _, hrun sink 1 one_pos, hresult, fun _ x hx => ?_, fun h => absurd h (lt_irrefl 0)⟩
    rw [Nat.sub_self, take_zero, nil_append, splice]
    split_ifs with hle
    · exact getD_eq_default _ _ (by rw [length_singleton]; omega)
    · rfl
  · refine ⟨splice mem buffer (out.take (size - 1) ++ [0]), _, ?_, hresult, by omega, fun _ => ?_⟩
    · rw [vsnprintf, if_neg hsize.ne']
      exact hrun buffer size hsize
    refine ⟨holds_splice _ _ _, fun x hx => ?_⟩
    have hlen : (out.take (size - 1) ++ [0]).length ≤ size := by
      rw [length_append, length_take, length_singleton]
      omega
    rw [splice]
    split_ifs with hle
    · exact getD_eq_default _ _ (by omega)
    · rfl

/-- `printf("%d%%", 42)`. -/
theorem vsnprintf_bounded_percent :
    ∃ out : List U8, ∀ (mem : ℕ → U8) (sink buffer size : ℕ),
      ∃ mem' result,
        vsnprintf mem sink buffer size (literal "%d%%") [.word 42] = some (mem', result) ∧
        (out.length < 2 ^ 31 → result.toInt = out.length) ∧
        (size = 0 → ∀ x ≠ sink, mem' x = mem x) ∧
        (0 < size → Holds mem' buffer (out.take (size - 1) ++ [0]) ∧
          ∀ x, x < buffer ∨ buffer + size ≤ x → mem' x = mem x) := by
  refine vsnprintf_bounded ?_
  have htaken : taken (literal "%d%%") = [.word] := by
    simp [taken, literal, directive, takes, ascii, isDigit]
  rw [Matches, htaken]
  exact prefix_refl _

end OpenHobbyOS.Support
