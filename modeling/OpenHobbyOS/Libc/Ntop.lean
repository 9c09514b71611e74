/-
# The round trip of an IPv6 address through its text

The `AF_INET6` branch of `inet_ntop`, which writes `::` for the first of the longest runs of zero
words, and `inet_pton` on what it writes.
-/
import OpenHobbyOS.Libc.Ipv6

namespace OpenHobbyOS.Libc

open Option hiding map_map
open List Nat

/-! ## The functions -/

/-- `struct in6_addr`: the bytes `s6_addr`. -/
abbrev In6Addr := Fin 16 → UInt8

/-- The words of an address. -/
def In6Addr.words (a : In6Addr) : List UInt16 :=
  (range 8).map fun i =>
    (a (Fin.ofNat 16 (i * 2))).toUInt16 <<< 8 ||| (a (Fin.ofNat 16 (i * 2 + 1))).toUInt16

/-- The bytes `oh_parse_ipv6` writes. -/
def toAddr (words : List UInt16) : In6Addr := fun i =>
  if i.val % 2 = 0 then (words.getD (i / 2) 0 >>> 8).toUInt8 else (words.getD (i / 2) 0).toUInt8

/-- The zero words from `i` on: `j - i` after the loop on `j`. -/
def zeroRun (words : List UInt16) (i : ℕ) : ℕ := (words.drop i).findIdx (· != 0)

/-- `best_start`, `none` for -1, and `best_len`. -/
abbrev Best := Option ℕ × ℕ

/-- A round of the search for a run. -/
def better (words : List UInt16) (i : ℕ) (best : Best) : Best :=
  if zeroRun words i > best.2 then (some i, zeroRun words i) else best

/-- The loop that looks for the longest run. -/
def bestRun (words : List UInt16) : ℕ → ℕ → Best → Best
  | 0, _, best => best
  | fuel + 1, i, best =>
    if 8 ≤ i then best
    else
      bestRun words fuel (if zeroRun words i = 0 then i + 1 else i + zeroRun words i)
        (better words i best)

/-- The run written as `::`. -/
def chosenRun (words : List UInt16) : Best :=
  if (bestRun words 8 0 (none, 0)).2 < 2 then (none, 0) else bestRun words 8 0 (none, 0)

/-- A digit of `%x`. -/
def hexDigit (n : ℕ) : UInt8 := UInt8.ofNat (if n < 10 then 0x30 + n else 0x61 + (n - 10))

/-- `"%x"` of a number below `16 ^ k`. -/
def hexText : ℕ → ℕ → List UInt8
  | 0, _ => []
  | k + 1, n => if n < 16 then [hexDigit n] else hexText k (n / 16) ++ [hexDigit (n % 16)]

/-- A word written with `%x`. -/
abbrev wordText (w : UInt16) : List UInt8 := hexText 4 w.toNat

/-- The colon before a word: none at the start or after `::`. -/
def separatorAt (i : ℕ) (buffer : List UInt8) : List UInt8 :=
  if i ≠ 0 ∧ buffer.getLast? ≠ some colon then [colon] else []

/-- The loop that writes the text. -/
def printWords (words : List UInt16) (best : Best) : ℕ → ℕ → List UInt8 → List UInt8
  | 0, _, buffer => buffer
  | fuel + 1, i, buffer =>
    if 8 ≤ i then buffer
    else if best.1 = some i then
      printWords words best fuel (i + (best.2 - 1) + 1) (buffer ++ [colon, colon])
    else
      printWords words best fuel (i + 1)
        (buffer ++ separatorAt i buffer ++ wordText (words.getD i 0))

/-- The text of an address. -/
def ipv6Text (words : List UInt16) : List UInt8 := printWords words (chosenRun words) 8 0 []

/-- `inet_ntop` for `AF_INET6`: `none` is `NULL`. -/
def inetNtop6 (a : In6Addr) (size : ℕ) : Option (List UInt8) :=
  if (ipv6Text a.words).length + 1 > size then none else some (ipv6Text a.words)

/-- `inet_pton` for `AF_INET6`: the address if 1 is returned. -/
def inetPton6 (stack : ℤ → UInt16) (src : List UInt8) : Option In6Addr :=
  (parseIpv6 stack src).words.map toAddr

/-! ## Bytes and words -/

lemma high_byte (h l : UInt8) : ((h.toUInt16 <<< 8 ||| l.toUInt16) >>> 8).toUInt8 = h := by
  apply UInt8.toBitVec_inj.1
  ext i hi
  simp [show 8 + i < 16 by omega, show i < 16 by omega, BitVec.getLsbD_eq_getElem hi]

lemma low_byte (h l : UInt8) : (h.toUInt16 <<< 8 ||| l.toUInt16).toUInt8 = l := by
  apply UInt8.toBitVec_inj.1
  ext i hi
  simp

lemma word_ext {w v : UInt16} (hhigh : (w >>> 8).toUInt8 = (v >>> 8).toUInt8)
    (hlow : w.toUInt8 = v.toUInt8) : w = v := by
  have hw := w.toNat_lt
  have hv := v.toNat_lt
  have h₁ := congrArg UInt8.toNat hhigh
  have h₂ := congrArg UInt8.toNat hlow
  simp only [UInt16.toNat_toUInt8, UInt16.toNat_shiftRight, UInt16.toNat_ofNat,
    shiftRight_eq_div_pow, reducePow, reduceMod] at h₁ h₂
  exact UInt16.toNat_inj.1 (by omega)

lemma words_length (a : In6Addr) : a.words.length = 8 := by simp [In6Addr.words]

lemma toAddr_eq_iff {ws : List UInt16} (hlen : ws.length = 8) (a : In6Addr) :
    toAddr ws = a ↔ ws = a.words := by
  have hw : ∀ i < 8, a.words.getD i 0 =
      (a (Fin.ofNat 16 (i * 2))).toUInt16 <<< 8 ||| (a (Fin.ofNat 16 (i * 2 + 1))).toUInt16 := by
    intro i hi
    rw [getD_eq_getElem _ _ (by rwa [words_length])]
    simp [In6Addr.words]
  constructor
  · rintro rfl
    refine ext_getElem (by rw [hlen, words_length]) ?_
    intro i h₁ h₂
    have hi : i < 8 := by omega
    rw [← getD_eq_getElem _ 0 h₁, ← getD_eq_getElem _ 0 h₂, hw i hi]
    refine word_ext ?_ ?_
    · rw [high_byte]
      simp [toAddr, mod_eq_of_lt (show i * 2 < 16 by omega)]
    · rw [low_byte]
      simp [toAddr, mod_eq_of_lt (show i * 2 + 1 < 16 by omega),
        show (i * 2 + 1) / 2 = i by omega]
  · rintro rfl
    funext i
    have hi := i.isLt
    rw [toAddr, hw _ (by omega), high_byte, low_byte]
    split
    all_goals
      congr 1
      ext
      simp
      omega

/-! ## The longest run of zeros -/

/-- A longest run of zero words. -/
def ZeroRun (words : List UInt16) (s l : ℕ) : Prop :=
  s + l ≤ 8 ∧ ∀ i, s ≤ i → i < s + l → words.getD i 0 = 0

/-- The run from `s` of length `l` is the first of the longest and has at least two words. -/
structure FirstLongest (words : List UInt16) (s l : ℕ) : Prop where
  run : ZeroRun words s l
  two : 2 ≤ l
  longest : ∀ a m, ZeroRun words a m → m ≤ l ∧ (m = l → s ≤ a)

section Runs

variable {words : List UInt16} (hlen : words.length = 8)

include hlen

lemma zeroRun_run {i : ℕ} (hi : i ≤ 8) : ZeroRun words i (zeroRun words i) := by
  have hle : zeroRun words i ≤ (words.drop i).length := findIdx_le_length
  rw [length_drop, hlen] at hle
  refine ⟨by omega, ?_⟩
  intro j hij hj
  obtain ⟨k, rfl⟩ := Nat.exists_eq_add_of_le hij
  have hk := not_of_lt_findIdx (show k < zeroRun words i by omega)
  rw [← getD_drop, getD_eq_getElem _ _ (by rw [length_drop]; omega)]
  simpa using hk

lemma zeroRun_stop {i : ℕ} (h : i + zeroRun words i < 8) :
    words.getD (i + zeroRun words i) 0 ≠ 0 := by
  have hlt : zeroRun words i < (words.drop i).length := by rw [length_drop]; omega
  have hne := findIdx_getElem (w := hlt)
  rw [← getD_drop, getD_eq_getElem _ _ hlt]
  exact bne_iff_ne.1 hne

lemma zeroRun_end {i a m : ℕ} (ha : a ≤ i + zeroRun words i) (hrun : ZeroRun words a m) :
    a + m ≤ i + zeroRun words i := by
  by_contra hlt
  have hle := hrun.1
  exact zeroRun_stop hlen (by omega) (hrun.2 _ ha (by omega))

omit hlen in
/-- What the search knows at `i`: its run is the best of those that start before `i`. -/
structure Leads (words : List UInt16) (i : ℕ) (best : Best) : Prop where
  absent : best.1 = none → best.2 = 0
  found : ∀ s, best.1 = some s → s + best.2 ≤ i ∧ ZeroRun words s best.2
  longest : ∀ a m, a < i → 0 < m → ZeroRun words a m →
    m ≤ best.2 ∧ (m = best.2 → ∃ s ≤ a, best.1 = some s)

lemma leads_step {i : ℕ} {best : Best} (hi : i < 8) (h : Leads words i best) :
    Leads words (if zeroRun words i = 0 then i + 1 else i + zeroRun words i)
      (better words i best) := by
  have hrun := zeroRun_run hlen hi.le
  unfold better
  by_cases hgt : zeroRun words i > best.2
  · rw [if_pos hgt, if_neg (by omega)]
    refine ⟨fun hnone => by simp at hnone, ?_, ?_⟩
    · rintro s hs
      obtain rfl := some.inj hs
      exact ⟨le_rfl, hrun⟩
    · intro a m ha hm hz
      by_cases hai : a < i
      · have := (h.longest a m hai hm hz).1
        exact ⟨by dsimp only; omega, fun heq => by dsimp only at heq; omega⟩
      · have hend := zeroRun_end hlen ha.le hz
        exact ⟨by dsimp only; omega, fun heq => ⟨i, by omega, rfl⟩⟩
  · rw [if_neg hgt]
    have hnext : i < if zeroRun words i = 0 then i + 1 else i + zeroRun words i := by
      split <;> omega
    refine ⟨h.absent, ?_, ?_⟩
    · intro s hs
      have := (h.found s hs).1
      exact ⟨by omega, (h.found s hs).2⟩
    · intro a m ha hm hz
      by_cases hai : a < i
      · exact h.longest a m hai hm hz
      -- the run at `i` is no longer than the best, which starts before it
      have hend : a + m ≤ i + zeroRun words i :=
        zeroRun_end hlen (by split at ha <;> omega) hz
      refine ⟨by omega, fun heq => ?_⟩
      obtain ⟨s, hs⟩ : ∃ s, best.1 = some s := by
        refine ne_none_iff_exists'.1 fun hnone => ?_
        have := h.absent hnone
        omega
      have := (h.found s hs).1
      exact ⟨s, by omega, hs⟩

lemma leads_bestRun (fuel i : ℕ) (best : Best) (hi : i ≤ 8) (hfuel : 8 ≤ i + fuel)
    (h : Leads words i best) : Leads words 8 (bestRun words fuel i best) := by
  induction fuel generalizing i best with
  | zero =>
    obtain rfl : i = 8 := by omega
    exact h
  | succ fuel ih =>
    unfold bestRun
    split
    · obtain rfl : i = 8 := by omega
      exact h
    · have hrun := (zeroRun_run hlen hi).1
      refine ih _ _ ?_ ?_ (leads_step hlen (by omega) h)
      all_goals
        split <;> omega

lemma chosenRun_spec :
    (∃ s l, chosenRun words = (some s, l) ∧ FirstLongest words s l) ∨
      (chosenRun words).1 = none ∧ ∀ s l, ¬ FirstLongest words s l := by
  have h := leads_bestRun hlen 8 0 (none, 0) (by omega) (by omega)
    ⟨fun _ => rfl, fun s hs => by simp at hs, fun a m ha => by omega⟩
  unfold chosenRun
  generalize bestRun words 8 0 (none, 0) = best at h
  by_cases htwo : best.2 < 2
  · refine Or.inr ⟨by rw [if_pos htwo], fun s l hl => ?_⟩
    have htwo' := hl.two
    have hle := hl.run.1
    have := (h.longest s l (by omega) (by omega) hl.run).1
    omega
  · obtain ⟨s, hs⟩ : ∃ s, best.1 = some s := by
      refine ne_none_iff_exists'.1 fun hnone => ?_
      have := h.absent hnone
      omega
    refine Or.inl ⟨s, best.2, by rw [if_neg htwo, ← hs], (h.found s hs).2, by omega, ?_⟩
    intro a m hz
    rcases Nat.eq_zero_or_pos m with rfl | hm
    · exact ⟨by omega, by omega⟩
    · have hle := hz.1
      obtain ⟨hml, hfirst⟩ := h.longest a m (by omega) hm hz
      refine ⟨hml, fun heq => ?_⟩
      obtain ⟨s', hs', hsome⟩ := hfirst heq
      rw [hs] at hsome
      obtain rfl := some.inj hsome
      exact hs'

end Runs

lemma FirstLongest.unique {words : List UInt16} {s l s' l' : ℕ} (h : FirstLongest words s l)
    (h' : FirstLongest words s' l') : s = s' ∧ l = l' := by
  have h₁ := h.longest s' l' h'.run
  have h₂ := h'.longest s l h.run
  have hl : l = l' := by omega
  exact ⟨le_antisymm (h₁.2 hl.symm) (h₂.2 hl), hl⟩

/-! ## The text -/

lemma nibble_hexDigit {n : ℕ} (hn : n < 16) : nibble (hexDigit n) = some n := by
  interval_cases n <;> decide

lemma groupFold_append (g : List UInt8) {n : ℕ} (hn : n < 16) :
    groupFold 0 (g ++ [hexDigit n]) = groupFold 0 g * 16 + n := by
  rw [groupFold, foldl_append, foldl_cons, foldl_nil, nibble_hexDigit hn, getD_some,
    ← shiftLeft_add_eq_or_of_lt hn, shiftLeft_eq]
  rfl

lemma hexText_spec (k : ℕ) {n : ℕ} (hn : n < 16 ^ k) :
    (∀ ch ∈ hexText k n, IsHex ch) ∧ (hexText k n).length ≤ k ∧
      (0 < k → 0 < (hexText k n).length) ∧ groupFold 0 (hexText k n) = n := by
  have hdigit : ∀ m, m < 16 → IsHex (hexDigit m) := by
    intro m hm
    rw [IsHex, nibble_hexDigit hm]
    rfl
  induction k generalizing n with
  | zero =>
    obtain rfl : n = 0 := by simpa using hn
    simp [hexText, groupFold]
  | succ k ih =>
    unfold hexText
    split
    · rename_i hlt
      have hval := groupFold_append [] hlt
      rw [nil_append] at hval
      exact ⟨by simpa using hdigit n hlt, by simp, by simp, by simpa [groupFold] using hval⟩
    · obtain ⟨hhex, hle, -, hval⟩ := ih (n := n / 16) (by rw [pow_succ] at hn; omega)
      have hlow : n % 16 < 16 := mod_lt _ (by omega)
      refine ⟨?_, by simpa using hle, by simp, ?_⟩
      · exact forall_mem_append.2 ⟨hhex, by simpa using hdigit _ hlow⟩
      · rw [groupFold_append _ hlow, hval]
        omega

lemma isGroup_wordText (w : UInt16) : IsGroup (wordText w) := by
  obtain ⟨hhex, hle, hpos, -⟩ := hexText_spec 4 (n := w.toNat) w.toNat_lt
  exact ⟨hhex, hpos (by omega), hle⟩

lemma groupWord_wordText (w : UInt16) : groupWord (wordText w) = w := by
  rw [groupWord, (hexText_spec 4 (n := w.toNat) w.toNat_lt).2.2.2, UInt16.ofNat_toNat]

lemma groups_texts (ws : List UInt16) : Groups (ws.map wordText) := by
  intro g hg
  obtain ⟨w, -, rfl⟩ := mem_map.1 hg
  exact isGroup_wordText w

lemma map_groupWord_texts (ws : List UInt16) : (ws.map wordText).map groupWord = ws := by
  rw [map_map]
  exact (map_congr_left fun w _ => groupWord_wordText w).trans (map_id ws)

lemma separatorAt_wordText (i : ℕ) (buffer : List UInt8) (w : UInt16) :
    separatorAt (i + 1) (buffer ++ wordText w) = [colon] := by
  have hg := isGroup_wordText w
  have hne : wordText w ≠ [] := length_pos_iff.1 hg.pos
  refine if_pos ⟨by omega, ?_⟩
  rw [getLast?_append_of_ne_nil _ hne, getLast?_eq_some_getLast hne]
  intro h
  have hlast := hg.hex _ (getLast_mem hne)
  rw [some.inj h, not_isHex_colon] at hlast
  exact Bool.noConfusion hlast

section Print

variable {words : List UInt16} (hlen : words.length = 8)

include hlen

lemma print_words (best : Best) {n : ℕ} (hn : 0 < n) (fuel : ℕ) {i : ℕ} (hi : i + n ≤ 8)
    (hbest : ∀ j, i ≤ j → j < i + n → best.1 ≠ some j) (buffer : List UInt8) :
    printWords words best (fuel + n) i buffer =
      printWords words best fuel (i + n)
        (buffer ++ separatorAt i buffer ++ joined (((words.drop i).take n).map wordText)) := by
  induction n generalizing i buffer with
  | zero => exact absurd hn (lt_irrefl 0)
  | succ n ih =>
    rw [← add_assoc, printWords, if_neg (by omega), if_neg (hbest i le_rfl (by omega)),
      drop_eq_getElem_cons (by omega), take_succ_cons, map_cons, getD_eq_getElem _ _ (by omega)]
    rcases Nat.eq_zero_or_pos n with rfl | hn'
    · simp [joined]
    · rw [ih hn' (by omega) (fun j hj hj' => hbest j (by omega) (by omega)),
        separatorAt_wordText, joined_cons]
      · simp [add_assoc, add_comm 1]
      · rw [ne_eq, map_eq_nil_iff, ← length_eq_zero_iff, length_take, length_drop]
        omega

lemma ipv6Text_none (h : (chosenRun words).1 = none) :
    ipv6Text words = joined (words.map wordText) := by
  have hprint := print_words hlen _ (n := 8) (by omega) 0 (i := 0) le_rfl
    (fun j _ _ => by rw [h]; simp) []
  rw [ipv6Text, show (8 : ℕ) = 0 + 8 from rfl, hprint]
  simp [printWords, separatorAt, take_of_length_le hlen.le]

lemma ipv6Text_some {s l : ℕ} (h : chosenRun words = (some s, l)) (hl : 2 ≤ l)
    (hs : s + l ≤ 8) :
    ipv6Text words =
      around ((words.take s).map wordText) ((words.drop (s + l)).map wordText) := by
  have hpre : printWords words (some s, l) 8 0 [] =
      printWords words (some s, l) (8 - s) s (joined ((words.take s).map wordText)) := by
    rcases Nat.eq_zero_or_pos s with rfl | hpos
    · simp [joined]
    · have hprint := print_words hlen (some s, l) hpos (8 - s) (i := 0) (by omega)
        (fun j _ hj => by simp; omega) []
      rw [Nat.sub_add_cancel (by omega)] at hprint
      rw [hprint]
      simp [separatorAt]
  have hmid : ∀ buffer, printWords words (some s, l) (8 - s) s buffer =
      printWords words (some s, l) (8 - s - 1) (s + l) (buffer ++ [colon, colon]) := by
    intro buffer
    rw [show 8 - s = 8 - s - 1 + 1 by omega, printWords, if_neg (by omega), if_pos rfl]
    congr 1
    dsimp only
    omega
  rw [ipv6Text, h, hpre, hmid]
  rcases Nat.eq_zero_or_pos (8 - (s + l)) with hzero | hpos
  · rw [drop_of_length_le (by omega), show 8 - s - 1 = 8 - s - 2 + 1 by omega, printWords,
      if_pos (by omega)]
    simp [around, joined]
  · have hprint := print_words hlen (some s, l) hpos (l - 1) (i := s + l) (by omega)
      (fun j hj _ => by simp; omega) (joined ((words.take s).map wordText) ++ [colon, colon])
    rw [show l - 1 + (8 - (s + l)) = 8 - s - 1 by omega] at hprint
    have htake : (words.drop (s + l)).take (8 - (s + l)) = words.drop (s + l) :=
      take_of_length_le (by rw [length_drop, hlen])
    rw [hprint, htake, show l - 1 = l - 2 + 1 by omega, printWords, if_pos (by omega)]
    simp [separatorAt, around]

end Print

lemma joined_length_le {gs : List (List UInt8)} (hgs : Groups gs) :
    (joined gs).length ≤ 5 * gs.length := by
  induction gs with
  | nil => simp [joined]
  | cons g gs ih =>
    have hle := (hgs g mem_cons_self).le
    have ih := ih fun g' hg' => hgs g' (mem_cons_of_mem g hg')
    rcases eq_or_ne gs [] with rfl | hne
    · simp [joined]
      omega
    · rw [joined_cons g hne, length_append, length_cons, length_cons]
      omega

/-- The text fits the local buffer of `INET6_ADDRSTRLEN` bytes with its terminating zero. -/
lemma ipv6Text_length {words : List UInt16} (hlen : words.length = 8) :
    (ipv6Text words).length < 46 := by
  rcases chosenRun_spec hlen with ⟨s, l, h, hlong⟩ | ⟨h, -⟩
  · have htwo := hlong.two
    have hle := hlong.run.1
    have hpre := joined_length_le (groups_texts (words.take s))
    have hpost := joined_length_le (groups_texts (words.drop (s + l)))
    rw [length_map, length_take] at hpre
    rw [length_map, length_drop] at hpost
    rw [ipv6Text_some hlen h htwo hle, around, length_append, length_cons, length_cons]
    omega
  · have hle := joined_length_le (groups_texts words)
    rw [length_map, hlen] at hle
    rw [ipv6Text_none hlen h]
    omega

/-! ## The round trip -/

lemma parse_words_length {stack : ℤ → UInt16} {src : List UInt8} {ws : List UInt16}
    (h : (parseIpv6 stack src).words = some ws) : ws.length = 8 := by
  unfold parseIpv6 at h
  dsimp only at h
  have hfinish : ∀ f : Frame, f.finish.words = some ws → ws.length = 8 := by
    intro f hf
    rw [← some.inj hf, length_map, length_range]
  split at h
  · simp at h
  · split at h
    · exact hfinish _ h
    · split at h
      · simp at h
      · exact hfinish _ h

lemma inetPton6_eq_iff {stack : ℤ → UInt16} {src : List UInt8} {a : In6Addr} :
    inetPton6 stack src = some a ↔ (parseIpv6 stack src).words = some a.words := by
  rw [inetPton6, map_eq_some_iff]
  constructor
  · rintro ⟨ws, hws, ha⟩
    rw [hws, (toAddr_eq_iff (parse_words_length hws) a).1 ha]
  · intro h
    exact ⟨a.words, h, (toAddr_eq_iff (words_length a) a).2 rfl⟩

lemma filled_run {words : List UInt16} {s l : ℕ} (hlen : words.length = 8)
    (hrun : ZeroRun words s l) :
    filled (words.take s ++ words.drop (s + l)) s = words := by
  have hle := hrun.1
  have htake : (words.take s).length = s := by rw [length_take]; omega
  have hzero : (words.drop s).take l = replicate l 0 := by
    refine eq_replicate_iff.2 ⟨by rw [length_take, length_drop]; omega, ?_⟩
    intro w hw
    obtain ⟨i, hi, rfl⟩ := getElem_of_mem hw
    rw [length_take, length_drop] at hi
    rw [getElem_take, getElem_drop, ← getD_eq_getElem _ 0, hrun.2 _ (by omega) (by omega)]
  rw [filled, length_append, length_drop, htake, hlen, show 8 - (s + (8 - (s + l))) = l by omega,
    take_left' htake, drop_left' htake, ← hzero, append_assoc, ← drop_drop, take_append_drop,
    take_append_drop]

/-- The text reads back as the address exactly if what follows the run written as `::` repeats after
as many words as the run has. -/
lemma parse_text_iff (stack : ℤ → UInt16) {words : List UInt16} (hlen : words.length = 8) :
    (parseIpv6 stack (ipv6Text words)).words = some words ↔
      ∀ s l, FirstLongest words s l → Periodic (words.drop (s + l)) l := by
  rcases chosenRun_spec hlen with ⟨s, l, h, hlong⟩ | ⟨h, hno⟩
  · have hle := hlong.run.1
    have htwo := hlong.two
    have hgs : Groups ((words.take s).map wordText ++ (words.drop (s + l)).map wordText) := by
      rw [← map_append]
      exact groups_texts _
    have hws : ((words.take s).map wordText ++ (words.drop (s + l)).map wordText).map groupWord =
        words.take s ++ words.drop (s + l) := by
      rw [← map_append, map_groupWord_texts]
    have htake : (words.take s).length = s := by rw [length_take]; omega
    have hwl : (words.take s ++ words.drop (s + l)).length = 8 - l := by
      rw [length_append, htake, length_drop]
      omega
    have hparse := parse_around stack (b := false) hgs (by simp) (by
      rw [← length_map groupWord, hws, hwl]; omega)
    rw [append_trail_false, hws, length_map, htake] at hparse
    rw [ipv6Text_some hlen h htwo hle, hparse]
    have hc : s ≤ (words.take s ++ words.drop (s + l)).length := by omega
    have hiff := expand_eq_filled_iff stack hc (by omega)
    rw [filled_run hlen hlong.run, drop_left' htake, hwl, show 8 - (8 - l) = l by omega] at hiff
    rw [hwl, hiff]
    constructor
    · intro hper s' l' hlong'
      obtain ⟨rfl, rfl⟩ := hlong.unique hlong'
      exact hper
    · exact fun hall => hall s l hlong
  · have hparse := parse_full stack (b := false) (groups_texts words) (by simp)
      (by rw [length_map, hlen])
    rw [append_trail_false, map_groupWord_texts] at hparse
    rw [ipv6Text_none hlen h, hparse, (start_finish stack hlen).1]
    exact iff_of_true rfl fun s l hlong => absurd hlong (hno s l)

/-- `inet_ntop` succeeds, and `inet_pton` of the text gives the address back. -/
def RoundTrips (stack : ℤ → UInt16) (a : In6Addr) (size : ℕ) : Prop :=
  ∃ text, inetNtop6 a size = some text ∧ inetPton6 stack text = some a

theorem ipv6_round_trip_iff (stack : ℤ → UInt16) (a : In6Addr) :
    (ipv6Text a.words).length < 46 ∧
      ∀ size, (ipv6Text a.words).length < size →
        (RoundTrips stack a size ↔
          ∀ s l, FirstLongest a.words s l → ∀ k, s + l + k + l < 8 →
            a.words.getD (s + l + k) 0 = a.words.getD (s + l + k + l) 0) := by
  have hlen := words_length a
  refine ⟨ipv6Text_length hlen, fun size hsize => ?_⟩
  have hntop : inetNtop6 a size = some (ipv6Text a.words) := if_neg (by omega)
  have htrip : RoundTrips stack a size ↔
      (parseIpv6 stack (ipv6Text a.words)).words = some a.words := by
    rw [RoundTrips, hntop, ← inetPton6_eq_iff]
    simp
  rw [htrip, parse_text_iff stack hlen]
  refine forall₃_congr fun s l hlong => ?_
  have hle := hlong.run.1
  simp only [Periodic, length_drop, hlen, getD_drop, ← add_assoc]
  exact forall_congr' fun k => by
    rw [show k + l < 8 - (s + l) ↔ s + l + k + l < 8 by omega]

/-- `1:0:0:2:3:4:5:6` is written as `1::2:3:4:5:6` and comes back as `1:0:0:4:5:6:5:6`. -/
theorem ipv6_round_trip_differs :
    inetNtop6 (toAddr [1, 0, 0, 2, 3, 4, 5, 6]) 46 = some (ascii "1::2:3:4:5:6") ∧
      inetPton6 (fun _ => 0) (ascii "1::2:3:4:5:6") = some (toAddr [1, 0, 0, 4, 5, 6, 5, 6]) ∧
      ¬ RoundTrips (fun _ => 0) (toAddr [1, 0, 0, 2, 3, 4, 5, 6]) 46 := by
  have hntop : inetNtop6 (toAddr [1, 0, 0, 2, 3, 4, 5, 6]) 46 = some (ascii "1::2:3:4:5:6") := by
    decide +kernel
  have hpton : inetPton6 (fun _ => 0) (ascii "1::2:3:4:5:6") =
      some (toAddr [1, 0, 0, 4, 5, 6, 5, 6]) := by
    have hwords : (parseIpv6 (fun _ => 0) (ascii "1::2:3:4:5:6")).words =
        some [1, 0, 0, 4, 5, 6, 5, 6] := by decide +kernel
    rw [inetPton6, hwords, map_some]
  refine ⟨hntop, hpton, ?_⟩
  rintro ⟨text, htext, hback⟩
  rw [hntop] at htext
  rw [← some.inj htext, hpton] at hback
  have h7 := congrFun (some.inj hback) 7
  exact absurd h7 (by decide)

end OpenHobbyOS.Libc
