/-
# Normalised paths and the kernel's walk

`oh_path_push` and `oh_normalize_path` of `ports/newlib/openhobbyos/compat_fs.c`, which rewrite a
path as text, against `vfs_resolve`, which goes up by the parent pointers.  `PATH_MAX` and
`NAME_MAX` come from the C library's headers and are parameters.
-/
import OpenHobbyOS.Vfs.Agreement

namespace OpenHobbyOS.Libc

open Option hiding map_map
open Lib Paging Vfs List

/-! ## The functions -/

/-- `oh_path_push`, `none` for `ENAMETOOLONG`. -/
def pathPush (size : ℕ) (output component : List U8) : Option (List U8) :=
  let output := if output = [] then [slash] else output
  if output ≠ [slash] ∧ size ≤ output.length + 1 then none
  else
    let output := if output ≠ [slash] then output ++ [slash] else output
    if size ≤ output.length + component.length then none else some (output ++ component)

/-- What `..` does: the output ends at its last slash, which stays if it is the first byte. -/
def cutName (output : List U8) : List U8 :=
  let head := (output.reverse.dropWhile (· != slash)).reverse
  if head.length ≤ 1 then [slash] else head.dropLast

/-- The body of the loop behind the two loops that find the component. -/
def normalizeStep (nameMax size : ℕ) (output component : List U8) : Option (List U8) :=
  if nameMax < component.length then none
  else if component = dot then some output
  else if component = dotdot then some (cutName output)
  else pathPush size output component

/-- `working` for a relative path; `strncat` cuts what does not fit. -/
def joinCwd (pathMax : ℕ) (cwd path : List U8) : List U8 :=
  let base := if cwd = [slash] then cwd else cwd ++ [slash].take (pathMax - cwd.length - 1)
  base ++ path.take (pathMax - base.length - 1)

/-- The segments of a path. -/
def namesOf (path : List U8) : List (List U8) := (segmentsOf path).map Segment.name

/-- `oh_normalize_path`, `none` for -1. -/
def normalizePath (pathMax nameMax : ℕ) (getcwd : Option (List U8)) (path : List U8)
    (size : ℕ) : Option (List U8) :=
  if size = 0 then none
  else
    let working :=
      if path.head? = some slash then if pathMax ≤ path.length then none else some path
      else getcwd.map fun cwd => joinCwd pathMax cwd path
    working.bind fun text => (namesOf text).foldlM (normalizeStep nameMax size) [slash]

/-- The path made absolute. -/
def absoluteForm (cwd path : List U8) : List U8 :=
  if path.head? = some slash then path
  else if cwd = [slash] then slash :: path
  else cwd ++ slash :: path

/-! ## Segments -/

lemma pathSegment_shape {cursor name rest : List U8}
    (h : pathSegment cursor = some (name, rest)) :
    cursor = cursor.takeWhile (· == slash) ++ name ++ rest ∧
      (rest = [] ∨ rest.head? = some slash) := by
  simp only [pathSegment] at h
  split_ifs at h
  rw [some.injEq, Prod.mk.injEq] at h
  obtain ⟨rfl, rfl⟩ := h
  constructor
  · rw [append_assoc, takeWhile_append_dropWhile, takeWhile_append_dropWhile]
  · have hhead := head?_dropWhile_not (· != slash) (cursor.dropWhile (· == slash))
    cases hrest : (cursor.dropWhile (· == slash)).dropWhile (· != slash) with
    | nil => exact .inl rfl
    | cons c rest => exact .inr (by simpa [hrest] using hhead)

lemma pathSegment_shorter {cursor name rest : List U8}
    (h : pathSegment cursor = some (name, rest)) : rest.length < cursor.length := by
  have hlen := congrArg length (pathSegment_shape h).1
  have hpos := length_pos_iff.mpr (pathSegment_spec h).1
  rw [length_append, length_append] at hlen
  omega

lemma pathSegments_fuel {fuel fuel' : ℕ} {cursor : List U8} (h : cursor.length ≤ fuel)
    (h' : cursor.length ≤ fuel') : pathSegments fuel cursor = pathSegments fuel' cursor := by
  induction fuel generalizing fuel' cursor with
  | zero =>
    obtain rfl := length_eq_zero_iff.mp (Nat.le_zero.mp h)
    rw [pathSegments_nil, pathSegments_nil]
  | succ fuel ih =>
    cases fuel' with
    | zero =>
      obtain rfl := length_eq_zero_iff.mp (Nat.le_zero.mp h')
      rw [pathSegments_nil, pathSegments_nil]
    | succ fuel' =>
      rw [pathSegments, pathSegments]
      cases hseg : pathSegment cursor with
      | none => rfl
      | some r =>
        have hlt := pathSegment_shorter (show pathSegment cursor = some (r.1, r.2) from hseg)
        exact congrArg _ (ih (by omega) (by omega))

lemma namesOf_none {path : List U8} (h : pathSegment path = none) : namesOf path = [] := by
  rw [namesOf, segmentsOf]
  cases hlen : path.length with
  | zero => rfl
  | succ n => rw [pathSegments, h, map_nil]

lemma namesOf_some {path name rest : List U8} (h : pathSegment path = some (name, rest)) :
    namesOf path = name :: namesOf rest := by
  have hlt := pathSegment_shorter h
  obtain ⟨n, hn⟩ := Nat.exists_eq_add_of_lt (Nat.zero_lt_of_lt hlt)
  rw [namesOf, segmentsOf, hn, Nat.zero_add, pathSegments, h]
  simp only [map_cons, namesOf, segmentsOf]
  rw [pathSegments_fuel (by omega) le_rfl]

lemma until_slash (a b : List U8) :
    (a ++ slash :: b).takeWhile (· != slash) = a.takeWhile (· != slash) ∧
      (a ++ slash :: b).dropWhile (· != slash) = a.dropWhile (· != slash) ++ slash :: b := by
  induction a with
  | nil => simp
  | cons c a ih => by_cases hc : c = slash <;> simp [hc, ih]

lemma pathSegment_append (a b : List U8) :
    pathSegment (a ++ slash :: b) =
      match pathSegment a with
      | none => pathSegment b
      | some (name, rest) => some (name, rest ++ slash :: b) := by
  simp only [pathSegment, dropWhile_append]
  cases hskip : a.dropWhile (· == slash) with
  | nil => simp
  | cons c cs =>
    obtain ⟨htake, hdrop⟩ := until_slash (c :: cs) b
    rw [cons_append] at htake hdrop
    simp [htake, hdrop]

lemma namesOf_append (a b : List U8) : namesOf (a ++ slash :: b) = namesOf a ++ namesOf b := by
  induction hlen : a.length using Nat.strong_induction_on generalizing a with
  | _ n ih =>
    have happ := pathSegment_append a b
    cases hseg : pathSegment a with
    | none =>
      rw [hseg] at happ
      rw [namesOf_none hseg, nil_append]
      cases hb : pathSegment b with
      | none => rw [namesOf_none hb, namesOf_none (happ.trans hb)]
      | some r => rw [namesOf_some hb, namesOf_some (happ.trans hb)]
    | some r =>
      obtain ⟨name, rest⟩ := r
      rw [hseg] at happ
      rw [namesOf_some happ, namesOf_some hseg, ih _ (hlen ▸ pathSegment_shorter hseg) rest rfl,
        cons_append]

/-- The length of the names with a slash before each. -/
abbrev weight (names : List (List U8)) : ℕ := (names.flatMap (slash :: ·)).length

lemma weight_cons (name : List U8) (names : List (List U8)) :
    weight (name :: names) = name.length + 1 + weight names := by
  rw [weight, flatMap_cons, length_append, length_cons]

lemma length_namesOf_le {path : List U8} (h : path = [] ∨ path.head? = some slash) :
    weight (namesOf path) ≤ path.length := by
  induction hlen : path.length using Nat.strong_induction_on generalizing path with
  | _ n ih =>
    cases hseg : pathSegment path with
    | none => simp [namesOf_none hseg]
    | some r =>
      obtain ⟨name, rest⟩ := r
      obtain ⟨hshape, hrest⟩ := pathSegment_shape hseg
      have ih := ih _ (hlen ▸ pathSegment_shorter hseg) hrest rfl
      have hlead : 0 < (path.takeWhile (· == slash)).length := by
        rcases h with rfl | h
        · simp [pathSegment] at hseg
        · cases path with
          | nil => simp at h
          | cons c path =>
            obtain rfl : c = slash := by simpa using h
            simp
      have hsum := congrArg length hshape
      rw [length_append, length_append] at hsum
      rw [namesOf_some hseg, weight_cons]
      omega

/-- What a segment found in a path is like. -/
abbrev Proper (name : List U8) : Prop := name ≠ [] ∧ slash ∉ name

lemma proper_namesOf (path : List U8) : ∀ name ∈ namesOf path, Proper name := by
  induction hlen : path.length using Nat.strong_induction_on generalizing path with
  | _ n ih =>
    cases hseg : pathSegment path with
    | none => simp [namesOf_none hseg]
    | some r =>
      obtain ⟨name, rest⟩ := r
      rw [namesOf_some hseg]
      exact forall_mem_cons.mpr
        ⟨pathSegment_spec hseg, ih _ (hlen ▸ pathSegment_shorter hseg) rest rfl⟩

/-! ## The output as a stack of names -/

/-- The stack after a component. -/
def stackStep (stack : List (List U8)) (name : List U8) : List (List U8) :=
  if name = dot then stack else if name = dotdot then stack.dropLast else stack ++ [name]

lemma cutName_spell {stack : List (List U8)} (h : ∀ name ∈ stack, Proper name) :
    cutName (spell stack) = spell stack.dropLast := by
  rcases eq_nil_or_concat stack with rfl | ⟨stack, name, rfl⟩
  · rfl
  · have hslash := (h name (by simp)).2
    have hbyte : ∀ ch ∈ name.reverse, (ch != slash) = true := by
      intro ch hch
      rw [bne_iff_ne]
      rintro rfl
      exact hslash (mem_reverse.mp hch)
    have hcut : ((spell (stack ++ [name])).reverse.dropWhile (· != slash)).reverse =
        (if stack = [] then [] else spell stack) ++ [slash] := by
      rw [spell_append, reverse_append, reverse_cons, append_assoc, dropWhile_append_of_pos hbyte]
      simp
    rw [concat_eq_append, dropLast_concat]
    simp only [cutName, hcut]
    by_cases hnil : stack = []
    · simp [hnil, spell]
    · have hpos : 0 < (spell stack).length := by
        rw [spell, if_neg hnil]
        exact (length_pos_iff.mpr hnil).trans_le (length_le_flatMap stack)
      rw [if_neg hnil, if_neg (by rw [length_append, length_singleton]; omega), dropLast_concat]

lemma spell_ne_slash {stack : List (List U8)} (h : ∀ name ∈ stack, Proper name)
    (hne : stack ≠ []) : spell stack ≠ [slash] ∧ spell stack ≠ [] := by
  obtain ⟨name, stack, rfl⟩ := exists_cons_of_ne_nil hne
  have := length_pos_iff.mpr (h name mem_cons_self).1
  rw [spell, if_neg hne, flatMap_cons, cons_append]
  refine ⟨fun heq => ?_, by simp⟩
  have hlen := congrArg length heq
  simp only [length_cons, length_append, length_nil] at hlen
  omega

lemma pathPush_spell {size : ℕ} {stack : List (List U8)} {name : List U8}
    (h : ∀ name ∈ stack, Proper name) (hsize : (spell (stack ++ [name])).length < size) :
    pathPush size (spell stack) name = some (spell (stack ++ [name])) := by
  rw [spell_append] at hsize ⊢
  by_cases hnil : stack = []
  · subst hnil
    simp only [if_true, nil_append, length_cons] at hsize ⊢
    simp [pathPush, spell]
    omega
  · obtain ⟨hroot, hne⟩ := spell_ne_slash h hnil
    rw [if_neg hnil, length_append, length_cons] at hsize
    simp only [pathPush, if_neg hne, if_pos hroot, length_append, length_singleton]
    rw [if_neg (fun hc => absurd hc.2 (by omega)), if_neg (by omega), if_neg hnil, append_assoc,
      singleton_append]

lemma normalizeStep_spell {nameMax size : ℕ} {stack : List (List U8)} {name : List U8}
    (h : ∀ name ∈ stack, Proper name) (hname : name.length ≤ nameMax)
    (hsize : (spell (stack ++ [name])).length < size) :
    normalizeStep nameMax size (spell stack) name = some (spell (stackStep stack name)) := by
  rw [normalizeStep, if_neg (by omega), stackStep]
  split_ifs
  exacts [rfl, congrArg some (cutName_spell h), pathPush_spell h hsize]

lemma stackStep_subset (stack : List (List U8)) (name : List U8) :
    ∀ x ∈ stackStep stack name, x ∈ stack ∨ x = name ∧ plain name = true := by
  intro x hx
  unfold stackStep at hx
  split_ifs at hx with hdot hdotdot
  · exact .inl hx
  · exact .inl (mem_of_mem_dropLast hx)
  · rcases mem_append.mp hx with hx | hx
    · exact .inl hx
    · exact .inr ⟨mem_singleton.mp hx, plain_iff.mpr ⟨hdot, hdotdot⟩⟩

/-- The stack after a list of components. -/
def stackOf (names : List (List U8)) : List (List U8) := names.foldl stackStep []

lemma stackOf_append (names : List (List U8)) (name : List U8) :
    stackOf (names ++ [name]) = stackStep (stackOf names) name := by
  rw [stackOf, foldl_append]
  rfl

lemma stackOf_subset (names : List (List U8)) :
    ∀ name ∈ stackOf names, name ∈ names ∧ plain name = true := by
  induction names using reverseRecOn with
  | nil => simp [stackOf]
  | append_singleton names name ih =>
    intro x hx
    rw [stackOf_append] at hx
    rcases stackStep_subset _ _ x hx with hx | ⟨rfl, hplain⟩
    · exact ⟨mem_append_left _ (ih x hx).1, (ih x hx).2⟩
    · exact ⟨by simp, hplain⟩

lemma stackOf_plain {names : List (List U8)} (h : ∀ name ∈ names, plain name = true) :
    stackOf names = names := by
  induction names using reverseRecOn with
  | nil => rfl
  | append_singleton names name ih =>
    obtain ⟨hdot, hdotdot⟩ := plain_iff.mp (h name (by simp))
    rw [stackOf_append, ih fun x hx => h x (mem_append_left _ hx), stackStep, if_neg hdot,
      if_neg hdotdot]

lemma weight_append (names : List (List U8)) (name : List U8) :
    weight (names ++ [name]) = weight names + name.length + 1 := by
  simp [weight, Nat.add_assoc]

lemma weight_stackOf_le (names : List (List U8)) : weight (stackOf names) ≤ weight names := by
  induction names using reverseRecOn with
  | nil => exact le_rfl
  | append_singleton names name ih =>
    rw [weight_append, stackOf_append, stackStep]
    split_ifs
    · omega
    · have hle : weight (stackOf names).dropLast ≤ weight (stackOf names) :=
        ((dropLast_sublist (stackOf names)).flatMap (slash :: ·)).length_le
      omega
    · rw [weight_append]
      omega

lemma head_spell (names : List (List U8)) : (spell names).head? = some slash := by
  cases names <;> simp [spell]

lemma spell_length_le (names : List (List U8)) : (spell names).length ≤ max 1 (weight names) := by
  unfold spell
  split_ifs
  · exact le_max_left _ _
  · exact le_max_right _ _

lemma foldlM_normalizeStep {nameMax size : ℕ} {names : List (List U8)}
    (h : ∀ name ∈ names, Proper name ∧ name.length ≤ nameMax) (hsize : weight names < size)
    (hone : 1 < size) :
    names.foldlM (normalizeStep nameMax size) [slash] = some (spell (stackOf names)) := by
  induction names using reverseRecOn with
  | nil => rfl
  | append_singleton names name ih =>
    rw [weight_append] at hsize
    have hle := weight_stackOf_le names
    have hproper : ∀ x ∈ stackOf names, Proper x := fun x hx =>
      (h x (mem_append_left _ (stackOf_subset names x hx).1)).1
    have hfits : (spell (stackOf names ++ [name])).length < size := by
      have := spell_length_le (stackOf names ++ [name])
      rw [weight_append] at this
      omega
    rw [foldlM_append, ih (fun x hx => h x (mem_append_left _ hx)) (by omega)]
    simp only [foldlM_cons, foldlM_nil, bind_pure]
    rw [stackOf_append]
    exact normalizeStep_spell hproper (h name (by simp)).2 hfits

/-! ## The stack leads where the kernel goes -/

variable {v : Vfs} {p n : NodeId}

/-- The names lead from the root to the node. -/
def LeadsTo (v : Vfs) (names : List (List U8)) (n : NodeId) : Prop :=
  v.Leads rootNode (names.map fun name => ⟨name, false⟩) n

lemma leads_append {segs segs' : List Segment} :
    v.Leads p (segs ++ segs') n ↔ ∃ q, v.Leads p segs q ∧ v.Leads q segs' n := by
  constructor
  · induction segs generalizing p with
    | nil => exact fun h => ⟨p, rfl, h⟩
    | cons seg rest ih =>
      rintro ⟨c, hc, h⟩
      obtain ⟨q, hq, hn⟩ := ih h
      exact ⟨q, ⟨c, hc, hq⟩, hn⟩
  · rintro ⟨q, hq, hn⟩
    exact hq.append hn

lemma leadsTo_append {names : List (List U8)} {name : List U8} :
    LeadsTo v (names ++ [name]) n ↔ ∃ q, LeadsTo v names q ∧ v.findChild q name = some n := by
  rw [LeadsTo, map_append, leads_append]
  refine exists_congr fun q => and_congr_right fun _ => ?_
  constructor
  · rintro ⟨c, hc, rfl⟩
    exact hc
  · exact fun h => ⟨n, h, rfl⟩

lemma LeadsTo.lt (h : IsTree v) {names : List (List U8)} (hn : LeadsTo v names n) :
    n < v.size := by
  induction names using reverseRecOn generalizing n with
  | nil =>
    obtain rfl : rootNode = n := hn
    exact h.root_lt
  | append_singleton names name ih =>
    obtain ⟨q, hq, hc⟩ := leadsTo_append.mp hn
    exact h.findChild_lt (ih hq) hc

lemma LeadsTo.parent (h : IsTree v) {names : List (List U8)} (hn : LeadsTo v names n) :
    LeadsTo v names.dropLast ((v.node n).parent.getD n) := by
  rcases eq_nil_or_concat names with rfl | ⟨names, name, rfl⟩
  · obtain rfl : rootNode = n := hn
    rw [h.root_parent]
    rfl
  · rw [concat_eq_append] at hn ⊢
    obtain ⟨q, hq, hc⟩ := leadsTo_append.mp hn
    rw [dropLast_concat, h.parent_eq (hq.lt h) (findChild_eq_some hc).1]
    exact hq

lemma LeadsTo.resolveFrom (h : IsTree v) {segs : List Segment} {stack : List (List U8)}
    (hp : LeadsTo v stack p) (hr : v.resolveFrom p segs = some (some n)) :
    LeadsTo v ((segs.map Segment.name).foldl stackStep stack) n ∧
      ∀ seg ∈ segs, seg.name.length < vfsNameMax := by
  induction segs generalizing p stack with
  | nil =>
    rw [Vfs.resolveFrom, some.injEq, some.injEq] at hr
    exact ⟨hr ▸ hp, by simp⟩
  | cons seg rest ih =>
    rw [map_cons, foldl_cons, stackStep, forall_mem_cons]
    obtain ⟨hfit, hstep⟩ := resolveFrom_cons hr
    refine and_left_comm.mp ⟨hfit, ?_⟩
    obtain ⟨hdot, hr⟩ | ⟨hdot, hdotdot, hr⟩ | ⟨hdot, hdotdot, c, hc, hr⟩ := hstep
    · rw [if_pos hdot]
      exact ih hp hr
    · rw [if_neg hdot, if_pos hdotdot]
      exact ih (hp.parent h) hr
    · rw [if_neg hdot, if_neg hdotdot]
      exact ih (leadsTo_append.mpr ⟨p, hp, hc⟩) hr

lemma resolveFrom_stack (h : IsTree v) {path : List U8}
    (hr : v.resolveFrom rootNode (segmentsOf path) = some (some n)) :
    LeadsTo v (stackOf (namesOf path)) n ∧ ∀ name ∈ namesOf path, name.length < vfsNameMax := by
  have hroot : LeadsTo v [] rootNode := rfl
  obtain ⟨hleads, hfit⟩ := hroot.resolveFrom h hr
  exact ⟨hleads, forall_mem_map.mpr hfit⟩

/-! ## Normalised paths -/

lemma joinCwd_eq {pathMax : ℕ} {cwd path : List U8} (hpath : path.head? ≠ some slash)
    (hfits : (absoluteForm cwd path).length < pathMax) :
    joinCwd pathMax cwd path = absoluteForm cwd path := by
  rw [absoluteForm, if_neg hpath] at hfits ⊢
  simp only [joinCwd]
  by_cases hroot : cwd = [slash]
  · simp only [if_pos hroot, length_cons] at hfits ⊢
    rw [hroot, take_of_length_le (by rw [length_singleton]; omega), singleton_append]
  · simp only [if_neg hroot, length_append, length_cons] at hfits ⊢
    have hslash : [slash].take (pathMax - cwd.length - 1) = [slash] :=
      take_of_length_le (by rw [length_singleton]; omega)
    rw [hslash, take_of_length_le (by rw [length_singleton]; omega), append_assoc,
      singleton_append]

lemma normalizePath_eq {pathMax nameMax size : ℕ} {cwd path : List U8}
    (hfits : (absoluteForm cwd path).length < pathMax)
    (hsize : (absoluteForm cwd path).length < size) :
    normalizePath pathMax nameMax (some cwd) path size =
      (namesOf (absoluteForm cwd path)).foldlM (normalizeStep nameMax size) [slash] := by
  rw [normalizePath, if_neg (by omega)]
  by_cases hpath : path.head? = some slash
  · rw [absoluteForm, if_pos hpath] at hfits ⊢
    simp only [if_pos hpath, if_neg (Nat.not_le_of_lt hfits), bind_some]
  · simp only [if_neg hpath, map_some, bind_some, joinCwd_eq hpath hfits]

lemma resolveFrom_append {q : NodeId} {segs segs' : List Segment}
    (h : v.resolveFrom p segs = some (some q)) :
    v.resolveFrom p (segs ++ segs') = v.resolveFrom q segs' := by
  induction segs generalizing p with
  | nil =>
    rw [Vfs.resolveFrom, some.injEq, some.injEq] at h
    rw [nil_append, h]
  | cons seg rest ih =>
    rw [cons_append, Vfs.resolveFrom]
    rw [Vfs.resolveFrom] at h
    split_ifs at h ⊢
    · exact ih h
    · exact ih h
    · cases hc : v.findChild p seg.name with
      | none => simp [hc] at h
      | some c =>
        rw [hc] at h
        exact ih h

lemma namesOf_absoluteForm {cwd path : List U8} (hpath : path.head? ≠ some slash) :
    namesOf (absoluteForm cwd path) = namesOf cwd ++ namesOf path := by
  rw [absoluteForm, if_neg hpath]
  split_ifs with hroot
  · rw [hroot]
    exact namesOf_append [] path
  · exact namesOf_append cwd path

lemma mounted_of_resolve {here : Option NodeId} {path : List U8}
    (hr : v.resolve here path = some (some n)) : v.mounted = true := by
  by_contra hm
  rw [Bool.not_eq_true] at hm
  simp [Vfs.resolve, hm] at hr

lemma resolve_absoluteForm {cwd path : List U8} {here : NodeId}
    (hcwd : path.head? ≠ some slash → v.resolve none cwd = some (some here))
    (hr : v.resolve (some here) path = some (some n)) :
    v.resolveFrom rootNode (segmentsOf (absoluteForm cwd path)) = some (some n) := by
  have hmounted := mounted_of_resolve hr
  by_cases hpath : path.head? = some slash
  · rw [absoluteForm, if_pos hpath, ← resolve_none hmounted, ← hr]
    simp [Vfs.resolve, hpath]
  · have hbase := hcwd hpath
    rw [resolve_none hmounted] at hbase
    have hne : path ≠ [slash] := by
      rintro rfl
      exact hpath rfl
    have hrel : v.resolveFrom here (segmentsOf path) = some (some n) := by
      simpa [Vfs.resolve, hmounted, hpath, hne] using hr
    have hnames : (segmentsOf (absoluteForm cwd path)).map Segment.name =
        (segmentsOf cwd ++ segmentsOf path).map Segment.name := by
      rw [map_append]
      exact namesOf_absoluteForm hpath
    rw [resolveFrom_congr hnames, resolveFrom_append hbase, hrel]

lemma head_absoluteForm {cwd : List U8} (habs : cwd.head? = some slash) (path : List U8) :
    (absoluteForm cwd path).head? = some slash := by
  unfold absoluteForm
  split_ifs with hpath
  · exact hpath
  · rfl
  · rw [head?_append, habs]
    rfl

lemma namesOf_spell {names : List (List U8)} (h : ∀ name ∈ names, Proper name) :
    namesOf (spell names) = names := by
  rw [namesOf, segmentsOf_spell h, map_name_toSegments]

lemma LeadsTo.resolve {names : List (List U8)} (hn : LeadsTo v names n)
    (hmounted : v.mounted = true) (hproper : ∀ name ∈ names, Proper name)
    (hplain : ∀ name ∈ names, plain name = true)
    (hfit : ∀ name ∈ names, name.length < vfsNameMax) :
    v.resolve none (spell names) = some (some n) := by
  have hsegs : (segmentsOf (spell names)).map Segment.name =
      (names.map fun name => (⟨name, false⟩ : Segment)).map Segment.name := by
    rw [map_map]
    exact (namesOf_spell hproper).trans (map_id names).symm
  rw [resolve_none hmounted, resolveFrom_congr hsegs]
  refine Leads.resolveFrom hn (forall_mem_map.mpr hfit) (forall_mem_map.mpr hplain)

/-- A path without empty segments, `.` and `..`. -/
def Normal (path : List U8) : Prop :=
  ∃ names, path = spell names ∧ ∀ name ∈ names, Proper name ∧ name ≠ dot ∧ name ≠ dotdot

lemma cwd_fullPath (h : Named v) (hmounted : v.mounted = true) (hn : n < v.size) :
    (v.fullPath n).head? = some slash ∧ v.resolve none (v.fullPath n) = some (some n) :=
  ⟨head_spell _, (resolve_none hmounted _).trans (resolveFrom_fullPath h hn)⟩

/-- **`oh_normalize_path` agrees with the kernel.**  If `vfs_resolve` finds a node at a path, the
text is normal, leads from the root to that node and is its own normal form. -/
theorem normalize_agrees (h : IsTree v) (here : NodeId) {cwd path : List U8}
    {pathMax nameMax size : ℕ} (habs : cwd.head? = some slash)
    (hcwd : path.head? ≠ some slash → v.resolve none cwd = some (some here))
    (hpath : (absoluteForm cwd path).length < pathMax)
    (hsize : (absoluteForm cwd path).length < size)
    (hname : ∀ name ∈ namesOf (absoluteForm cwd path), name.length ≤ nameMax)
    (hr : v.resolve (some here) path = some (some n)) :
    ∃ out, normalizePath pathMax nameMax (some cwd) path size = some out ∧
      v.resolve none out = some (some n) ∧ Normal out ∧
      ∀ cwd', normalizePath pathMax nameMax cwd' out size = some out := by
  have hmounted : v.mounted = true := mounted_of_resolve hr
  have hweight := length_namesOf_le (.inr (head_absoluteForm habs path))
  have hpos : 0 < (absoluteForm cwd path).length := by
    rw [length_pos_iff]
    intro hnil
    simpa [hnil] using head_absoluteForm habs path
  have hproper := proper_namesOf (absoluteForm cwd path)
  obtain ⟨hleads, hfit⟩ := resolveFrom_stack h (resolve_absoluteForm hcwd hr)
  -- what remains is about the names of the absolute form and their stack
  generalize hW : namesOf (absoluteForm cwd path) = names at *
  have hsub := stackOf_subset names
  have hle := weight_stackOf_le names
  have hspell := spell_length_le (stackOf names)
  refine ⟨spell (stackOf names), ?_, ?_, ?_, ?_⟩
  · rw [normalizePath_eq hpath hsize, hW]
    exact foldlM_normalizeStep (fun x hx => ⟨hproper x hx, hname x hx⟩) (by omega) (by omega)
  · exact hleads.resolve hmounted (fun x hx => hproper x (hsub x hx).1)
      (fun x hx => (hsub x hx).2) fun x hx => hfit x (hsub x hx).1
  · exact ⟨stackOf names, rfl, fun x hx =>
      ⟨hproper x (hsub x hx).1, plain_iff.mp (hsub x hx).2⟩⟩
  · intro cwd'
    have hhead : (spell (stackOf names)).head? = some slash := head_spell _
    have hlt : ¬ pathMax ≤ (spell (stackOf names)).length := by omega
    rw [normalizePath, if_neg (by omega)]
    simp only [if_pos hhead, if_neg hlt, bind_some,
      namesOf_spell fun x hx => hproper x (hsub x hx).1]
    rw [foldlM_normalizeStep (fun x hx => ⟨hproper x (hsub x hx).1, hname x (hsub x hx).1⟩)
      (by omega) (by omega), stackOf_plain fun x hx => (hsub x hx).2]

theorem normalize_agrees_dev :
    ∃ out, normalizePath 1024 255 (some (text "/dev")) (text "../dev/./null") 1024 = some out ∧
      emptyTree.resolve none out = some (some 10) ∧ Normal out ∧
      ∀ cwd', normalizePath 1024 255 cwd' out 1024 = some out :=
  normalize_agrees (IsTree.initRamfs initRamfs_nil) 9 (by decide +kernel)
    (fun _ => by decide +kernel) (by decide +kernel) (by decide +kernel) (by decide +kernel)
    (by decide +kernel)

end OpenHobbyOS.Libc
