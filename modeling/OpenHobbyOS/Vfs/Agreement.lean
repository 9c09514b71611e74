/-
# Making a path and looking it up

`vfs_create_ramfile` makes a node at the end of a path, `vfs_resolve` finds one, and `build_path`
spells the path of a node.  The first two agree exactly on plain paths; the third inverts the second
in every tree with its names in order, as long as the path fits its buffer.
-/
import OpenHobbyOS.Vfs.WellFormed

namespace OpenHobbyOS.Vfs

open Lib Paging List Nat

variable {v w u : Vfs} {p q n c : NodeId} {nd : VfsNode} {segs : List Segment} {name : List U8}
variable {fuel : ℕ} {names : List (List U8)} {segs' : List Segment}

/-! ## Literal walks -/

/-- The segments taken literally lead from `p` to `n`. -/
def Leads (v : Vfs) : NodeId → List Segment → NodeId → Prop
  | p, [], n => p = n
  | p, seg :: rest, n => ∃ c, v.findChild p seg.name = some c ∧ Leads v c rest n

/-- What is found in the first tree is found in the second. -/
def Extends (v w : Vfs) : Prop :=
  ∀ p name c, p < v.size → v.findChild p name = some c → w.findChild p name = some c

lemma findChild_attach (h : IsTree v) (hp : p < v.size) (hq : q < v.size) :
    (v.attach p nd).findChild q name =
      if q = p ∧ nd.name = name then some v.size else v.findChild q name := by
  have hold : (v.node q).children.find? (fun c => ((v.attach p nd).node c).name = name) =
      v.findChild q name :=
    find?_congr fun c hc => by rw [name_attach hp, if_neg (h.children_lt hq hc).ne]
  by_cases hqp : q = p
  · subst hqp
    rw [findChild, node_attach_parent _ hp, find?_cons, name_attach hp, if_pos rfl, hold]
    by_cases hname : nd.name = name <;> simp [hname]
  · rw [findChild, node_attach_of_ne _ hp hqp hq.ne, hold, if_neg (fun h => hqp h.1)]

lemma Extends.attach (h : IsTree v) (hp : p < v.size) (hfree : v.findChild p nd.name = none) :
    Extends v (v.attach p nd) := by
  intro q name c hq hc
  rw [findChild_attach h hp hq, if_neg, hc]
  rintro ⟨rfl, rfl⟩
  rw [hfree] at hc
  exact absurd hc (by simp)

/-- The walk of `vfs_create_ramfile`: once the last name leads to `n`, the whole path leads
there. -/
theorem leads_of_descend (h : IsTree v) (hp : p < v.size) (hsegs : Segmented segs)
    (hd : v.descend p segs = some (u, some (q, name))) :
    Extends v u ∧ v.size ≤ u.size ∧ (∀ seg ∈ segs, seg.name.length < vfsNameMax) ∧
      ∀ w n, Extends u w → w.findChild q name = some n → Leads w p segs n := by
  induction segs generalizing v p with
  | nil => simp [descend] at hd
  | cons seg rest ih =>
    obtain ⟨hfit, ⟨hlast, rfl, htarget⟩ | ⟨hlast, hd⟩⟩ := descend_cons hd
    · obtain ⟨rfl, rfl⟩ := Prod.mk.inj (Option.some.inj htarget)
      obtain rfl : rest = [] := hsegs.2.2.1 hlast
      refine ⟨fun _ _ _ _ hc => hc, le_rfl, by simpa using hfit, fun w n _ hn => ⟨n, hn, rfl⟩⟩
    · -- `v'` is the tree behind this segment and `c` its node there
      obtain ⟨v', c, hstep, hext, hle, htree, hc, hfound⟩ : ∃ v' c,
          v.findOrCreateDirectory p seg.name = (v', c) ∧ Extends v v' ∧ v.size ≤ v'.size ∧
            IsTree v' ∧ c < v'.size ∧ v'.findChild p seg.name = some c := by
        rw [findOrCreateDirectory]
        cases hfind : v.findChild p seg.name with
        | some c =>
          exact ⟨v, c, rfl, fun _ _ _ _ hc => hc, le_rfl, h, h.findChild_lt hp hfind, hfind⟩
        | none =>
          have hname : (newNode seg.name true).name = seg.name := newNode_name hfit true
          refine ⟨_, _, rfl, .attach h hp (by rwa [hname]), le_succ _, h.attach hp rfl,
            lt_succ_self _, ?_⟩
          rw [findChild_attach h hp hp, if_pos ⟨rfl, hname⟩]
      rw [hstep] at hd
      obtain ⟨hext', hle', hfits, hlead⟩ := ih htree hc hsegs.2.2.2 hd
      refine ⟨fun p name c hp hc => hext' p name c (hp.trans_le hle) (hext p name c hp hc),
        hle.trans hle', ?_, fun w n hw hn => ⟨c, ?_, hlead w n hw hn⟩⟩
      · simpa using ⟨hfit, hfits⟩
      · exact hw p _ c ((hp.trans_le hle).trans_le hle') (hext' p _ c (hp.trans_le hle) hfound)

/-- The nodes `vfs_resolve` can come to: those with plain names all the way up. -/
inductive PlainChain (v : Vfs) : NodeId → Prop
  | root : PlainChain v rootNode
  | child {p c : NodeId} (hp : p < v.size) (hchain : PlainChain v p)
      (hc : c ∈ (v.node p).children) (hname : plain (v.node c).name = true) : PlainChain v c

lemma PlainChain.lt (h : IsTree v) (hn : PlainChain v n) : n < v.size := by
  cases hn with
  | root => exact h.root_lt
  | child hp _ hc _ => exact h.children_lt hp hc

lemma PlainChain.parent (h : IsTree v) (hn : PlainChain v n) (hp : (v.node n).parent = some p) :
    PlainChain v p ∧ plain (v.node n).name = true := by
  cases hn with
  | root =>
    rw [h.root_parent] at hp
    exact absurd hp (by simp)
  | child hq hchain hc hname =>
    rw [h.parent_eq hq hc, Option.some.injEq] at hp
    exact ⟨hp ▸ hchain, hname⟩

lemma PlainChain.resolveFrom (h : IsTree v) (hp : PlainChain v p)
    (hr : v.resolveFrom p segs = some (some n)) : PlainChain v n := by
  induction segs generalizing p with
  | nil =>
    rw [Vfs.resolveFrom, Option.some.injEq, Option.some.injEq] at hr
    exact hr ▸ hp
  | cons seg rest ih =>
    obtain ⟨-, ⟨-, hr⟩ | ⟨-, -, hr⟩ | ⟨hdot, hdotdot, c, hc, hr⟩⟩ := resolveFrom_cons hr
    · exact ih hp hr
    · cases hparent : (v.node p).parent with
      | none =>
        rw [hparent] at hr
        exact ih hp hr
      | some q =>
        rw [hparent] at hr
        exact ih (hp.parent h hparent).1 hr
    · obtain ⟨hmem, hname⟩ := findChild_eq_some hc
      exact ih (.child (hp.lt h) hp hmem (by rw [hname]; exact plain_iff.mpr ⟨hdot, hdotdot⟩)) hr

lemma Leads.plain_of_chain (h : IsTree v) (hp : p < v.size) (hl : v.Leads p segs n)
    (hn : PlainChain v n) : PlainChain v p ∧ ∀ seg ∈ segs, plain seg.name = true := by
  induction segs generalizing p with
  | nil => exact ⟨show PlainChain v p from hl ▸ hn, by simp⟩
  | cons seg rest ih =>
    obtain ⟨c, hc, hrest⟩ := hl
    obtain ⟨hmem, hname⟩ := findChild_eq_some hc
    obtain ⟨hchain, hplain⟩ := ih (h.children_lt hp hmem) hrest
    obtain ⟨hp', hcname⟩ := hchain.parent h (h.parent_eq hp hmem)
    refine ⟨hp', fun s hs => ?_⟩
    rcases mem_cons.mp hs with rfl | hs
    · rwa [hname] at hcname
    · exact hplain s hs

lemma Leads.resolveFrom (hl : v.Leads p segs n) (hfit : ∀ seg ∈ segs, seg.name.length < vfsNameMax)
    (hplain : ∀ seg ∈ segs, plain seg.name = true) :
    v.resolveFrom p segs = some (some n) := by
  induction segs generalizing p with
  | nil => exact congrArg (some ∘ some) hl
  | cons seg rest ih =>
    obtain ⟨c, hc, hrest⟩ := hl
    obtain ⟨hdot, hdotdot⟩ := plain_iff.mp (hplain seg mem_cons_self)
    rw [Vfs.resolveFrom, if_neg (not_le.mpr (hfit seg mem_cons_self)), if_neg hdot,
      if_neg hdotdot, hc]
    exact ih hrest (fun s hs => hfit s (.tail _ hs)) fun s hs => hplain s (.tail _ hs)

/-- **Walkers agree exactly on plain paths.** -/
theorem resolveFrom_eq_iff (h : IsTree v) (hl : v.Leads rootNode segs n)
    (hfit : ∀ seg ∈ segs, seg.name.length < vfsNameMax) :
    v.resolveFrom rootNode segs = some (some n) ↔ ∀ seg ∈ segs, plain seg.name = true :=
  ⟨fun hr => (hl.plain_of_chain h h.root_lt (PlainChain.root.resolveFrom h hr)).2, hl.resolveFrom hfit⟩

/-- A created node is found at its path if and only if the path is plain. -/
theorem createRamfile_resolve_iff (h : IsTree v) {path : List U8} {room : Bool}
    (hc : v.createRamfile path room = some (w, some n)) :
    w.resolve none path = some (some n) ↔ plainPath path = true := by
  rcases createRamfile_spec hc with ⟨-, hx⟩ | ⟨u, target, hwritable, hd, hu⟩
  · exact absurd hx (by simp)
  rcases hu with ⟨-, hx⟩ | ⟨q, name, rfl, hfree, rfl, hx⟩
  · exact absurd hx (by simp)
  obtain rfl : n = u.size := Option.some.inj hx
  obtain ⟨htree, htarget⟩ := h.descend h.root_lt hd
  obtain ⟨hq, hfit⟩ := htarget q name rfl
  obtain ⟨-, -, hfits, hlead⟩ := leads_of_descend h h.root_lt (segmented_segmentsOf path) hd
  -- up to the ramfile, the last step is an `attach` to the tree the walk left
  have hsame := SameTree.attachRamfile u u.newRamfile q name u.ramfiles rfl rfl rfl rfl
  have hname : (ramfileNode name u.ramfiles).name = name := newNode_name hfit false
  have hfound : (u.attach q (ramfileNode name u.ramfiles)).findChild q name = some u.size := by
    rw [findChild_attach htree hq hq, if_pos ⟨rfl, hname⟩]
  have hleads := hlead _ u.size (.attach htree hq (by rwa [hname])) hfound
  have hmounted : (u.newRamfile.attachRamfile q name u.ramfiles).mounted = true := by
    have hv : v.mounted = true := (Bool.and_eq_true_iff.mp hwritable).1
    exact (descend_flags hd).1.trans hv
  rw [resolve_none hmounted, hsame.resolveFrom_eq, plainPath_iff]
  exact resolveFrom_eq_iff (htree.attach hq rfl) hleads hfits

/-! ## Full paths -/

/-- The names on the way from the root to a node. -/
def namesTo (v : Vfs) : ℕ → NodeId → List (List U8)
  | 0, _ => []
  | fuel + 1, n =>
    match (v.node n).parent with
    | none => []
    | some p => namesTo v fuel p ++ [(v.node n).name]

/-- The path with the given segments. -/
def spell (names : List (List U8)) : List U8 :=
  if names = [] then [slash] else names.flatMap (slash :: ·)

/-- The full path of a node, of whatever length. -/
def fullPath (v : Vfs) (n : NodeId) : List U8 := spell (v.namesTo (n + 1) n)

lemma spell_append (names : List (List U8)) (name : List U8) :
    spell (names ++ [name]) = (if names = [] then [] else spell names) ++ slash :: name := by
  rw [spell, if_neg (by simp), flatMap_append]
  by_cases hnil : names = [] <;> simp [hnil, spell]

lemma namesTo_fuel (h : IsTree v) (hn : n < v.size) (hfuel : n < fuel) :
    v.namesTo fuel n = v.namesTo (n + 1) n := by
  induction n using Nat.strong_induction_on generalizing fuel with
  | _ n ih =>
    obtain ⟨fuel, rfl⟩ := exists_eq_succ_of_ne_zero (ne_zero_of_lt hfuel)
    rw [namesTo, namesTo]
    cases hparent : (v.node n).parent with
    | none => rfl
    | some p =>
      have hlt : p < n := h.parent_lt hn hparent
      have hp : p < v.size := hlt.trans hn
      exact congrArg (· ++ [(v.node n).name])
        ((ih p hlt hp (hlt.trans_le (le_of_lt_succ hfuel))).trans (ih p hlt hp hlt).symm)

lemma buildPath_fuel (h : IsTree v) (hn : n < v.size) (hfuel : n < fuel) :
    v.buildPath fuel n = v.buildPath (n + 1) n := by
  induction n using Nat.strong_induction_on generalizing fuel with
  | _ n ih =>
    obtain ⟨fuel, rfl⟩ := exists_eq_succ_of_ne_zero (ne_zero_of_lt hfuel)
    rw [buildPath, buildPath]
    cases hparent : (v.node n).parent with
    | none => rfl
    | some p =>
      have hlt : p < n := h.parent_lt hn hparent
      have hp : p < v.size := hlt.trans hn
      have hsame : v.buildPath fuel p = v.buildPath n p :=
        (ih p hlt hp (hlt.trans_le (le_of_lt_succ hfuel))).trans (ih p hlt hp hlt).symm
      simp only [hsame]

lemma namesTo_child (h : IsTree v) (hn : n < v.size) (hp : (v.node n).parent = some p) :
    v.namesTo (n + 1) n = v.namesTo (p + 1) p ++ [(v.node n).name] := by
  have hlt : p < n := h.parent_lt hn hp
  rw [namesTo, hp]
  exact congrArg (· ++ _) (namesTo_fuel h (hlt.trans hn) hlt)

lemma namesTo_root (h : IsTree v) : v.namesTo (rootNode + 1) rootNode = [] := by
  rw [namesTo, h.root_parent]

/-- Induction along the path from the root. -/
theorem IsTree.path_induction (h : IsTree v) {P : NodeId → Prop} (hroot : P rootNode)
    (hchild : ∀ p n, p < v.size → n < v.size → n ≠ rootNode → (v.node n).parent = some p →
      P p → P n)
    (hn : n < v.size) : P n := by
  induction n using Nat.strong_induction_on with
  | _ n ih =>
    by_cases hr : n = rootNode
    · rwa [hr]
    · obtain ⟨p, hlt, hparent⟩ := h.has_parent hn hr
      exact hchild p n (hlt.trans hn) hn hr hparent (ih p hlt (hlt.trans hn))

lemma mem_namesTo (h : Named v) (hn : n < v.size) :
    ∀ name ∈ v.namesTo (n + 1) n,
      plain name = true ∧ name ≠ [] ∧ slash ∉ name ∧ name.length < vfsNameMax := by
  refine h.tree.path_induction (P := fun n => ∀ name ∈ v.namesTo (n + 1) n,
    plain name = true ∧ name ≠ [] ∧ slash ∉ name ∧ name.length < vfsNameMax) ?_ ?_ hn
  · rw [namesTo_root h.tree]
    simp
  · intro p n _ hn hroot hparent ih name hname
    rw [namesTo_child h.tree hn hparent, mem_append, mem_singleton] at hname
    rcases hname with hname | rfl
    · exact ih name hname
    · exact ⟨h.plain_name hn, h.proper_name hn hroot⟩

lemma length_fullPath_child (h : IsTree v) (hn : n < v.size) (hp : (v.node n).parent = some p) :
    (v.fullPath p).length + (v.node n).name.length ≤ (v.fullPath n).length := by
  rw [fullPath, fullPath, namesTo_child h hn hp, spell_append, length_append,
    length_cons]
  split_ifs with hnil
  · rw [hnil]
    simp [spell, add_comm]
  · omega

/-- `build_path` spells the full path if that fits the buffer. -/
theorem buildPath_eq_fullPath (h : Named v) (hn : n < v.size)
    (hlen : (v.fullPath n).length < vfsPathMax) : v.buildPath (n + 1) n = v.fullPath n := by
  revert hlen
  refine h.tree.path_induction
    (P := fun n => (v.fullPath n).length < vfsPathMax → v.buildPath (n + 1) n = v.fullPath n)
    (fun _ => ?_) ?_ hn
  · rw [buildPath, h.tree.root_parent, fullPath, namesTo_root h.tree]
    rfl
  · intro p n hp hn hroot hparent ih hlen
    obtain ⟨hne, -, -⟩ := h.proper_name hn hroot
    have hpos : 0 < (v.node n).name.length := length_pos_iff.mpr hne
    have hshort := length_fullPath_child h.tree hn hparent
    have hlt : p < n := h.tree.parent_lt hn hparent
    have hbuf : v.buildPath n p = v.fullPath p :=
      (buildPath_fuel h.tree hp hlt).trans (ih (by omega))
    have hfull : v.fullPath n =
        (if v.namesTo (p + 1) p = [] then [] else v.fullPath p) ++ slash :: (v.node n).name := by
      rw [fullPath, namesTo_child h.tree hn hparent, spell_append, fullPath]
    rw [buildPath, hparent]
    simp only [hbuf]
    rw [if_pos (by omega)]
    by_cases hnil : v.namesTo (p + 1) p = []
    · -- the parent is the root: its path is the slash already
      have hslash : v.fullPath p = [slash] := by rw [fullPath, hnil, spell, if_pos rfl]
      rw [hfull, if_pos hnil, nil_append] at hlen ⊢
      rw [hslash, if_neg (by simp), singleton_append, take_of_length_le (by omega)]
    · obtain ⟨a, rest, hnames⟩ := exists_cons_of_ne_nil hnil
      have ha : a ≠ [] := (mem_namesTo h hp a (hnames ▸ mem_cons_self)).2.1
      have hlong : 1 < (v.fullPath p).length := by
        rw [fullPath, hnames, spell, if_neg (by simp), flatMap_cons, length_append,
          length_cons]
        have := length_pos_iff.mpr ha
        omega
      rw [hfull, if_neg hnil] at hlen ⊢
      rw [if_pos (.inl hlong), append_assoc, singleton_append,
        take_of_length_le (by omega)]

/-! ## Reading a full path -/

lemma pathSegment_spell {a rest : List U8} (hne : a ≠ []) (hslash : slash ∉ a)
    (hrest : rest = [] ∨ rest.head? = some slash) :
    pathSegment (slash :: (a ++ rest)) = some (a, rest) := by
  obtain ⟨b, bs, rfl⟩ := exists_cons_of_ne_nil hne
  have hb : (b == slash) = false := by
    simp only [beq_eq_false_iff_ne]
    rintro rfl
    exact hslash mem_cons_self
  have hall : ∀ x ∈ b :: bs, (x != slash) = true := by
    intro x hx
    simp only [bne_iff_ne]
    rintro rfl
    exact hslash hx
  have hdrop : (slash :: (b :: bs ++ rest)).dropWhile (· == slash) = b :: bs ++ rest := by
    rw [dropWhile_cons_of_pos (by simp), cons_append,
      dropWhile_cons_of_neg (by simp [hb])]
  have hstop : rest.takeWhile (· != slash) = [] ∧ rest.dropWhile (· != slash) = rest := by
    rcases hrest with rfl | hhead
    · exact ⟨rfl, rfl⟩
    · cases rest with
      | nil => exact ⟨rfl, rfl⟩
      | cons x xs =>
        obtain rfl : x = slash := by simpa using hhead
        exact ⟨by simp, by simp⟩
  simp only [pathSegment, hdrop]
  rw [if_neg (by simp), takeWhile_append_of_pos hall, dropWhile_append_of_pos hall,
    hstop.1, hstop.2, append_nil]

/-- The segments with the given names, of a path that ends behind the last one. -/
def toSegments : List (List U8) → List Segment
  | [] => []
  | name :: rest => ⟨name, decide (rest = [])⟩ :: toSegments rest

lemma map_name_toSegments (names : List (List U8)) :
    (toSegments names).map Segment.name = names := by
  induction names with
  | nil => rfl
  | cons name rest ih => rw [toSegments, map_cons, ih]

lemma pathSegments_flatMap (hlen : names.length ≤ fuel)
    (h : ∀ name ∈ names, name ≠ [] ∧ slash ∉ name) :
    pathSegments fuel (names.flatMap (slash :: ·)) = toSegments names := by
  induction fuel generalizing names with
  | zero =>
    obtain rfl := length_eq_zero_iff.mp (le_zero.mp hlen)
    rfl
  | succ fuel ih =>
    cases names with
    | nil => rfl
    | cons a rest =>
      obtain ⟨hne, hslash⟩ := h a mem_cons_self
      have hrest : rest.flatMap (slash :: ·) = [] ∨
          (rest.flatMap (slash :: ·)).head? = some slash := by
        cases rest <;> simp
      have hend : rest.flatMap (slash :: ·) = [] ↔ rest = [] := by
        cases rest <;> simp
      rw [flatMap_cons, cons_append, pathSegments, pathSegment_spell hne hslash hrest]
      simp only [hend, toSegments]
      rw [ih (by simpa using hlen) fun name hname => h name (.tail _ hname)]

lemma length_le_flatMap (names : List (List U8)) :
    names.length ≤ (names.flatMap (slash :: ·)).length := by
  rw [length_flatMap]
  calc names.length = (names.map fun _ => 1).sum := by simp
    _ ≤ (names.map fun name => (slash :: name).length).sum :=
      sum_le_sum fun name _ => by simp

/-- **A spelled path is read back as its segments.** -/
theorem segmentsOf_spell (h : ∀ name ∈ names, name ≠ [] ∧ slash ∉ name) :
    segmentsOf (spell names) = toSegments names := by
  by_cases hnil : names = []
  · subst hnil
    rfl
  · rw [segmentsOf, spell, if_neg hnil]
    exact pathSegments_flatMap (length_le_flatMap names) h

lemma resolveFrom_congr {segs : List Segment} (h : segs.map Segment.name = segs'.map Segment.name)
    (p : NodeId) :
    v.resolveFrom p segs = v.resolveFrom p segs' := by
  induction segs generalizing segs' p with
  | nil =>
    obtain rfl : segs' = [] := by simpa using h.symm
    rfl
  | cons seg rest ih =>
    cases segs' with
    | nil => exact absurd h (by simp)
    | cons seg' rest' =>
      rw [map_cons, map_cons, List.cons.injEq] at h
      simp only [resolveFrom, h.1, ih h.2]

lemma Leads.append (h : v.Leads p segs q) (h' : v.Leads q segs' n) :
    v.Leads p (segs ++ segs') n := by
  induction segs generalizing p with
  | nil => exact show v.Leads p segs' n from h ▸ h'
  | cons seg rest ih =>
    obtain ⟨c, hc, hrest⟩ := h
    exact ⟨c, hc, ih hrest⟩

lemma Named.findChild_name (h : Named v) (hp : p < v.size) (hc : c ∈ (v.node p).children) :
    v.findChild p (v.node c).name = some c := by
  cases hfind : v.findChild p (v.node c).name with
  | none => exact absurd rfl (findChild_eq_none.mp hfind c hc)
  | some c' =>
    obtain ⟨hc', hname⟩ := findChild_eq_some hfind
    rw [inj_on_of_nodup_map (h.distinct hp) hc' hc hname]

/-- **The full path of a node leads to it.** -/
theorem resolveFrom_fullPath (h : Named v) (hn : n < v.size) :
    v.resolveFrom rootNode (segmentsOf (v.fullPath n)) = some (some n) := by
  have hnames := mem_namesTo h hn
  have hleads : v.Leads rootNode ((v.namesTo (n + 1) n).map fun name => ⟨name, false⟩) n := by
    refine h.tree.path_induction
      (P := fun n => v.Leads rootNode ((v.namesTo (n + 1) n).map fun name => ⟨name, false⟩) n)
      ?_ ?_ hn
    · rw [namesTo_root h.tree]
      rfl
    · intro p n hp hn _ hparent ih
      have hmem : n ∈ (v.node p).children := (h.tree.mem_children hp hn).mpr hparent
      rw [namesTo_child h.tree hn hparent, map_append]
      exact ih.append ⟨n, h.findChild_name hp hmem, rfl⟩
  have hsegs : (segmentsOf (v.fullPath n)).map Segment.name =
      ((v.namesTo (n + 1) n).map fun name => (⟨name, false⟩ : Segment)).map Segment.name := by
    rw [fullPath, segmentsOf_spell fun name hname =>
      ⟨(hnames name hname).2.1, (hnames name hname).2.2.1⟩, map_name_toSegments, map_map]
    exact (map_id _).symm
  rw [resolveFrom_congr hsegs]
  refine hleads.resolveFrom (fun seg hseg => ?_) fun seg hseg => ?_
  · obtain ⟨name, hname, rfl⟩ := mem_map.mp hseg
    exact (hnames name hname).2.2.2
  · obtain ⟨name, hname, rfl⟩ := mem_map.mp hseg
    exact (hnames name hname).1

/-! ## Cached paths -/

/-- Every cached path is the one `build_path` gives. -/
def Cached (v : Vfs) : Prop :=
  ∀ n, n < v.size → (v.node n).path = [] ∨ (v.node n).path = v.buildPath (n + 1) n

lemma buildPath_attach (h : IsTree v) (hp : p < v.size) (fuel : ℕ) (hn : n < v.size) :
    (v.attach p nd).buildPath fuel n = v.buildPath fuel n := by
  induction fuel generalizing n with
  | zero => rfl
  | succ fuel ih =>
    rw [buildPath, buildPath, IsTree.parent_attach hp, if_neg hn.ne, name_attach hp, if_neg hn.ne]
    cases hparent : (v.node n).parent with
    | none => rfl
    | some q => simp only [ih ((h.parent_lt hn hparent).trans hn)]

lemma buildPath_mount (v : Vfs) (b : Bool) (fuel : ℕ) (n : NodeId) :
    ({ v with mounted := b } : Vfs).buildPath fuel n = v.buildPath fuel n := by
  induction fuel generalizing n with
  | zero => rfl
  | succ fuel ih => simp only [buildPath, ih]

namespace Cached

lemma congr (h : Cached v) (htree : IsTree v) (hs : SameTree v w) : Cached w := by
  intro n hn
  have hn' : n < v.size := hs.size_eq ▸ hn
  rw [hs.buildPath_eq]
  rcases hs.path_eq n with heq | heq <;> rw [heq]
  · exact h n hn'
  · exact .inr (buildPath_fuel htree hn' hn')

lemma attach (h : Cached v) (htree : IsTree v) (hp : p < v.size) (hnd : nd.path = []) :
    Cached (v.attach p nd) := by
  intro n hn
  by_cases hns : n = v.size
  · left
    rw [hns, node_attach_new _ hp]
    exact hnd
  · have hlt : n < v.size := lt_of_le_of_ne (le_of_lt_succ hn) hns
    rw [buildPath_attach htree hp _ hlt]
    have hpath : ((v.attach p nd).node n).path = (v.node n).path := by
      by_cases hnp : n = p
      · rw [hnp, node_attach_parent _ hp]
      · rw [node_attach_of_ne _ hp hnp hns]
    rw [hpath]
    exact h n hlt

lemma descend (h : Cached v) (htree : IsTree v) (hp : p < v.size)
    {target : Option (NodeId × List U8)} (hd : v.descend p segs = some (w, target)) :
    Cached w :=
  htree.descend_keeps (P := Cached) hp hd h fun hu hq _ _ hc => hc.attach hu hq rfl

/-- A node never moves, so its cached path stays right. -/
theorem call (h : Cached v) (htree : IsTree v) {c : Call} (hc : v.call c = some w) : Cached w := by
  cases call_makes hc with
  | nothing hsame => exact h.congr htree hsame
  | directories u target hd hsame =>
    exact (h.descend htree htree.root_lt hd).congr (htree.descend htree.root_lt hd).1 hsame
  | node u q name nd hd _ hnew _ hsame =>
    obtain ⟨hu, htarget⟩ := htree.descend htree.root_lt hd
    have hq : q < u.size := (htarget q name rfl).1
    exact ((h.descend htree htree.root_lt hd).attach hu hq hnew.2).congr (hu.attach hq hnew.1) hsame

lemma insertFile (h : Cached v) (htree : IsTree v) {f : BootFile} (hi : v.insertFile f = some w) :
    Cached w := by
  obtain ⟨u, target, hd, hu⟩ := insertFile_spec hi
  obtain ⟨hu', htarget⟩ := htree.descend htree.root_lt hd
  have hcached := h.descend htree htree.root_lt hd
  rcases hu with ⟨-, rfl⟩ | ⟨q, name, heq, hsame⟩
  · exact hcached
  · have hq : q < u.size := (htarget q name heq).1
    exact (hcached.attach hu' hq (path_bootNode f name)).congr
      (hu'.attach hq (children_bootNode f name)) hsame

lemma initRamfs {archive : List InitrdFile} (h : Vfs.initRamfs archive = some v) : Cached v := by
  obtain ⟨u, hrun, rfl⟩ := Option.map_eq_some_iff.mp h
  have hbare : Cached bare ∧ IsTree bare := ⟨fun n _ => .inl rfl, .bare⟩
  have hu : Cached u ∧ IsTree u :=
    run_invariant (P := fun v => Cached v ∧ IsTree v)
      (fun h hi => ⟨h.1.insertFile h.2 hi, h.2.insertFile hi⟩) hbare hrun
  exact fun n hn => (hu.1 n hn).imp id fun h => h.trans (buildPath_mount u true _ n).symm

end Cached

lemma path_eq (h : Cached v) (htree : IsTree v) (hn : n < v.size) :
    (v.path n).2 = v.buildPath (n + 1) n := by
  rw [path]
  by_cases hempty : (v.node n).path = []
  · simp only [if_pos hempty]
    rw [cachePath, node_updNode, if_pos rfl]
    exact buildPath_fuel htree hn hn
  · simp only [if_neg hempty]
    exact (h n hn).resolve_left hempty

/-- **Creating, looking up and spelling paths agree** in every tree reached from boot on plain
paths: a created node is found at its path exactly if that is plain, and every node at the path
`vfs_path` gives, if its full path is shorter than `VFS_PATH_MAX`. -/
theorem create_resolve_path {archive : List InitrdFile} {calls : List Call}
    (hboot : initRamfs archive = some v)
    (harchive : StepsMeet insertFile (fun v f => v.newInsert f = true) bare (bootFiles archive))
    (hcalls : ∀ c ∈ calls, plainPath c.newpath = true) (hrun : run call v calls = some w) :
    (∀ path room u n, w.createRamfile path room = some (u, some n) →
      (u.resolve none path = some (some n) ↔ plainPath path = true)) ∧
    ∀ m, m < w.size → (w.fullPath m).length < vfsPathMax →
      (w.path m).1.resolve none (w.path m).2 = some (some m) := by
  have hinv : (Named w ∧ Cached w) ∧ w.mounted = true :=
    run_invariant_of_meet (P := fun v => (Named v ∧ Cached v) ∧ v.mounted = true)
      (C := fun _ (c : Call) => plainPath c.newpath = true)
      (fun h hplain hc => ⟨⟨h.1.1.call hplain hc, h.1.2.call h.1.1.tree hc⟩,
        (call_mounted hc).trans h.2⟩)
      ⟨⟨.initRamfs harchive hboot, .initRamfs hboot⟩, initRamfs_mounted hboot⟩
      (stepsMeet_of_mem (fun _ c hc => hcalls c hc) v) hrun
  obtain ⟨⟨hnamed, hcached⟩, hmounted⟩ := hinv
  refine ⟨fun path room u n hc => createRamfile_resolve_iff hnamed.tree hc, fun m hm hlen => ?_⟩
  rw [(sameTree_path w m).resolve_eq, path_eq hcached hnamed.tree hm,
    buildPath_eq_fullPath hnamed hm hlen, resolve_none hmounted]
  exact resolveFrom_fullPath hnamed hm

theorem shell_found_at_path :
    ((treeAfter shellTree [.mkdir (text "/tmp")]).path 2).1.resolve none
      ((treeAfter shellTree [.mkdir (text "/tmp")]).path 2).2 = some (some 2) :=
  (create_resolve_path initRamfs_shell (by decide +kernel) (by decide +kernel)
    (run_treeAfter (by decide +kernel))).2 2 (by decide +kernel) (by decide +kernel)

/-- **A created file that is not found.**  `vfs_create_ramfile` makes a directory named `..` below
`/b`; `vfs_resolve` goes from `/b` back to the root. -/
theorem created_not_found :
    initRamfs [] = some emptyTree ∧
    ∃ u n, emptyTree.createRamfile (text "/b/../c") true = some (u, some n) ∧
      u.resolve none (text "/b/../c") = some none ∧ n < u.size ∧
      (u.fullPath n).length < vfsPathMax ∧ (u.path n).1.resolve none (u.path n).2 = some none := by
  have hcreate : (emptyTree.createRamfile (text "/b/../c") true).map Prod.snd = some (some 17) := by
    decide +kernel
  refine ⟨initRamfs_nil, _, 17, eq_some_of_map_snd hcreate (bare, none), ?_⟩
  decide +kernel

end OpenHobbyOS.Vfs
