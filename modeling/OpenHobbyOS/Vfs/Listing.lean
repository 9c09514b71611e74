/-
# Listing a directory

`task_getdents64` of `src/task.c`.  The cursor is an index: 0 for `.`, 1 for `..` and from 2 on into
the list of children, which `add_child` extends at its head.  A file made meanwhile moves the
children under the cursor, a buffer without room for the next record ends the listing with 0, and
`..` of the root has the inode number 0.
-/
import OpenHobbyOS.Vfs.Atomicity
import OpenHobbyOS.Vfs.Calls

namespace OpenHobbyOS.Vfs

open Option hiding mem_map
open Lib Paging List Nat

/-! ## The code -/

/-- `vfs_inode`; nodes are numbered as they are made, the root has number 1. -/
def vfsInode : Option NodeId → ℕ
  | none => 0
  | some n => n + 1

/-- `struct linux_dirent64`, with `d_type` as whether it is `LINUX_DT_DIR`. -/
structure Dirent where
  ino : ℕ
  off : ℕ
  isDir : Bool
  name : List U8
  deriving DecidableEq

/-- The length of a record. -/
def Dirent.reclen (e : Dirent) : ℕ := (19 + (e.name.length + 1) + 7) / 8 * 8

variable (v : Vfs) (d : NodeId)

/-- The record at an offset. -/
def direntAt : ℕ → Option Dirent
  | 0 => some ⟨vfsInode (some d), 1, (v.node d).isDir, dot⟩
  | 1 => some ⟨vfsInode (v.node d).parent, 2,
      ((v.node d).parent.map fun p => (v.node p).isDir).getD false, dotdot⟩
  | k + 2 => ((v.node d).children[k]?).map fun c =>
      ⟨vfsInode (some c), k + 3, (v.node c).isDir, (v.node c).name⟩

/-- The loop, with `left` bytes of the buffer at `out`, which are fuel enough: the records, the
offset then, and whether a copy failed. -/
def getdentsLoop : ℕ → ℕ → ℕ → ℕ → List Dirent × ℕ × Bool
  | 0, _, _, offset => ([], offset, false)
  | fuel + 1, out, left, offset =>
    if 24 < left then
      match direntAt v d offset with
      | none => ([], offset, false)
      | some e =>
        if left < e.reclen then ([], offset, false)
        else if !taskValidateUserRange (BitVec.ofNat 32 out) (BitVec.ofNat 32 e.reclen) then
          ([], offset, true)
        else
          let r := getdentsLoop fuel (out + e.reclen) (left - e.reclen) (offset + 1)
          (e :: r.1, r.2)
    else ([], offset, false)

/-- `task_getdents64` on a directory. -/
def taskGetdents64 (offset buffer length : ℕ) : List Dirent × ℕ × ℤ :=
  let r := getdentsLoop v d length buffer length offset
  (r.1, r.2.1, if r.2.2 then errFault else (r.1.map Dirent.reclen).sum)

/-- The end of `vfs_create_ramfile`, in the directory the path leads to. -/
def createAt (parent : NodeId) (name : List U8) (room : Bool) : Vfs × Option NodeId :=
  if (v.findChild parent name).isSome then (v, none)
  else if !room then (v, none)
  else (v.newRamfile.attachRamfile parent name v.ramfiles, some v.size)

lemma createRamfile_eq (path : List U8) (room : Bool) (hwritable : v.writable = true) :
    v.createRamfile path room = (v.descend rootNode (segmentsOf path)).map fun r =>
      r.2.elim (r.1, none) fun target => r.1.createAt target.1 target.2 room := by
  rw [createRamfile, hwritable, Bool.not_true, if_neg Bool.false_ne_true]
  congr 1
  funext r
  obtain ⟨w, _ | target⟩ := r <;> rfl

/-! ## A listing -/

/-- A call, or a file that is made. -/
inductive ListOp where
  | getdents (buffer length : ℕ)
  | create (name : List U8) (room : Bool)

/-- The buffer is in the user area, and the name is one that a path can have. -/
def ListOp.Valid : ListOp → Prop
  | .getdents buffer length => userBase.toNat ≤ buffer ∧ buffer + length ≤ userLimit.toNat
  | .create name _ => name.length < vfsNameMax

/-- The tree, the offset of the descriptor, and the records that were returned. -/
structure Listing where
  vfs : Vfs
  offset : ℕ
  out : List Dirent

namespace Listing

variable (s : Listing)

/-- The records of a call. -/
def records : ListOp → List Dirent
  | .getdents buffer length => (s.vfs.taskGetdents64 d s.offset buffer length).1
  | .create _ _ => []

/-- A step before the end: a call that returns 0 is the end. -/
def step : ListOp → Option Listing
  | .getdents buffer length =>
    let r := s.vfs.taskGetdents64 d s.offset buffer length
    if r.2.2 = 0 then none
    else some { s with offset := r.2.1, out := if r.2.2 < 0 then s.out else s.out ++ r.1 }
  | .create name room => some { s with vfs := (s.vfs.createAt d name room).1 }

end Listing

/-- What a record says. -/
def Dirent.key (e : Dirent) : List U8 × ℕ := (e.name, e.ino)

/-- The names in a directory with the inode numbers that their records have. -/
def keys : List (List U8 × ℕ) :=
  (dot, vfsInode (some d)) :: (dotdot, vfsInode (v.node d).parent) ::
    (v.node d).children.map fun c => ((v.node c).name, vfsInode (some c))

/-- The name resolves to the node with the record's inode number. -/
def Agrees (e : Dirent) : Prop :=
  ∃ n, v.resolveFrom d [⟨e.name, true⟩] = some (some n) ∧ e.ino = vfsInode (some n)

/-- A listing as it should be, when a call has returned 0. -/
structure Listed (ops : List ListOp) (s : Listing) : Prop where
  once : ∀ e ∈ v.keys d, (s.out.map Dirent.key).count e = 1
  all : ∀ e ∈ s.vfs.keys d, e ∈ s.out.map Dirent.key
  agrees : StepsMeet (Listing.step d) (fun s op => ∀ e ∈ s.records d op, s.vfs.Agrees d e)
    ⟨v, 0, []⟩ ops

/-- A file is made before the first child is listed, or not at all. -/
def Early (s : Listing) : ListOp → Prop
  | .getdents _ _ => True
  | .create name room => s.offset ≤ 2 ∨ s.vfs.findChild d name ≠ none ∨ room = false

/-- Files are made early, the last buffer has room if there is a record left, the directory is not
the root, and each of its names leads to its node. -/
structure Orderly (ops : List ListOp) (s : Listing) (length : ℕ) : Prop where
  early : StepsMeet (Listing.step d) (Early d) ⟨v, 0, []⟩ ops
  fits : ∀ e, s.vfs.direntAt d s.offset = some e → 24 < length ∧ e.reclen ≤ length
  not_root : (v.node d).parent ≠ none
  found : ∀ c ∈ (s.vfs.node d).children,
    s.vfs.resolveFrom d [⟨(s.vfs.node c).name, true⟩] = some (some c)

/-! ## One call -/

variable {v d} {w : Vfs} {name : List U8} {room : Bool} {fuel out left offset length : ℕ}

lemma key_direntAt (i : ℕ) : (v.direntAt d i).map Dirent.key = (v.keys d)[i]? := by
  rcases i with _ | _ | k
  · rfl
  · rfl
  · simp only [direntAt, keys, getElem?_cons_succ, getElem?_map, Option.map_map]
    rfl

lemma reclen_pos (e : Dirent) : 0 < e.reclen := by
  rw [Dirent.reclen]
  omega

lemma validate_of_le {len : ℕ} (hlow : userBase.toNat ≤ out)
    (hhigh : out + len ≤ userLimit.toNat) :
    taskValidateUserRange (BitVec.ofNat 32 out) (BitVec.ofNat 32 len) = true := by
  have hlimit : userLimit.toNat = 0x05000000 := rfl
  have hout : (BitVec.ofNat 32 out).toNat = out := mod_eq_of_lt (by omega)
  have hend : (BitVec.ofNat 32 out + BitVec.ofNat 32 len).toNat = out + len := by
    rw [← BitVec.ofNat_add, BitVec.toNat_ofNat]
    exact mod_eq_of_lt (by omega)
  simp only [taskValidateUserRange, Bool.not_eq_true', Bool.or_eq_false_iff,
    decide_eq_false_iff_not, BitVec.not_lt, BitVec.le_def, hout, hend]
  omega

/-- **The loop** returns the next records, as many as have room; none only at the end or if the
next one has no room. -/
lemma getdentsLoop_spec (hfuel : left ≤ fuel) (hlow : userBase.toNat ≤ out)
    (hhigh : out + left ≤ userLimit.toNat) :
    ∃ es, getdentsLoop v d fuel out left offset = (es, offset + es.length, false) ∧
      es.map Dirent.key = ((v.keys d).drop offset).take es.length ∧
      (es = [] → ∀ e, v.direntAt d offset = some e → ¬ (24 < left ∧ e.reclen ≤ left)) := by
  induction fuel generalizing out left offset with
  | zero => exact ⟨[], rfl, by simp, fun _ e _ h => by omega⟩
  | succ fuel ih =>
    rw [getdentsLoop]
    by_cases hleft : 24 < left
    swap
    · exact ⟨[], by simp [hleft], by simp, fun _ e _ h => hleft h.1⟩
    rw [if_pos hleft]
    cases hat : v.direntAt d offset with
    | none => exact ⟨[], rfl, by simp, by simp⟩
    | some e =>
      by_cases hroom : left < e.reclen
      · exact ⟨[], by simp [hroom], by simp, fun _ e' he h => by
          rw [← some.inj he] at h
          omega⟩
      have hle : e.reclen ≤ left := Nat.le_of_not_lt hroom
      have hvalid := validate_of_le hlow ((Nat.add_le_add_left hle out).trans hhigh)
      have hpos := reclen_pos e
      obtain ⟨es, hes, hkeys, -⟩ := @ih (out + e.reclen) (left - e.reclen) (offset + 1) (by omega)
        (by omega) (by omega)
      refine ⟨e :: es, ?_, ?_, by simp⟩
      · simp only [if_neg hroom, hvalid, Bool.not_true, Bool.false_eq_true, if_false, hes,
          length_cons, add_assoc, add_comm 1]
      · have hkey : (v.keys d)[offset]? = some e.key := by rw [← key_direntAt, hat, map_some]
        obtain ⟨hlt, hget⟩ := List.getElem?_eq_some_iff.mp hkey
        rw [map_cons, hkeys, length_cons, drop_eq_getElem_cons hlt, take_succ_cons, hget]

lemma getdents_spec (s : Listing) {buffer : ℕ} (hvalid : (ListOp.getdents buffer length).Valid) :
    ∃ es, s.records d (.getdents buffer length) = es ∧
      es.map Dirent.key = ((s.vfs.keys d).drop s.offset).take es.length ∧
      (es = [] → ∀ e, s.vfs.direntAt d s.offset = some e → ¬ (24 < length ∧ e.reclen ≤ length)) ∧
      ((s.vfs.taskGetdents64 d s.offset buffer length).2.2 = 0 ↔ es = []) ∧
      s.step d (.getdents buffer length) =
        if es = [] then none else some ⟨s.vfs, s.offset + es.length, s.out ++ es⟩ := by
  obtain ⟨es, hes, hkeys, hnone⟩ := @getdentsLoop_spec s.vfs d length buffer length s.offset le_rfl
    hvalid.1 hvalid.2
  have hsum : ((es.map Dirent.reclen).sum : ℤ) = 0 ↔ es = [] := by
    cases es with
    | nil => simp
    | cons e es =>
      have hpos := reclen_pos e
      simp only [map_cons, sum_cons, reduceCtorEq, iff_false]
      omega
  have hresult : s.vfs.taskGetdents64 d s.offset buffer length =
      (es, s.offset + es.length, ((es.map Dirent.reclen).sum : ℤ)) := by
    rw [taskGetdents64, hes]
    rfl
  have hpos : ¬ ((es.map Dirent.reclen).sum : ℤ) < 0 := by omega
  refine ⟨es, by rw [Listing.records, hresult], hkeys, hnone, by rw [hresult, hsum], ?_⟩
  simp only [Listing.step, hresult, hsum, if_neg hpos]

/-! ## A new file -/

lemma createAt_spec :
    (v.createAt d name room).1 = v ∧ (v.findChild d name ≠ none ∨ room = false) ∨
      v.findChild d name = none ∧ room = true ∧
        SameTree (v.attach d (ramfileNode name v.ramfiles)) (v.createAt d name room).1 := by
  rw [createAt]
  cases hfind : v.findChild d name with
  | some c => exact .inl ⟨by simp, .inl (by simp)⟩
  | none =>
    cases room with
    | false => exact .inl ⟨by simp, .inr rfl⟩
    | true => exact .inr ⟨rfl, rfl, by
        simpa using SameTree.attachRamfile v v.newRamfile d name v.ramfiles rfl rfl rfl rfl⟩

lemma keys_attach {nd : VfsNode} (h : IsTree v) (hd : d < v.size)
    (hs : SameTree (v.attach d nd) w) :
    w.keys d = (v.keys d).take 2 ++ (nd.name, vfsInode (some v.size)) :: (v.keys d).drop 2 := by
  have hparent : (w.node d).parent = (v.node d).parent := by
    rw [hs.parent_eq, node_attach_parent _ hd]
  have hchildren : (w.node d).children = v.size :: (v.node d).children := by
    rw [hs.children_eq, node_attach_parent _ hd]
  have hold : ∀ c ∈ (v.node d).children, ((w.node c).name, vfsInode (some c)) =
      ((v.node c).name, vfsInode (some c)) := by
    intro c hc
    rw [hs.name_eq, name_attach hd, if_neg (h.children_lt hd hc).ne]
  have hnew : (w.node v.size).name = nd.name := by rw [hs.name_eq, name_attach hd, if_pos rfl]
  simp only [keys, hparent, hchildren, map_cons, hnew, map_congr_left hold, take_succ_cons,
    take_zero, drop_succ_cons, drop_zero, cons_append, nil_append]

lemma ino_le_of_mem_keys (h : IsTree v) (hd : d < v.size) {e : List U8 × ℕ}
    (he : e ∈ v.keys d) : e.2 ≤ v.size := by
  simp only [keys, mem_cons, mem_map] at he
  rcases he with rfl | rfl | ⟨c, hc, rfl⟩
  · exact hd
  · cases hparent : (v.node d).parent with
    | none => exact zero_le _
    | some p => exact (h.parent_lt hd hparent).trans hd
  · exact h.children_lt hd hc

lemma nodup_keys (h : IsTree v) (hd : d < v.size) : (v.keys d).Nodup := by
  have hchild : ∀ c ∈ (v.node d).children, d < c := fun c hc =>
    h.parent_lt (h.children_lt hd hc) (h.parent_eq hd hc)
  have hparent : vfsInode (v.node d).parent ≤ d := by
    cases hp : (v.node d).parent with
    | none => exact zero_le _
    | some p => exact h.parent_lt hd hp
  refine nodup_cons.mpr ⟨?_, nodup_cons.mpr ⟨?_, (h.children_nodup hd).map_on ?_⟩⟩
  · simp only [mem_cons, Prod.mk.injEq, mem_map, not_or, not_exists, not_and]
    refine ⟨fun hdot => absurd hdot (by decide), fun c hc _ heq => ?_⟩
    exact (hchild c hc).ne' (succ.inj heq)
  · simp only [mem_map, Prod.mk.injEq, not_exists, not_and]
    intro c hc _ heq
    have hle : c + 1 ≤ d := heq.le.trans hparent
    exact not_succ_le_self c (hle.trans (hchild c hc).le)
  · intro a _ b _ heq
    simpa [vfsInode] using (Prod.mk.inj heq).2

/-! ## Steps of a listing -/

variable {s s' : Listing} {op : ListOp} {ops : List ListOp}

/-- What every step keeps, from the tree `v` on. -/
structure Underway (v : Vfs) (d : NodeId) (s : Listing) : Prop where
  tree : IsTree s.vfs
  lt : d < s.vfs.size
  grows : Grows v s.vfs
  finds : Extends v s.vfs
  subset : ∀ e ∈ v.keys d, e ∈ s.vfs.keys d
  old : ∀ e ∈ s.out, e.ino ≤ s.vfs.size
  bound : s.offset ≤ (s.vfs.keys d).length

/-- The records so far are the entries up to the offset. -/
def Tidy (d : NodeId) (s : Listing) : Prop :=
  s.out.map Dirent.key = (s.vfs.keys d).take s.offset

/-- An entry behind the offset has no record. -/
def Missed (d : NodeId) (s : Listing) : Prop :=
  ∃ i e, i < s.offset ∧ 2 < s.offset ∧ (s.vfs.keys d)[i]? = some e ∧ e ∉ s.out.map Dirent.key

/-- A step is a call with some records, or a file that is made; a file that is not made is
nothing. -/
lemma step_cases (hvalid : op.Valid) (hstep : s.step d op = some s') :
    (∃ es, s.records d op = es ∧
        es.map Dirent.key = ((s.vfs.keys d).drop s.offset).take es.length ∧
        s' = ⟨s.vfs, s.offset + es.length, s.out ++ es⟩ ∧ Early d s op) ∨
      ∃ nd : VfsNode, s.records d op = [] ∧ SameTree (s.vfs.attach d nd) s'.vfs ∧
        s.vfs.findChild d nd.name = none ∧ nd.children = [] ∧ s'.offset = s.offset ∧
        s'.out = s.out ∧ (Early d s op ↔ s.offset ≤ 2) := by
  cases op with
  | getdents buffer length =>
    obtain ⟨es, hrecords, hkeys, -, -, hes⟩ := @getdents_spec d length s buffer hvalid
    rw [hes] at hstep
    split_ifs at hstep
    exact .inl ⟨es, hrecords, hkeys, (some.inj hstep).symm, trivial⟩
  | create name room =>
    obtain rfl := some.inj hstep
    rcases @createAt_spec s.vfs d name room with ⟨hsame, hwhy⟩ | ⟨hfree, hroom, hsame⟩
    · refine .inl ⟨[], rfl, by simp, ?_, .inr hwhy⟩
      simp [hsame]
    · have hname : (ramfileNode name s.vfs.ramfiles).name = name := newNode_name hvalid false
      refine .inr ⟨_, rfl, hsame, by rwa [hname], rfl, rfl, rfl, ?_⟩
      simp [Early, hfree, hroom]

lemma Underway.step (h : Underway v d s) (hvalid : op.Valid) (hstep : s.step d op = some s') :
    Underway v d s' := by
  rcases step_cases hvalid hstep with
    ⟨es, -, hkeys, rfl, -⟩ | ⟨nd, -, hsame, hfree, hnd, hoffset, hout, -⟩
  · refine ⟨h.tree, h.lt, h.grows, h.finds, h.subset, fun e he => ?_, ?_⟩
    · rcases mem_append.mp he with he | he
      · exact h.old e he
      · have hmem : e.key ∈ s.vfs.keys d :=
          mem_of_mem_drop (mem_of_mem_take (hkeys ▸ mem_map_of_mem he))
        exact ino_le_of_mem_keys h.tree h.lt hmem
    · have hlen := congrArg List.length hkeys
      rw [length_map, length_take, length_drop] at hlen
      have hbound := h.bound
      show s.offset + es.length ≤ (s.vfs.keys d).length
      omega
  · have hkeys := keys_attach h.tree h.lt hsame
    have hlt : d < s'.vfs.size := by
      rw [hsame.size_eq]
      exact h.lt.trans (lt_succ_self _)
    refine ⟨(h.tree.attach h.lt hnd).congr hsame, hlt,
      h.grows.trans ((Grows.attach h.lt).trans (.of_sameTree hsame)),
      fun p name c hp hc => ?_, fun e he => ?_, fun e he => ?_, ?_⟩
    · rw [hsame.findChild_eq]
      exact Extends.attach h.tree h.lt hfree p name c (hp.trans_le h.grows.size_le)
        (h.finds p name c hp hc)
    · rw [hkeys]
      have hold := h.subset e he
      rw [← take_append_drop 2 (s.vfs.keys d), mem_append] at hold
      rcases hold with hold | hold
      · exact mem_append_left _ hold
      · exact mem_append_right _ (.tail _ hold)
    · rw [hsame.size_eq]
      rw [hout] at he
      exact (h.old e he).trans (le_succ _)
    · have hbound := h.bound
      rw [hoffset, hkeys, length_append, length_cons, length_take, length_drop]
      omega

lemma Tidy.step (h : Underway v d s) (ht : Tidy d s) (hvalid : op.Valid) (hearly : Early d s op)
    (hstep : s.step d op = some s') : Tidy d s' := by
  rcases step_cases hvalid hstep with
    ⟨es, -, hkeys, rfl, -⟩ | ⟨nd, -, hsame, -, -, hoffset, hout, hiff⟩
  · rw [Tidy, map_append, ht, hkeys, take_add]
  · have hle : s.offset ≤ 2 := hiff.mp hearly
    have hlen : s.offset ≤ ((s.vfs.keys d).take 2).length := by
      rw [length_take, keys, length_cons, length_cons]
      omega
    rw [Tidy, hout, hoffset, ht, keys_attach h.tree h.lt hsame, take_append_of_le_length hlen,
      take_take, min_eq_left hle]

lemma missed_of_attach {nd : VfsNode} (h : Underway v d s) (hlate : 2 < s.offset)
    (hsame : SameTree (s.vfs.attach d nd) s'.vfs) (hoffset : s'.offset = s.offset)
    (hout : s'.out = s.out) : Missed d s' := by
  refine ⟨2, (nd.name, vfsInode (some s.vfs.size)), hoffset ▸ hlate, hoffset ▸ hlate, ?_, ?_⟩
  · rw [keys_attach h.tree h.lt hsame]
    rfl
  · rw [hout, mem_map]
    rintro ⟨e, he, hkey⟩
    have hle := h.old e he
    rw [(Prod.mk.inj hkey).2] at hle
    exact not_succ_le_self _ hle

lemma Missed.step (h : Underway v d s) (hm : Missed d s) (hvalid : op.Valid)
    (hstep : s.step d op = some s') : Missed d s' := by
  rcases step_cases hvalid hstep with
    ⟨es, -, hkeys, rfl, -⟩ | ⟨nd, -, hsame, -, -, hoffset, hout, -⟩
  · obtain ⟨i, e, hi, hlate, hget, hnot⟩ := hm
    refine ⟨i, e, Nat.lt_add_right _ hi, Nat.lt_add_right _ hlate, hget, ?_⟩
    rw [map_append, mem_append, not_or, hkeys]
    refine ⟨hnot, fun hmem => ?_⟩
    -- the entries are distinct, and this one stands before the offset
    obtain ⟨j, hj⟩ := getElem?_of_mem (mem_of_mem_take hmem)
    rw [getElem?_drop] at hj
    have hlt : i < (s.vfs.keys d).length := (List.getElem?_eq_some_iff.mp hget).1
    have heq := (getElem?_inj hlt (nodup_keys h.tree h.lt)).mp (hget.trans hj.symm)
    omega
  · exact missed_of_attach h hm.choose_spec.choose_spec.2.1 hsame hoffset hout

/-! ## Inode numbers -/

lemma resolveFrom_name {name : List U8} (hname : name.length < vfsNameMax)
    (hplain : plain name = true) :
    v.resolveFrom d [⟨name, true⟩] = some (v.findChild d name) := by
  obtain ⟨hdot, hdotdot⟩ := plain_iff.mp hplain
  simp only [resolveFrom, if_neg (not_le.mpr hname), if_neg hdot, if_neg hdotdot]
  cases v.findChild d name <;> rfl

lemma Agrees.mono (h : Underway v d s) (htree : IsTree v) (hd : d < v.size) {e : Dirent}
    (he : v.Agrees d e) : s.vfs.Agrees d e := by
  obtain ⟨n, hn, hino⟩ := he
  refine ⟨n, resolveFrom_of_kept (S := (· < v.size)) hd (fun hq => ⟨h.grows.parent_eq hq,
    fun p hp => (htree.parent_lt hq hp).trans hq⟩)
    (fun hq _ hc => ⟨h.finds _ _ _ hq hc, htree.findChild_lt hq hc⟩) hn, hino⟩

lemma plain_of_child (h : IsTree v) (hd : d < v.size) {c : NodeId} {name : List U8}
    (hc : c ∈ (v.node d).children) (hlead : v.resolveFrom d [⟨name, true⟩] = some (some c)) :
    name.length < vfsNameMax ∧ plain name = true := by
  have hlt : d < c := h.parent_lt (h.children_lt hd hc) (h.parent_eq hd hc)
  obtain ⟨hfit, ⟨-, hr⟩ | ⟨-, -, hr⟩ | ⟨hdot, hdotdot, -⟩⟩ := resolveFrom_cons hlead
  · exact absurd (some.inj (some.inj hr)) hlt.ne
  · have hr := some.inj (some.inj hr)
    cases hp : (v.node d).parent with
    | none =>
      rw [hp] at hr
      exact absurd hr hlt.ne
    | some p =>
      rw [hp] at hr
      exact absurd hr ((h.parent_lt hd hp).trans hlt).ne
  · exact ⟨hfit, plain_iff.mpr ⟨hdot, hdotdot⟩⟩

lemma agrees_of_found (h : Underway v d s) (htree : IsTree v) (hd : d < v.size)
    (hroot : (v.node d).parent ≠ none)
    (hfound : ∀ c ∈ (s.vfs.node d).children,
      s.vfs.resolveFrom d [⟨(s.vfs.node c).name, true⟩] = some (some c))
    {e : Dirent} (he : e.key ∈ v.keys d) : v.Agrees d e := by
  simp only [keys, mem_cons, Dirent.key, Prod.mk.injEq, mem_map] at he
  rcases he with ⟨hname, hino⟩ | ⟨hname, hino⟩ | ⟨c, hc, hname, hino⟩
  · exact ⟨d, by rw [hname]; rfl, hino⟩
  · obtain ⟨p, hp⟩ := Option.ne_none_iff_exists'.mp hroot
    refine ⟨p, ?_, by rw [hino, hp]⟩
    rw [hname]
    show some (some ((v.node d).parent.getD d)) = _
    rw [hp]
    rfl
  · have hclt : c < v.size := htree.children_lt hd hc
    have hparent := htree.parent_eq hd hc
    have hmem : c ∈ (s.vfs.node d).children :=
      (h.tree.mem_children h.lt (hclt.trans_le h.grows.size_le)).mpr
        ((h.grows.parent_eq hclt).trans hparent)
    have hlead := hfound c hmem
    rw [h.grows.name_eq hclt, hname] at hlead
    obtain ⟨hfit, hplain⟩ := plain_of_child h.tree h.lt hmem hlead
    rw [resolveFrom_name hfit hplain, some.injEq] at hlead
    -- the name is found, and then it stays where it is
    obtain ⟨c', hc'⟩ : ∃ c', v.findChild d e.name = some c' := by
      rw [← isSome_iff_exists, findChild, find?_isSome]
      exact ⟨c, hc, by simp [hname]⟩
    have heq : c' = c := by
      have hlater := h.finds d e.name c' hd hc'
      rw [hlead] at hlater
      exact (some.inj hlater).symm
    exact ⟨c, by rw [resolveFrom_name hfit hplain, hc', heq], hino.symm⟩

/-! ## Runs -/

lemma Underway.refl (h : IsTree v) (hd : d < v.size) (hv : s.vfs = v)
    (hold : ∀ e ∈ s.out, e.ino ≤ v.size) (hbound : s.offset ≤ (v.keys d).length) :
    Underway v d s := by
  subst hv
  exact ⟨h, hd, .refl _, fun _ _ _ _ hc => hc, fun _ he => he, hold, hbound⟩

/-- **A run**: it stays tidy if files are made early, and misses an entry if not. -/
lemma run_listing (h : Underway v d s) (hvalid : ∀ op ∈ ops, op.Valid)
    (hrun : run (Listing.step d) s ops = some s') :
    Underway v d s' ∧ (Missed d s → Missed d s') ∧
      (Tidy d s → StepsMeet (Listing.step d) (Early d) s ops → Tidy d s') ∧
      (StepsMeet (Listing.step d) (Early d) s ops ∨ Missed d s') := by
  induction ops generalizing s with
  | nil =>
    obtain rfl := some.inj hrun
    exact ⟨h, id, fun ht _ => ht, .inl trivial⟩
  | cons op ops ih =>
    obtain ⟨s₁, hstep, hrest⟩ := run_cons_eq_some.mp hrun
    have hop : op.Valid := hvalid op mem_cons_self
    have h₁ := h.step hop hstep
    obtain ⟨hend, hmissed, htidy, hearly⟩ := ih h₁ (fun op' h' => hvalid op' (.tail _ h')) hrest
    refine ⟨hend, fun hm => hmissed (hm.step h hop hstep), fun ht hmeet =>
      htidy (ht.step h hop hmeet.1 hstep) (hmeet.2 s₁ hstep), ?_⟩
    by_cases hop' : Early d s op
    · exact hearly.imp_left (stepsMeet_cons hstep hop')
    · rcases step_cases hop hstep with ⟨-, -, -, -, he⟩ | ⟨nd, -, hsame, -, -, hoffset, hout, hiff⟩
      · exact absurd he hop'
      · exact .inr (hmissed (missed_of_attach h (Nat.lt_of_not_le (hiff.not.mp hop')) hsame
          hoffset hout))

lemma run_agrees (h : Underway v d s) (hvalid : ∀ op ∈ ops, op.Valid)
    (hrun : run (Listing.step d) s ops = some s')
    (hmeet : StepsMeet (Listing.step d) (fun s op => ∀ e ∈ s.records d op, s.vfs.Agrees d e) s ops)
    (hout : ∀ e ∈ s.out, s.vfs.Agrees d e) : ∀ e ∈ s'.out, s'.vfs.Agrees d e := by
  induction ops generalizing s with
  | nil =>
    obtain rfl := some.inj hrun
    exact hout
  | cons op ops ih =>
    obtain ⟨s₁, hstep, hrest⟩ := run_cons_eq_some.mp hrun
    have hop : op.Valid := hvalid op mem_cons_self
    refine ih (h.step hop hstep) (fun op' h' => hvalid op' (.tail _ h')) hrest
      (hmeet.2 s₁ hstep) fun e he => ?_
    have hstart : Underway s.vfs d s := .refl h.tree h.lt rfl h.old h.bound
    refine Agrees.mono (hstart.step hop hstep) h.tree h.lt ?_
    rcases step_cases hop hstep with ⟨es, hes, -, rfl, -⟩ | ⟨nd, -, -, -, -, -, hsame, -⟩
    · rcases mem_append.mp he with he | he
      · exact hout e he
      · exact hmeet.1 e (hes ▸ he)
    · exact hout e (hsame ▸ he)

/-- The records of a run agree when they are returned if the names lead to their nodes in the
end. -/
lemma stepsMeet_agrees (h : Underway v d s) (hvalid : ∀ op ∈ ops, op.Valid)
    (hrun : run (Listing.step d) s ops = some s') (hroot : (s.vfs.node d).parent ≠ none)
    (hfound : ∀ c ∈ (s'.vfs.node d).children,
      s'.vfs.resolveFrom d [⟨(s'.vfs.node c).name, true⟩] = some (some c)) :
    StepsMeet (Listing.step d) (fun s op => ∀ e ∈ s.records d op, s.vfs.Agrees d e) s ops := by
  induction ops generalizing s with
  | nil => trivial
  | cons op ops ih =>
    have hstart : Underway s.vfs d s := .refl h.tree h.lt rfl h.old h.bound
    have hend := (run_listing hstart hvalid hrun).1
    obtain ⟨s₁, hstep, hrest⟩ := run_cons_eq_some.mp hrun
    have hop : op.Valid := hvalid op mem_cons_self
    have h₁ := hstart.step hop hstep
    refine stepsMeet_cons hstep (fun e he => ?_) (ih (h.step hop hstep)
      (fun op' h' => hvalid op' (.tail _ h')) hrest (by rwa [h₁.grows.parent_eq h.lt]))
    refine agrees_of_found hend h.tree h.lt hroot hfound ?_
    rcases step_cases hop hstep with ⟨es, hes, hkeys, -, -⟩ | ⟨nd, hnil, -⟩
    · rw [hes] at he
      exact mem_of_mem_drop (mem_of_mem_take (hkeys ▸ mem_map_of_mem he))
    · rw [hnil] at he
      cases he

/-! ## Complete listings -/

lemma length_le_iff_direntAt (i : ℕ) : (v.keys d).length ≤ i ↔ v.direntAt d i = none := by
  rw [← map_eq_none_iff (f := Dirent.key), key_direntAt, getElem?_eq_none_iff]

/-- **Listings.**  When a call has returned 0, the listing is as it should be if and only if it
was orderly. -/
theorem listing_iff (h : IsTree v) (hd : d < v.size) (hvalid : ∀ op ∈ ops, op.Valid)
    {buffer : ℕ} (hlast : (ListOp.getdents buffer length).Valid)
    (hrun : run (Listing.step d) ⟨v, 0, []⟩ ops = some s)
    (hzero : (s.vfs.taskGetdents64 d s.offset buffer length).2.2 = 0) :
    Listed v d ops s ↔ Orderly v d ops s length := by
  have hstart : Underway v d ⟨v, 0, []⟩ := .refl h hd rfl (by simp) (zero_le _)
  obtain ⟨hend, -, htidy, hearly⟩ := run_listing hstart hvalid hrun
  obtain ⟨es, -, -, hnone, hes, -⟩ := @getdents_spec d length s buffer hlast
  have hnoroom := hnone (hes.mp hzero)
  have hnodup := nodup_keys hend.tree hend.lt
  constructor
  · intro hl
    have hmissed : ¬ Missed d s := by
      rintro ⟨i, e, -, -, hget, hnot⟩
      exact hnot (hl.all e (mem_of_getElem? hget))
    have hmeet := hearly.resolve_right hmissed
    have ht : Tidy d s := htidy rfl hmeet
    have hfull : (s.vfs.keys d).length ≤ s.offset := by
      by_contra hlt
      rw [not_le] at hlt
      have hmem := hl.all _ (getElem_mem hlt)
      rw [ht] at hmem
      obtain ⟨j, hj, heq⟩ := mem_take_iff_getElem.mp hmem
      have hjlt := lt_min_iff.mp hj
      have hinj := hnodup.getElem_inj_iff.mp heq
      omega
    have hagrees := run_agrees hstart hvalid hrun hl.agrees (by simp)
    refine ⟨hmeet, fun e he => ?_, fun hroot => ?_, fun c hc => ?_⟩
    · rw [(length_le_iff_direntAt s.offset).mp hfull] at he
      cases he
    · obtain ⟨e, he, hkey⟩ := mem_map.mp (hl.all _ (mem_cons_of_mem _ mem_cons_self))
      obtain ⟨n, -, hino⟩ := hagrees e he
      rw [(Prod.mk.inj hkey).2, hend.grows.parent_eq hd, hroot] at hino
      cases hino
    · obtain ⟨e, he, hkey⟩ := mem_map.mp
        (hl.all _ (mem_cons_of_mem _ (mem_cons_of_mem _ (mem_map_of_mem hc))))
      obtain ⟨n, hn, hino⟩ := hagrees e he
      obtain ⟨hname, hnode⟩ := Prod.mk.inj hkey
      rw [hnode] at hino
      rw [← hname, hn, succ.inj hino]
  · intro ho
    have ht : Tidy d s := htidy rfl ho.early
    have hat : s.vfs.direntAt d s.offset = none := by
      cases hat : s.vfs.direntAt d s.offset with
      | none => rfl
      | some e => exact absurd (ho.fits e hat) (hnoroom e hat)
    have hout : s.out.map Dirent.key = s.vfs.keys d := by
      rw [ht, take_of_length_le ((length_le_iff_direntAt s.offset).mpr hat)]
    refine ⟨fun e he => ?_, fun e he => hout ▸ he,
      stepsMeet_agrees hstart hvalid hrun ho.not_root ho.found⟩
    rw [hout]
    exact count_eq_one_of_mem hnodup (hend.subset e he)

/-- The listing of `/bin` after some operations. -/
def binListing (ops : List ListOp) : Listing :=
  (run (Listing.step 1) ⟨shellTree, 0, []⟩ ops).getD ⟨shellTree, 0, []⟩

lemma run_binListing {ops : List ListOp}
    (h : (run (Listing.step 1) ⟨shellTree, 0, []⟩ ops).isSome = true) :
    run (Listing.step 1) ⟨shellTree, 0, []⟩ ops = some (binListing ops) :=
  (getD_of_ne_none (isSome_iff_ne_none.mp h) _).symm

/-- A call with 100 bytes. -/
def callBin : ListOp := .getdents 0x02000000 100

theorem listing_bin : Listed shellTree 1 [callBin] (binListing [callBin]) := by
  refine (listing_iff (IsTree.initRamfs initRamfs_shell) (by decide +kernel) ?_
    (show callBin.Valid from ⟨by decide, by decide⟩) (run_binListing (by decide +kernel))
    (by decide +kernel)).mpr
      ⟨⟨trivial, fun _ _ => trivial⟩, ?_, by decide +kernel, by decide +kernel⟩
  · simpa using (show callBin.Valid from ⟨by decide, by decide⟩)
  · intro e he
    have hnone : (binListing [callBin]).vfs.direntAt 1 (binListing [callBin]).offset = none := by
      decide +kernel
    rw [hnone] at he
    cases he

/-- A file made in the middle, a buffer of 24 bytes, and the root, whose `..` has no inode
number. -/
theorem listings_wrong :
    ¬ Listed shellTree 1 [callBin, .create (text "x") true, callBin]
      (binListing [callBin, .create (text "x") true, callBin]) ∧
    (shellTree.taskGetdents64 1 0 0x02000000 24).2.2 = 0 ∧
    ¬ Listed shellTree 1 [] ⟨shellTree, 0, []⟩ ∧
    ∀ s, ¬ Listed shellTree rootNode [callBin] s := by
  refine ⟨fun h => ?_, by decide +kernel, fun h => ?_, fun s h => ?_⟩
  · have hcount := h.once (text "sh", 3) (by decide +kernel)
    exact absurd hcount (by decide +kernel)
  · have hdot := h.all (dot, 2) (by decide +kernel)
    exact absurd hdot (by decide)
  · obtain ⟨n, -, hino⟩ := h.agrees.1 ⟨0, 2, false, dotdot⟩ (by decide +kernel)
    cases hino

end OpenHobbyOS.Vfs
