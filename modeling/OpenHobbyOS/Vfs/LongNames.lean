/-
# Paths with long names

`path_segment` of `src/vfs.c` panics at a name of `VFS_NAME_MAX` bytes or more.  Lookups stop at the
first name that is not there, the functions that make directories split the whole path.  `new_node`
panics when the heap has no room for a node; for how many there is room is an input.
-/
import OpenHobbyOS.Kernel.StartStack
import OpenHobbyOS.Kernel.UserStrings
import OpenHobbyOS.Lib.Bytes
import OpenHobbyOS.Vfs.Atomicity
import OpenHobbyOS.Vfs.Calls

namespace OpenHobbyOS

open Lib List Paging Option

/-- `LINUX_W_OK`. -/
def wOk : U32 := 2
/-- `LINUX_X_OK`. -/
def xOk : U32 := 1

/-! ## The system calls -/

/-- The path that a system call copies from the user's memory. -/
def userPath (mem : U32 → U8) (base : U32) : Option (List U8) :=
  let copy := taskCopyStringFromUser mem (fun _ => 0) syscallPathMax base
  if copy.ok then some (((range syscallPathMax).map copy.dest).takeWhile (· ≠ 0)) else none

/-- The loop of `task_execve_from_user` over the arguments; `left` of them have room. -/
def copyArgs (mem : U32 → U8) (argv : U32) : ℕ → ℕ → Bool
  | 0, _ => true
  | left + 1, argc =>
    let src := argv + BitVec.ofNat 32 (4 * argc)
    let arg := BitVec.ofNat 32 (le32 (fun i => mem (src + BitVec.ofNat 32 i)) 0)
    if argv = 0 then true
    else if !taskValidateUserRange src 4 then false
    else if arg = 0 then true
    else (taskCopyStringFromUser mem (fun _ => 0) vfsPathMax arg).ok &&
      copyArgs mem argv left (argc + 1)

namespace FileSystem

variable (s : FileSystem) (t : ℕ)

/-- `task_resolve_path_internal` with the working directory. -/
def taskResolvePathInternal (path : List U8) : Option (Option NodeId) :=
  s.vfs.resolve (s.task t).cwd path

/-- `task_access`; `bound` says whether a socket is bound to the path, `executable` is
`task_is_executable_node`. -/
def taskAccess (path : List U8) (mode : U32) (bound executable : Bool) :
    Option (FileSystem × ℤ) :=
  (s.taskResolvePathInternal t path).map fun
    | none => (s, if bound then 0 else errNoent)
    | some n =>
      if hasFlag mode wOk then (s, errAcces)
      else if hasFlag mode xOk ∧ !(s.vfs.node n).isDir ∧ !executable then (s, errAcces)
      else (s, 0)

/-- `task_stat_path`; `copied`: the record could be copied. -/
def taskStatPath (path : List U8) (bound copied : Bool) : Option (FileSystem × ℤ) :=
  (s.taskResolvePathInternal t path).map fun
    | none => (s, if !bound then errNoent else if !copied then errFault else 0)
    | some _ => (s, if !copied then errFault else 0)

/-- `task_chdir`. -/
def taskChdir (path : List U8) : Option (FileSystem × ℤ) :=
  (s.taskResolvePathInternal t path).map fun
    | none => (s, errNoent)
    | some n =>
      if !(s.vfs.node n).isDir then (s, errNotdir)
      else ({ s with
        vfs := (s.vfs.path n).1
        task := Function.update s.task t { s.task t with cwd := some n } }, 0)

/-- The lookup in `task_execve_from_user`, behind the arguments; `loaded` is what the rest
returns. -/
def taskExecve (path : List U8) (copied executable : Bool) (loaded : ℤ) :
    Option (FileSystem × ℤ) :=
  if !copied then some (s, errFault)
  else
    (s.taskResolvePathInternal t path).map fun
      | none => (s, errNoent)
      | some n =>
        if (s.vfs.node n).isDir then (s, errNoent)
        else if !executable then (s, errAcces)
        else (s, loaded)

end FileSystem

/-- A system call with the user addresses of its paths. -/
inductive PathCall where
  | open (dirfd : ℤ) (path : U32) (flags : U32) (room : Bool)
  | stat (path : U32) (bound copied : Bool)
  | access (path : U32) (mode : U32) (bound executable : Bool)
  | chdir (path : U32)
  | mkdir (path : U32)
  | link (oldpath newpath : U32)
  | rename (oldpath newpath : U32)
  | unlink (path : U32) (bound : Bool)
  | execve (path argv : U32) (executable : Bool) (loaded : ℤ)

/-- The calls of `new_node` on the walk along a path: the room left, or a panic.  `again`: the last
name is made also if it is there. -/
def Vfs.walkNodes (again : Bool) : Vfs → ℕ → NodeId → List Segment → Option ℕ
  | _, nodes, _, [] => some nodes
  | v, nodes, parent, seg :: rest =>
    match v.findChild parent seg.name with
    | some c =>
      if !seg.last then walkNodes again v nodes c rest
      else if !again then some nodes
      else if nodes = 0 then none else some (nodes - 1)
    | none =>
      if nodes = 0 then none
      else if seg.last then some (nodes - 1)
      else walkNodes again (v.attach parent (newNode seg.name true)) (nodes - 1) v.size rest

namespace FileSystem

variable (s : FileSystem) (mem : U32 → U8) (t : ℕ)

/-- The path that a link makes a name for. -/
def linkPath (oldpath newpath : U32) : Option (List U8) :=
  (userPath mem oldpath).bind fun p => (userPath mem newpath).bind fun q =>
    if pathIsInTmp p ∧ pathIsInTmp q ∧ s.vfs.writable ∧
        ((s.vfs.resolveRamfile p).bind id).isSome ∧ s.vfs.resolve none q = some none then some q
    else none

/-- The path nodes are made for, and whether its last name is made in any case. -/
def nodePath : PathCall → Option (Bool × List U8)
  | .open dirfd path flags _ =>
    (userPath mem path).bind fun p => (s.taskResolveDirfd t dirfd).bind fun base =>
      if p ≠ [] ∧ s.vfs.resolve (some base) p = some none ∧ hasFlag flags oCreat ∧
        pathIsInTmp p ∧ s.vfs.writable then some (false, p) else none
  | .mkdir path => (userPath mem path).bind fun p => if s.vfs.writable then some (false, p) else none
  | .link oldpath newpath | .rename oldpath newpath =>
    (s.linkPath mem oldpath newpath).map fun q => (true, q)
  | _ => none

/-- The nodes of a system call, with room for so many. -/
def makeNodes (nodes : ℕ) (c : PathCall) : Option ℕ :=
  match s.nodePath mem t c with
  | none => some nodes
  | some (again, path) => Vfs.walkNodes again s.vfs nodes rootNode (segmentsOf path)

/-- A path that cannot be copied is an error of the call. -/
def withPath (base : U32) (f : List U8 → Option (FileSystem × ℤ)) : Option (FileSystem × ℤ) :=
  match userPath mem base with
  | none => some (s, errFault)
  | some path => f path

/-- The system call, as long as there is room for nodes; `none` is a panic. -/
def pathCallBody : PathCall → Option (FileSystem × ℤ)
  | .open dirfd path flags room =>
    s.withPath mem path fun path => s.taskOpenRelative t dirfd path flags room
  | .stat path bound copied => s.withPath mem path fun path => s.taskStatPath t path bound copied
  | .access path mode bound executable =>
    s.withPath mem path fun path => s.taskAccess t path mode bound executable
  | .chdir path => s.withPath mem path fun path => s.taskChdir t path
  | .mkdir path => s.withPath mem path fun path => s.sysOhMkdir path
  | .link oldpath newpath =>
    s.withPath mem oldpath fun oldpath => s.withPath mem newpath fun newpath =>
      s.sysLink oldpath newpath
  | .rename oldpath newpath =>
    s.withPath mem oldpath fun oldpath => s.withPath mem newpath fun newpath =>
      s.sysRename oldpath newpath
  | .unlink path bound => s.withPath mem path fun path => s.sysOhUnlink path bound
  | .execve path argv executable loaded =>
    if path = 0 then some (s, errInval)
    else
      s.withPath mem path fun path =>
        s.taskExecve t path (copyArgs mem argv taskStackArgMax 0) executable loaded

/-- The system call, with room for so many nodes; `none` is a panic. -/
def pathCall (nodes : ℕ) (c : PathCall) : Option (FileSystem × ℤ) :=
  (s.makeNodes mem t nodes c).bind fun _ => s.pathCallBody mem t c

end FileSystem

/-! ## Short names -/

namespace Vfs

variable (v : Vfs)

/-- Every name of the path is short. -/
def ShortNames (path : List U8) : Prop :=
  ∀ seg ∈ segmentsOf path, seg.name.length < vfsNameMax

/-- Every name that a lookup from `p` comes to is short. -/
def ShortFrom (p : NodeId) (segs : List Segment) : Prop :=
  ∀ before seg rest, segs = before ++ seg :: rest →
    (∃ n, v.resolveFrom p before = some (some n)) → seg.name.length < vfsNameMax

/-- Every name that `vfs_resolve` comes to is short. -/
def ShortLookup (cwd : Option NodeId) (path : List U8) : Prop :=
  v.mounted = true → v.ShortFrom (if path.head? = some slash then rootNode else cwd.getD rootNode)
    (segmentsOf path)

/-- The names that a link comes to: the old path's, the new path's if the old one is a ramfile,
and all of the new path if it is free. -/
def ShortLink (oldpath newpath : List U8) : Prop :=
  v.ShortLookup none oldpath ∧ ((∃ r, v.resolveRamfile oldpath = some (some r)) →
    v.ShortLookup none newpath ∧ (v.resolve none newpath = some none → ShortNames newpath))

end Vfs

/-- How many nodes a walk makes: one for each name from the first that is not there on, and one for
the last name if that is made in any case. -/
def Vfs.newNodes (v : Vfs) (again : Bool) : NodeId → List Segment → ℕ
  | _, [] => 0
  | p, seg :: rest =>
    match v.findChild p seg.name with
    | some c => if seg.last then again.toNat else newNodes v again c rest
    | none => rest.length + 1

/-- The names that a system call comes to are short. -/
def FileSystem.ShortCall (s : FileSystem) (mem : U32 → U8) (t : ℕ) : PathCall → Prop
  | .open dirfd path flags _ => ∀ p base, userPath mem path = some p → p ≠ [] →
    s.taskResolveDirfd t dirfd = some base → s.vfs.ShortLookup (some base) p ∧
      (s.vfs.resolve (some base) p = some none → hasFlag flags oCreat = true →
        pathIsInTmp p = true → s.vfs.writable = true → Vfs.ShortNames p)
  | .stat path _ _ | .access path _ _ _ | .chdir path =>
    ∀ p, userPath mem path = some p → s.vfs.ShortLookup (s.task t).cwd p
  | .execve path argv _ _ => ∀ p, userPath mem path = some p →
    copyArgs mem argv taskStackArgMax 0 = true → s.vfs.ShortLookup (s.task t).cwd p
  | .mkdir path => ∀ p, userPath mem path = some p → s.vfs.writable = true → Vfs.ShortNames p
  | .unlink path _ => ∀ p, userPath mem path = some p → pathIsInTmp p = true →
    s.vfs.writable = true → s.vfs.ShortLookup none p
  | .link oldpath newpath => ∀ p q, userPath mem oldpath = some p → userPath mem newpath = some q →
    pathIsInTmp p = true → pathIsInTmp q = true → s.vfs.ShortLookup none p ∧
      ((∃ r, s.vfs.resolveRamfile p = some (some r)) → s.vfs.ShortLookup none q ∧
        (s.vfs.resolve none q = some none → s.vfs.writable = true → Vfs.ShortNames q))
  | .rename oldpath newpath => ∀ p q, userPath mem oldpath = some p →
    userPath mem newpath = some q → pathIsInTmp p = true → pathIsInTmp q = true →
      s.vfs.writable = true → s.vfs.ShortLink p q

namespace Vfs

variable {v w : Vfs} {p n : NodeId} {segs : List Segment} {path oldpath newpath : List U8}

/-! ## Lookups -/

lemma shortFrom_nil : v.ShortFrom p [] := by
  intro before seg rest h
  simp at h

lemma shortFrom_cons {seg : Segment} {rest : List Segment} :
    v.ShortFrom p (seg :: rest) ↔ seg.name.length < vfsNameMax ∧
      ∀ before next tail, rest = before ++ next :: tail →
        (∃ n, v.resolveFrom p (seg :: before) = some (some n)) →
          next.name.length < vfsNameMax := by
  constructor
  · intro h
    refine ⟨h [] seg rest rfl ⟨p, rfl⟩, fun before next tail hrest => ?_⟩
    exact h (seg :: before) next tail (congrArg (seg :: ·) hrest)
  · rintro ⟨hseg, h⟩ before next tail hsegs hres
    cases before with
    | nil =>
      obtain rfl : seg = next := (cons.inj hsegs).1
      exact hseg
    | cons a before =>
      obtain ⟨rfl, hrest⟩ := cons.inj hsegs
      exact h before next tail hrest hres

lemma resolveFrom_returns_iff : v.resolveFrom p segs ≠ none ↔ v.ShortFrom p segs := by
  induction segs generalizing p with
  | nil => exact iff_of_true (by simp [resolveFrom]) shortFrom_nil
  | cons seg rest ih =>
    rw [shortFrom_cons]
    simp only [resolveFrom]
    by_cases hlong : vfsNameMax ≤ seg.name.length
    · simp [hlong]
    rw [if_neg hlong, and_iff_right (Nat.lt_of_not_le hlong)]
    simp only [if_neg hlong]
    by_cases hdot : seg.name = dot
    · simp only [if_pos hdot]
      exact ih
    simp only [if_neg hdot]
    by_cases hdotdot : seg.name = dotdot
    · simp only [if_pos hdotdot]
      exact ih
    simp only [if_neg hdotdot]
    cases v.findChild p seg.name with
    | none => simp
    | some c => exact ih

lemma resolve_returns_iff {cwd : Option NodeId} :
    v.resolve cwd path ≠ none ↔ v.ShortLookup cwd path := by
  rw [resolve, ShortLookup]
  cases v.mounted with
  | false => simp
  | true =>
    rw [forall_prop_of_true rfl, if_neg (by simp)]
    by_cases hroot : path = [slash]
    · subst hroot
      exact iff_of_true (by simp) shortFrom_nil
    · simp only [if_neg hroot]
      exact resolveFrom_returns_iff

/-! ## Changes -/

lemma descend_returns_iff :
    v.descend rootNode (segmentsOf path) ≠ none ↔ ShortNames path := by
  rw [ne_eq, descend_eq_none (segmented_segmentsOf path), ShortNames]
  simp

lemma mkdir_returns_iff : v.mkdir path ≠ none ↔ (v.writable = true → ShortNames path) := by
  rw [mkdir, ← descend_returns_iff (v := v)]
  cases v.writable <;> simp

lemma createRamfile_returns_iff {room : Bool} :
    v.createRamfile path room ≠ none ↔ (v.writable = true → ShortNames path) := by
  rw [createRamfile, ← descend_returns_iff (v := v)]
  cases v.writable <;> simp

lemma resolveRamfile_returns_iff : v.resolveRamfile path ≠ none ↔ v.ShortLookup none path := by
  rw [resolveRamfile, ← resolve_returns_iff]
  simp

lemma unlinkRamfile_returns_iff :
    v.unlinkRamfile path ≠ none ↔ (v.writable = true → v.ShortLookup none path) := by
  rw [unlinkRamfile, ← resolveRamfile_returns_iff]
  cases v.writable <;> simp

lemma linkRamfile_returns_iff :
    v.linkRamfile oldpath newpath ≠ none ↔
      (v.writable = true → v.ShortLink oldpath newpath) := by
  rw [linkRamfile, ShortLink, ← resolveRamfile_returns_iff, ← resolve_returns_iff,
    ← descend_returns_iff (v := v)]
  cases v.writable with
  | false => simp
  | true =>
    rw [if_neg (by simp), forall_prop_of_true rfl]
    cases v.resolveRamfile oldpath with
    | none => simp
    | some old =>
      cases old with
      | none => simp
      | some r =>
        cases v.resolve none newpath with
        | none => simp
        | some new => cases new <;> simp [linkAt]

lemma renameRamfile_returns_iff (hr : Reached v) :
    v.renameRamfile oldpath newpath ≠ none ↔
      (v.writable = true → v.ShortLink oldpath newpath) := by
  rw [← linkRamfile_returns_iff, renameRamfile]
  cases hw : v.writable with
  | false => simp [linkRamfile, hw]
  | true =>
    obtain ⟨htree, hlinked⟩ := hr.of_writable hw
    cases hlink : v.linkRamfile oldpath newpath with
    | none => simp
    | some result =>
      obtain ⟨w, x⟩ := result
      by_cases hx : x = 0
      · subst hx
        obtain ⟨u, hun⟩ := unlinkRamfile_of_link htree hlinked hlink
        simp [hun]
      · simp [hx]

end Vfs

/-! ## Nodes -/

namespace Vfs

variable {v : Vfs} {p : NodeId} {segs : List Segment} {again : Bool} {nodes : ℕ}

lemma walkNodes_empty (hsegs : Segmented segs) (hp : p < v.size) (hempty : (v.node p).children = []) :
    walkNodes again v nodes p segs ≠ none ↔ segs.length ≤ nodes := by
  induction segs generalizing v p nodes with
  | nil => simp [walkNodes]
  | cons seg rest ih =>
    obtain ⟨-, -, hlast, hrest⟩ := hsegs
    have hfind : v.findChild p seg.name = none := by simp [findChild, hempty]
    simp only [walkNodes, hfind, length_cons]
    rcases Nat.eq_zero_or_pos nodes with rfl | hpos
    · simp
    rw [if_neg hpos.ne']
    cases hl : seg.last with
    | true =>
      simp [hlast hl]
      omega
    | false =>
      have hnew : ((v.attach p (newNode seg.name true)).node v.size).children = [] := by
        rw [node_attach_new _ hp]
        rfl
      rw [if_neg (by simp), ih hrest (Nat.lt_succ_self v.size) hnew]
      omega

/-- **The walk** finds room exactly if there is enough for the nodes that it makes. -/
lemma walkNodes_returns_iff (h : IsTree v) (hsegs : Segmented segs) (hp : p < v.size) :
    walkNodes again v nodes p segs ≠ none ↔ v.newNodes again p segs ≤ nodes := by
  induction segs generalizing p nodes with
  | nil => simp [walkNodes, newNodes]
  | cons seg rest ih =>
    obtain ⟨-, -, hlast, hrest⟩ := id hsegs
    cases hfind : v.findChild p seg.name with
    | none =>
      rw [newNodes, hfind]
      simp only [walkNodes, hfind]
      rcases Nat.eq_zero_or_pos nodes with rfl | hpos
      · simp
      rw [if_neg hpos.ne']
      cases hl : seg.last with
      | true =>
        simp [hlast hl]
        omega
      | false =>
        have hnew : ((v.attach p (newNode seg.name true)).node v.size).children = [] := by
          rw [node_attach_new _ hp]
          rfl
        rw [if_neg (by simp), walkNodes_empty hrest (Nat.lt_succ_self v.size) hnew]
        omega
    | some c =>
      rw [newNodes, hfind]
      simp only [walkNodes, hfind]
      cases hl : seg.last with
      | false =>
        simp only [Bool.not_false, if_true, Bool.false_eq_true, if_false]
        exact ih hrest (h.children_lt hp (findChild_eq_some hfind).1)
      | true =>
        rcases Nat.eq_zero_or_pos nodes with rfl | hpos
        · cases again <;> simp
        · cases again <;> simp [hpos.ne']
          omega

end Vfs

/-! ## System calls -/

lemma userPath_zero (mem : U32 → U8) : userPath mem 0 = none := rfl

namespace FileSystem

variable {s : FileSystem} {mem : U32 → U8} {t : ℕ}

lemma withPath_returns_iff {base : U32} {f : List U8 → Option (FileSystem × ℤ)} :
    s.withPath mem base f ≠ none ↔ ∀ path, userPath mem base = some path → f path ≠ none := by
  rw [withPath]
  cases userPath mem base <;> simp

lemma taskOpenRelative_returns_iff {dirfd : ℤ} {path : List U8} {flags : U32} {room : Bool} :
    s.taskOpenRelative t dirfd path flags room ≠ none ↔
      ∀ base, path ≠ [] → s.taskResolveDirfd t dirfd = some base →
        s.vfs.ShortLookup (some base) path ∧
          (s.vfs.resolve (some base) path = some none → hasFlag flags oCreat = true →
            pathIsInTmp path = true → s.vfs.writable = true → Vfs.ShortNames path) := by
  rw [taskOpenRelative]
  by_cases hnil : path = []
  · simp [hnil]
  rw [if_neg hnil]
  cases s.taskResolveDirfd t dirfd with
  | none => simp
  | some base =>
    simp only [ne_eq, hnil, not_false_eq_true, forall_const, some.injEq, forall_eq',
      ← Vfs.resolve_returns_iff, ← @Vfs.createRamfile_returns_iff s.vfs path room]
    cases s.vfs.resolve (some base) path with
    | none => simp
    | some found =>
      cases found with
      | some n =>
        by_cases hexcl : hasFlag flags oCreat = true ∧ hasFlag flags oExcl = true <;> simp [hexcl]
      | none =>
        by_cases hcreate : hasFlag flags oCreat = true ∧ pathIsInTmp path = true
        · simp [hcreate]
        · simpa [hcreate] using fun h h' => absurd ⟨h, h'⟩ hcreate

lemma sysLink_returns_iff {oldpath newpath : List U8} :
    s.sysLink oldpath newpath ≠ none ↔
      (pathIsInTmp oldpath = true → pathIsInTmp newpath = true →
        s.vfs.ShortLookup none oldpath ∧ ((∃ r, s.vfs.resolveRamfile oldpath = some (some r)) →
          s.vfs.ShortLookup none newpath ∧ (s.vfs.resolve none newpath = some none →
            s.vfs.writable = true → Vfs.ShortNames newpath))) := by
  have hlink := @Vfs.linkRamfile_returns_iff s.vfs oldpath newpath
  rw [Vfs.ShortLink, ← Vfs.resolveRamfile_returns_iff, ← Vfs.resolve_returns_iff] at hlink
  rw [sysLink, ← Vfs.resolveRamfile_returns_iff, ← Vfs.resolve_returns_iff]
  by_cases htmp : pathIsInTmp oldpath = true ∧ pathIsInTmp newpath = true
  swap
  · rw [if_pos (by simpa [imp_iff_not_or] using htmp)]
    exact iff_of_true (by simp) fun hold hnew => absurd ⟨hold, hnew⟩ htmp
  rw [if_neg (by simp [htmp]), forall_prop_of_true htmp.1, forall_prop_of_true htmp.2]
  cases hold : s.vfs.resolveRamfile oldpath with
  | none => simp
  | some old =>
    cases old with
    | none => simp
    | some r =>
      cases hnew : s.vfs.resolve none newpath with
      | none => simp
      | some new =>
        cases new with
        | some n => simp
        | none =>
          rw [hold, hnew] at hlink
          simpa using hlink

lemma sysRename_returns_iff (hr : Vfs.Reached s.vfs) {oldpath newpath : List U8} :
    s.sysRename oldpath newpath ≠ none ↔
      (pathIsInTmp oldpath = true → pathIsInTmp newpath = true → s.vfs.writable = true →
        s.vfs.ShortLink oldpath newpath) := by
  rw [sysRename, ← Vfs.renameRamfile_returns_iff hr]
  cases pathIsInTmp oldpath <;> cases pathIsInTmp newpath <;> simp

lemma sysOhUnlink_returns_iff {path : List U8} {bound : Bool} :
    s.sysOhUnlink path bound ≠ none ↔
      (pathIsInTmp path = true → s.vfs.writable = true → s.vfs.ShortLookup none path) := by
  rw [sysOhUnlink, ← Vfs.unlinkRamfile_returns_iff]
  cases pathIsInTmp path <;> simp

lemma pathCallBody_returns_iff (hr : Vfs.Reached s.vfs) (c : PathCall) :
    s.pathCallBody mem t c ≠ none ↔ s.ShortCall mem t c := by
  cases c with
  | «open» dirfd path flags room =>
    rw [pathCallBody, withPath_returns_iff]
    simp only [taskOpenRelative_returns_iff, ShortCall]
    exact forall_congr' fun p => forall_comm
  | stat path bound copied =>
    rw [pathCallBody, withPath_returns_iff]
    simp [taskStatPath, taskResolvePathInternal, ShortCall, ← Vfs.resolve_returns_iff]
  | access path mode bound executable =>
    rw [pathCallBody, withPath_returns_iff]
    simp [taskAccess, taskResolvePathInternal, ShortCall, ← Vfs.resolve_returns_iff]
  | chdir path =>
    rw [pathCallBody, withPath_returns_iff]
    simp [taskChdir, taskResolvePathInternal, ShortCall, ← Vfs.resolve_returns_iff]
  | mkdir path =>
    rw [pathCallBody, withPath_returns_iff]
    simp [sysOhMkdir, ShortCall, ← Vfs.mkdir_returns_iff]
  | link oldpath newpath =>
    rw [pathCallBody, withPath_returns_iff]
    simp only [withPath_returns_iff, sysLink_returns_iff, ShortCall]
    exact forall_congr' fun p => forall_comm
  | rename oldpath newpath =>
    rw [pathCallBody, withPath_returns_iff]
    simp only [withPath_returns_iff, sysRename_returns_iff hr, ShortCall]
    exact forall_congr' fun p => forall_comm
  | unlink path bound =>
    rw [pathCallBody, withPath_returns_iff]
    simp only [sysOhUnlink_returns_iff, ShortCall]
  | execve path argv executable loaded =>
    rw [pathCallBody]
    by_cases hpath : path = 0
    · subst hpath
      refine iff_of_true (by simp) fun p hp => ?_
      rw [userPath_zero] at hp
      cases hp
    rw [if_neg hpath, withPath_returns_iff]
    cases hcopied : copyArgs mem argv taskStackArgMax 0 <;>
      simp [taskExecve, taskResolvePathInternal, ShortCall, hcopied, ← Vfs.resolve_returns_iff]

lemma nodePath_writable {c : PathCall} {again : Bool} {path : List U8}
    (h : s.nodePath mem t c = some (again, path)) : s.vfs.writable = true := by
  cases c with
  | «open» dirfd p flags room =>
    obtain ⟨p, -, h⟩ := bind_eq_some_iff.mp h
    obtain ⟨base, -, h⟩ := bind_eq_some_iff.mp h
    split_ifs at h with hcond
    exact hcond.2.2.2.2
  | mkdir p =>
    obtain ⟨p, -, h⟩ := bind_eq_some_iff.mp h
    split_ifs at h with hcond
    exact hcond
  | link old new | rename old new =>
    obtain ⟨q, hq, -⟩ := map_eq_some_iff.mp h
    obtain ⟨p, -, hq⟩ := bind_eq_some_iff.mp hq
    obtain ⟨q, -, hq⟩ := bind_eq_some_iff.mp hq
    split_ifs at hq with hcond
    exact hcond.2.2.1
  | stat | access | chdir | unlink | execve => cases h

/-- **System calls with paths** return if and only if the names they come to are short, and there is
room for the nodes that they make. -/
theorem path_call_returns_iff (hr : Vfs.Reached s.vfs) (nodes : ℕ) (c : PathCall) :
    s.pathCall mem t nodes c ≠ none ↔ s.ShortCall mem t c ∧
      ∀ again path, s.nodePath mem t c = some (again, path) →
        s.vfs.newNodes again rootNode (segmentsOf path) ≤ nodes := by
  rw [← pathCallBody_returns_iff hr, pathCall, makeNodes]
  cases hpath : s.nodePath mem t c with
  | none => simp
  | some walk =>
    obtain ⟨again, path⟩ := walk
    have htree := (hr.of_writable (nodePath_writable hpath)).1
    have hwalk := @Vfs.walkNodes_returns_iff s.vfs rootNode _ again nodes htree
      (segmented_segmentsOf path) htree.root_lt
    have hroom : (∀ again' path', some (again, path) = some (again', path') →
        s.vfs.newNodes again' rootNode (segmentsOf path') ≤ nodes) ↔
          s.vfs.newNodes again rootNode (segmentsOf path) ≤ nodes := by
      refine ⟨fun h => h again path rfl, ?_⟩
      rintro h _ _ ⟨⟩
      exact h
    rw [hroom, ← hwalk]
    dsimp only
    cases Vfs.walkNodes again s.vfs nodes rootNode (segmentsOf path) <;> simp

/-- A task with the root as its working directory, in the tree of an empty archive. -/
def emptySystem : FileSystem where
  vfs := Vfs.emptyTree
  task := fun _ => ⟨fun _ => TaskFd.zero, some rootNode⟩

/-- User memory with `length` bytes `a` and a zero byte. -/
def lettersMemory (length : ℕ) (a : U32) : U8 :=
  if a.toNat < userBase.toNat + length then 0x61 else 0

/-- The longest name that is short. -/
theorem mkdir_returns :
    emptySystem.pathCall (lettersMemory 63) 0 1 (.mkdir userBase) ≠ none := by
  have hname : userPath (lettersMemory 63) userBase = some (replicate 63 0x61) := by
    decide +kernel
  refine (path_call_returns_iff (.boot Vfs.initRamfs_nil) 1 _).mpr ⟨fun p hp _ => ?_, ?_⟩
  · obtain rfl : replicate 63 0x61 = p := Option.some.inj (hname.symm.trans hp)
    exact show ∀ seg ∈ segmentsOf (replicate 63 0x61), seg.name.length < vfsNameMax by
      decide +kernel
  · intro again path hpath
    have hmade : emptySystem.nodePath (lettersMemory 63) 0 (.mkdir userBase) =
        some (false, replicate 63 0x61) := by
      decide +kernel
    obtain ⟨rfl, rfl⟩ := Prod.mk.inj (Option.some.inj (hmade.symm.trans hpath))
    decide +kernel

/-- **A panic from user space**: a name of 64 bytes, for a call that makes it and for one that
looks it up. -/
theorem long_name_panics :
    Vfs.Reached emptySystem.vfs ∧
      emptySystem.pathCall (lettersMemory 64) 0 9 (.mkdir userBase) = none ∧
      emptySystem.pathCall (lettersMemory 64) 0 9 (.open atFdcwd userBase 0 true) = none := by
  exact ⟨.boot Vfs.initRamfs_nil, by decide +kernel, by decide +kernel⟩

end FileSystem

end OpenHobbyOS
