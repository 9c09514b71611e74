/-
# Removing the name of a socket

`sys_oh_unlink` of `src/syscall.c` with the socket table of `src/socket.c`, the only place that
keeps the name of a socket.  Under `/tmp` the call only ever asks for a ramfile; elsewhere it takes
the name from the first endpoint that has it.
-/
import OpenHobbyOS.Kernel.UserStrings
import OpenHobbyOS.Socket.Operations
import OpenHobbyOS.Vfs.Calls

namespace OpenHobbyOS

open Lib List Paging Option

namespace Kernel

variable (k : Kernel)

/-- `socket_stat_path`, without the record that it fills. -/
def socketStatPath (path : List U8) : ℤ :=
  if ((finRange socketMaxObjects).find? fun e =>
      (k.sockets e).used && (k.sockets e).bound && (k.sockets e).path = path).isSome then 0
  else errNoent

/-- `sys_oh_unlink` of the string at a user address. -/
def sysOhUnlink (s : FileSystem) (mem : U32 → U8) (base : U32) (path : List U8) :
    Option (FileSystem × Kernel × ℤ) :=
  if !(taskCopyStringFromUser mem (fun _ => 0) syscallPathMax base).ok then some (s, k, errFault)
  else
    (s.sysOhUnlink path (k.socketUnlinkPath path).2).map fun r =>
      (r.1, if pathIsInTmp path then k else (k.socketUnlinkPath path).1, r.2)

/-! ## What removal should do -/

/-- The endpoint is bound to the path. -/
def BoundAt (path : List U8) (e : SocketId) : Prop :=
  (k.sockets e).used = true ∧ (k.sockets e).bound = true ∧ (k.sockets e).path = path

/-- `stat` and `access` do not find the name, no socket can connect to it, and a new one can get it
and listen. -/
structure NameFree (path : List U8) : Prop where
  absent : k.socketStatPath path = errNoent
  refused : ∀ e addrlen, (k.sockets e).peer = none → (k.sockets e).domain = afUnix →
    (k.sockets e).type = sockStream → 2 ≤ addrlen →
    k.socketConnect e ⟨afUnix, path⟩ addrlen = some (k, errConnrefused)
  reusable : ∀ k₁ e addrlen backlog, k.socketCreate afUnix sockStream = some (k₁, e) →
    2 ≤ addrlen → ∃ k₂, k₁.socketBind e ⟨afUnix, path⟩ addrlen = (k₂, 0) ∧
      ((k₂.sockets e).listen backlog).2 = 0

/-- The system call succeeds and leaves the name free. -/
def NameRemoved (s : FileSystem) (mem : U32 → U8) (base : U32) (path : List U8) : Prop :=
  ∃ s' k', k.sysOhUnlink s mem base path = some (s', k', 0) ∧ k'.NameFree path

/-- At most one endpoint is bound to the path. -/
def OneName (path : List U8) : Prop := ∀ e e', k.BoundAt path e → k.BoundAt path e' → e = e'

/-! ## Searches of the table -/

variable {k : Kernel} {path : List U8}

lemma boundAt_iff {e : SocketId} : k.BoundAt path e ↔ ((k.sockets e).used &&
    (k.sockets e).bound && (k.sockets e).path = path) = true := by
  simp [BoundAt, and_assoc]

lemma socketStatPath_eq : k.socketStatPath path = errNoent ↔ ∀ e, ¬ k.BoundAt path e := by
  rw [socketStatPath]
  split_ifs with h
  · refine iff_of_false (by decide) fun hno => ?_
    obtain ⟨e, he⟩ := isSome_iff_exists.mp h
    have hpred := find?_some he
    exact hno e (boundAt_iff.mpr hpred)
  · refine iff_of_true rfl fun e he => h ?_
    rw [find?_isSome]
    exact ⟨e, mem_finRange e, boundAt_iff.mp he⟩

lemma socketFindListenerByPath_eq_none (h : ∀ e, ¬ k.BoundAt path e) :
    k.socketFindListenerByPath path = none := by
  refine find?_eq_none.mpr fun e _ he => h e ?_
  simp only [Bool.and_eq_true, decide_eq_true_eq] at he
  exact ⟨he.1.1.1, he.1.2, he.2⟩

lemma socketUnlinkPath_spec (hbound : ∃ e, k.BoundAt path e) :
    ∃ e, k.BoundAt path e ∧ k.socketUnlinkPath path =
      (k.updSocket e fun s => { s with bound := false, path := [] }, true) := by
  obtain ⟨e₀, h₀⟩ := hbound
  cases hfind : (finRange socketMaxObjects).find? fun e =>
      (k.sockets e).used && (k.sockets e).bound && (k.sockets e).path = path with
  | none => exact absurd (boundAt_iff.mp h₀) (find?_eq_none.mp hfind e₀ (mem_finRange e₀))
  | some e =>
    have hpred := find?_some hfind
    refine ⟨e, boundAt_iff.mpr hpred, ?_⟩
    rw [socketUnlinkPath, hfind]

lemma boundAt_unlinked {e e' : SocketId} :
    (k.updSocket e fun s => { s with bound := false, path := [] }).BoundAt path e' ↔
      e' ≠ e ∧ k.BoundAt path e' := by
  rw [BoundAt, sockets_updSocket]
  by_cases he : e' = e
  · simp [he]
  · simp [he, BoundAt]

/-! ## A free name -/

lemma socketConnect_of_free (hne : path ≠ []) (h : ∀ e, ¬ k.BoundAt path e) {e : SocketId}
    {addrlen : U32} (hpeer : (k.sockets e).peer = none) (hdomain : (k.sockets e).domain = afUnix)
    (htype : (k.sockets e).type = sockStream) (hlen : 2 ≤ addrlen) :
    k.socketConnect e ⟨afUnix, path⟩ addrlen = some (k, errConnrefused) := by
  have hlen' : ¬ addrlen < 2 := BitVec.not_lt.mpr hlen
  have htarget : k.connectTarget e ⟨afUnix, path⟩ addrlen = .error errConnrefused := by
    rw [connectTarget]
    dsimp only
    rw [hpeer, hdomain, htype, if_neg (by simp), if_neg (by simp), if_neg hlen', if_neg (by simp),
      if_neg hne, socketFindListenerByPath_eq_none h]
  rw [socketConnect, htarget]

lemma socketBind_of_free (hmax : path.length < vfsPathMax)
    (h : ∀ e, ¬ k.BoundAt path e) {k₁ : Kernel} {e : SocketId} {addrlen : U32} (backlog : ℤ)
    (hcreate : k.socketCreate afUnix sockStream = some (k₁, e)) (hlen : 2 ≤ addrlen) :
    ∃ k₂, k₁.socketBind e ⟨afUnix, path⟩ addrlen = (k₂, 0) ∧
      ((k₂.sockets e).listen backlog).2 = 0 := by
  rw [socketCreate, if_neg (by simp)] at hcreate
  obtain ⟨⟨k₀, e₀⟩, halloc, hk⟩ := map_eq_some_iff.mp hcreate
  obtain ⟨-, rfl⟩ := socketAlloc_spec halloc
  obtain ⟨rfl, rfl⟩ := Prod.mk.inj hk
  dsimp only at *
  set k₁ := (k.updSocket e₀ fun _ => .fresh).updSocket e₀ fun s =>
    { s with domain := afUnix, type := sockStream } with hk₁
  have hself : k₁.sockets e₀ =
      { SocketEndpoint.fresh with domain := afUnix, type := sockStream } := by
    rw [hk₁, updSocket_sockets_self, updSocket_sockets_self]
  -- the new socket has no name, the others are as before
  have hfree : ∀ e, ¬ k₁.BoundAt path e := by
    intro e he
    by_cases hee : e = e₀
    · subst hee
      have hbound := he.2.1
      rw [hself] at hbound
      cases hbound
    · refine h e ?_
      rw [BoundAt, hk₁, sockets_updSocket, if_neg hee, sockets_updSocket, if_neg hee] at he
      exact he
  have hlen' : ¬ addrlen < 2 := BitVec.not_lt.mpr hlen
  have hnew : ¬ ((k₁.sockets e₀).bound = true ∨ addrlen < 2) := by
    rw [hself]
    rintro (hbound | hshort)
    · cases hbound
    · exact hlen' hshort
  refine ⟨k₁.updSocket e₀ (·.named path), ?_, ?_⟩
  · rw [socketBind]
    dsimp only
    rw [if_neg hnew, hself, socketFindListenerByPath_eq_none hfree, if_neg (by simp),
      if_neg (by simp), if_neg (by omega), if_neg (by simp)]
  · rw [updSocket_sockets_self, hself, SocketEndpoint.listen, if_neg (by simp [SocketEndpoint.named])]

lemma nameFree_iff (hne : path ≠ []) (hmax : path.length < vfsPathMax) :
    k.NameFree path ↔ ∀ e, ¬ k.BoundAt path e :=
  ⟨fun h => socketStatPath_eq.mp h.absent, fun h => ⟨socketStatPath_eq.mpr h,
    fun _ _ => socketConnect_of_free hne h, fun _ _ _ b => socketBind_of_free hmax h b⟩⟩

/-! ## The system call -/

/-- **Removing a socket's name** works exactly for a path outside `/tmp` that fits the buffer and
that one endpoint only is bound to. -/
theorem name_removed_iff (k : Kernel) (s : FileSystem) {mem : U32 → U8} {base : U32}
    {path : List U8} (hmem : UserString mem base path) (hne : path ≠ [])
    (hbound : ∃ e, k.BoundAt path e) :
    k.NameRemoved s mem base path ↔
      pathIsInTmp path = false ∧ path.length < syscallPathMax - 1 ∧ k.OneName path := by
  have hcopy := copied_iff hmem (fun _ => 0) (by decide : 0 < syscallPathMax)
  have hmaxes : vfsPathMax = syscallPathMax := rfl
  rw [NameRemoved, sysOhUnlink]
  by_cases hlong : path.length < syscallPathMax - 1
  swap
  · have hbad : (!(taskCopyStringFromUser mem (fun _ => 0) syscallPathMax base).ok) = true := by
      rw [Bool.not_eq_true', Bool.eq_false_iff]
      exact fun h => hlong (hcopy.mp h)
    rw [if_pos hbad]
    refine iff_of_false ?_ fun h => hlong h.2.1
    rintro ⟨s', k', h, -⟩
    have hresult : errFault = 0 := congrArg (·.2.2) (Option.some.inj h)
    exact absurd hresult (by decide)
  have hmax : path.length < vfsPathMax := by omega
  rw [if_neg (by rw [hcopy.mpr hlong]; simp)]
  by_cases htmp : pathIsInTmp path = true
  · -- the socket table is not looked at
    refine iff_of_false ?_ fun h => by rw [htmp] at h; exact absurd h.1 (by simp)
    rintro ⟨s', k', h, hfree⟩
    obtain ⟨r, -, hr⟩ := map_eq_some_iff.mp h
    rw [if_pos htmp] at hr
    obtain rfl := congrArg (·.2.1) hr
    obtain ⟨e, he⟩ := hbound
    exact (nameFree_iff hne hmax).mp hfree e he
  rw [Bool.not_eq_true] at htmp
  obtain ⟨e, he, hunlink⟩ := socketUnlinkPath_spec hbound
  rw [FileSystem.sysOhUnlink, htmp, hunlink]
  simp only [Bool.false_eq_true, if_false, if_true, map_some, some.injEq,
    Prod.mk.injEq, hlong, true_and, and_true]
  constructor
  · rintro ⟨s', k', ⟨-, rfl⟩, hfree⟩ e₁ e₂ h₁ h₂
    have hnone := (nameFree_iff hne hmax).mp hfree
    have hfirst : ∀ e', k.BoundAt path e' → e' = e := by
      intro e' he'
      by_contra hee
      exact hnone e' (boundAt_unlinked.mpr ⟨hee, he'⟩)
    rw [hfirst e₁ h₁, hfirst e₂ h₂]
  · intro hone
    refine ⟨s, _, ⟨rfl, rfl⟩, (nameFree_iff hne hmax).mpr fun e' he' => ?_⟩
    obtain ⟨hee, he'⟩ := boundAt_unlinked.mp he'
    exact hee (hone e' e he' he)

/-- One socket listens on the path. -/
def listenerOn (path : List U8) : Kernel :=
  (boot MapSystem.smallBoot MapSystem.blank).updSocket 0 fun _ =>
    { SocketEndpoint.fresh with
      domain := afUnix, type := sockStream, bound := true, path := path, listening := true }

/-- The path at the start of the user area. -/
def pathMemory (path : List U8) (a : U32) : U8 := path.getD (a - userBase).toNat 0

/-- No file at all. -/
def noFiles : FileSystem := ⟨Vfs.bare, fun _ => ⟨fun _ => .zero, none⟩⟩

theorem name_removed_run :
    (listenerOn (text "/run/x")).NameRemoved noFiles (pathMemory (text "/run/x")) userBase
      (text "/run/x") := by
  refine (name_removed_iff _ _ ⟨by decide, by decide, by decide, by decide, by decide⟩ (by decide)
    ⟨0, rfl, rfl, rfl⟩).mpr ⟨by decide, by decide, ?_⟩
  have hzero : ∀ e, (listenerOn (text "/run/x")).BoundAt (text "/run/x") e → e = 0 := by
    intro e he
    by_contra hne
    have hused := he.1
    rw [listenerOn, sockets_updSocket, if_neg hne] at hused
    cases hused
  intro e e' he he'
  rw [hzero e he, hzero e' he']

/-- Under `/tmp` the system call does not look for a socket. -/
theorem name_kept_tmp :
    ¬ (listenerOn (text "/tmp/x")).NameRemoved noFiles (pathMemory (text "/tmp/x")) userBase
      (text "/tmp/x") := by
  rintro ⟨s', k', h, -⟩
  have hresult : ((listenerOn (text "/tmp/x")).sysOhUnlink noFiles (pathMemory (text "/tmp/x"))
      userBase (text "/tmp/x")).map (fun r => r.2.2) = some 0 := by rw [h]; rfl
  exact absurd hresult (by decide +kernel)

end Kernel

end OpenHobbyOS
