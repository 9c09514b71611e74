/-
# What copying to user memory and saving a slot change

Copying changes memory only.  Saving a slot copies the current state into it and counts the
references of its descriptors once more.
-/
import OpenHobbyOS.Kernel.Step

namespace OpenHobbyOS

open Paging Lib Function List Option

/-! ## Memory -/

/-- Switching to the current directory keeps `cr3`. -/
def CanonicalCr3 (s : PagingState) : Prop :=
  pageDirectoryGetCurrent s ≠ 0 ∧ physOf (pageDirectoryGetCurrent s) = s.cr3

lemma copyToUser_eq {k k' : Kernel} {v : Bool} {dest : U32} {src : List U8}
    (h : k.copyToUser dest src = some (k', v)) : ∃ s, k' = { k with paging := s } := by
  rw [Kernel.copyToUser] at h
  split_ifs at h
  · cases h
    exact ⟨k.paging, rfl⟩
  · obtain ⟨s, -, heq⟩ := map_eq_some_iff.mp h
    cases heq
    exact ⟨s, rfl⟩

/-! ## Saving a slot -/

section Save

variable (k : Kernel) (fds : FdId → TaskFd) (l : List FdId)

lemma foldl_retainSocket :
    l.foldl (fun k fd => k.retainSocket (fds fd)) k =
      { k with
        sockets := fun e =>
          { k.sockets e with
            refcount := (k.sockets e).refcount +
              l.countP fun fd => (fds fd).socketRef = some e } } := by
  induction l generalizing k with
  | nil => simp
  | cons fd l ih =>
    rw [foldl_cons, ih, Kernel.retainSocket]
    cases hr : (fds fd).socketRef with
    | none => simp [hr]
    | some e₀ =>
      simp only [Kernel.mk.injEq, true_and, Kernel.updSocket_paging,
        Kernel.updSocket_slots, Kernel.updSocket_current, Kernel.updSocket_active,
        Kernel.updSocket_pipes]
      refine ⟨rfl, rfl, rfl, ?_, rfl, rfl, rfl⟩
      funext e
      rw [Kernel.sockets_updSocket, countP_cons]
      by_cases he : e = e₀
      · subst he
        simp only [if_true, SocketEndpoint.retain, hr, decide_true, SocketEndpoint.mk.injEq,
          and_true, true_and]
        push_cast
        ring
      · have hne : ¬ e₀ = e := fun h => he h.symm
        simp [he, hr, hne]

lemma foldl_retainPipe :
    l.foldl (fun k fd => k.retainPipe (fds fd)) k =
      { k with
        pipes := fun p =>
          { k.pipes p with
            refcount := (k.pipes p).refcount +
              l.countP fun fd => (fds fd).pipeRef = some p } } := by
  induction l generalizing k with
  | nil => simp
  | cons fd l ih =>
    rw [foldl_cons, ih, Kernel.retainPipe]
    cases hr : (fds fd).pipeRef with
    | none => simp [hr]
    | some p₀ =>
      simp only [Kernel.mk.injEq, true_and, Kernel.updPipe_paging,
        Kernel.updPipe_slots, Kernel.updPipe_current, Kernel.updPipe_active,
        Kernel.updPipe_sockets]
      refine ⟨rfl, rfl, rfl, ?_, rfl, rfl, rfl⟩
      funext p
      rw [Kernel.pipes_updPipe, countP_cons]
      by_cases hp : p = p₀
      · subst hp
        simp only [if_true, PipeEndpoint.retain, hr, decide_true, PipeEndpoint.mk.injEq,
          and_true, true_and]
        push_cast
        ring
      · have hne : ¬ p₀ = p := fun h => hp h.symm
        simp [hp, hr, hne]

/-- How many entries of a table refer to an endpoint. -/
def socketEntries (fds : FdId → TaskFd) (e : SocketId) : ℕ :=
  (List.finRange taskMaxFds).countP fun fd => (fds fd).socketRef = some e

/-- How many entries of a table refer to a pipe. -/
def pipeEntries (fds : FdId → TaskFd) (p : PipeId) : ℕ :=
  (List.finRange taskMaxFds).countP fun fd => (fds fd).pipeRef = some p

lemma slotSaveState_eq (i : SlotId) (regs : Registers) :
    k.slotSaveState i regs =
      { k with
        slots := Function.update k.slots i
          { k.slots i with state := k.current, regs := regs, seeded := true }
        sockets := fun e =>
          { k.sockets e with refcount := (k.sockets e).refcount + socketEntries k.current.fds e }
        pipes := fun p =>
          { k.pipes p with refcount := (k.pipes p).refcount + pipeEntries k.current.fds p } } := by
  simp only [Kernel.slotSaveState, foldl_retainSocket, foldl_retainPipe, Kernel.updSlot,
    update_self, update_idem]
  rfl

variable (i : SlotId) (regs : Registers)

lemma slots_slotSaveState (j : SlotId) :
    (k.slotSaveState i regs).slots j =
      if j = i then { k.slots i with state := k.current, regs := regs, seeded := true }
      else k.slots j := by
  rw [slotSaveState_eq]
  exact update_apply _ _ _ _

end Save

end OpenHobbyOS
