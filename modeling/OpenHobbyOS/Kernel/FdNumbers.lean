/-
# Descriptor numbers

Where the calls that take the number of a descriptor go into `current_task.fds`.  All look their
source up with `task_fd_slot`; `sys_dup2` looks its target up only to close it.
-/
import OpenHobbyOS.Kernel.Step
import OpenHobbyOS.Paging.Isolation

namespace OpenHobbyOS

open Paging Option

/-! ## `lseek` -/

/-- The last argument of `lseek`. -/
inductive Whence where
  | set | cur | fin | other

namespace Kernel

variable (k : Kernel)

/-- `task_lseek` on an object of `size` bytes. -/
def taskLseek (fd : ℤ) (offset : U32) (whence : Whence) (size : U32) : Kernel × ℤ :=
  match fdSlot fd with
  | none => (k, errBadf)
  | some n =>
    let f := k.current.fds n
    if !f.used then (k, errBadf)
    else if f.kind = .console then (k, errInval)
    else
      let next : Option U32 :=
        match whence with
        | .set => some offset
        | .cur => some (f.offset + offset)
        | .fin => some (size + offset)
        | .other => none
      match next with
      | none => (k, errInval)
      | some next =>
        if next.msb then (k, errInval) else (k.setFd n { f with offset := next }, next.toInt)

end Kernel

/-! ## The calls -/

/-- The calls with a descriptor's number. -/
inductive FdCall where
  | dup (oldfd : ℤ)
  | dup2 (oldfd newfd : ℤ)
  | dupFd (fd arg : ℤ)
  | close (fd : ℤ)
  | read (fd : ℤ) (buffer length : U32) (x : External)
  | write (fd : ℤ) (buffer : U32) (src : List U8) (tmp : Bool) (x : External)
  | lseek (fd : ℤ) (offset : U32) (whence : Whence) (size : U32)

namespace FdCall

/-- What a call does. -/
def run (k : Kernel) : FdCall → Option (Kernel × ℤ)
  | dup oldfd => some (k.sysDup oldfd)
  | dup2 oldfd newfd => k.sysDup2 oldfd newfd
  | dupFd fd arg => some (k.sysFcntl fd (.dupFd arg))
  | close fd => some (k.taskClose fd)
  | read fd buffer length x => k.sysRead fd buffer length x
  | write fd buffer src tmp x => k.sysWrite fd buffer src tmp x
  | lseek fd offset whence size => some (k.taskLseek fd offset whence size)

/-- The descriptor that is looked up. -/
def source : FdCall → ℤ
  | dup fd | dup2 fd _ | dupFd fd _ | close fd | read fd .. | write fd .. | lseek fd .. => fd

/-- The descriptor that is to be made. -/
def target : FdCall → Option ℤ
  | dup2 _ newfd => some newfd
  | dupFd _ arg => some arg
  | _ => none

end FdCall

namespace Kernel

variable (k : Kernel)

/-- The number is that of an open descriptor. -/
def isOpen (fd : ℤ) : Bool := (fdSlot fd).any fun n => (k.current.fds n).used

/-- What `task_fd_slot` leads to. -/
def slotIndex (fd : ℤ) : List ℤ := ((fdSlot fd).map fun n => (n.val : ℤ)).toList

/-- The indices with which a call goes into the table. -/
def tableIndices : FdCall → List ℤ
  | .dup oldfd =>
    slotIndex oldfd ++
      if k.isOpen oldfd then (List.finRange taskMaxFds).map fun n => (n.val : ℤ) else []
  | .dup2 oldfd newfd =>
    if oldfd = newfd then []
    else slotIndex oldfd ++ if k.isOpen oldfd then slotIndex newfd ++ [newfd] else []
  | .dupFd fd arg => slotIndex fd ++ if k.isOpen fd then slotIndex arg else []
  | .close fd | .read fd .. | .write fd .. | .lseek fd .. => slotIndex fd

/-- The source is no open descriptor, or the target no descriptor. -/
def BadNumber (c : FdCall) : Prop :=
  k.isOpen c.source = false ∨ ∃ t ∈ c.target, fdSlot t = none

/-- Bad numbers are refused, and no access leaves the table. -/
structure NumbersSafe (c : FdCall) : Prop where
  inTable : ∀ i ∈ k.tableIndices c, 0 ≤ i ∧ i < taskMaxFds
  refused : k.BadNumber c →
    ∃ k' v, c.run k = some (k', v) ∧ v < 0 ∧ k'.current.fds = k.current.fds
  closes : ∀ {oldfd newfd : ℤ} {n m : FdId}, c = .dup2 oldfd newfd → oldfd ≠ newfd →
    fdSlot oldfd = some n → fdSlot newfd = some m → (k.current.fds n).used = true →
    (k.current.fds m).used = true → c.run k = some (((k.taskClose newfd).1).setFd m
      ((k.taskClose newfd).1.current.fds n), newfd)

/-- `dup2` has different descriptors and a target in the table, or one that is open or negative;
`read` is not of nothing from a closed one. -/
def NumbersChecked : FdCall → Prop
  | .dup2 oldfd newfd =>
    if oldfd = newfd then k.isOpen oldfd = true ∨ oldfd < 0
    else k.isOpen oldfd = true → (fdSlot newfd).isSome = true
  | .read fd _ length _ => length = 0 → k.isOpen fd = true
  | _ => True

variable {k} {fd : ℤ}

lemma fdSlot_spec {n : FdId} (h : fdSlot fd = some n) : (n.val : ℤ) = fd := by
  rw [fdSlot] at h
  split_ifs at h with hfd
  cases h
  exact Int.toNat_of_nonneg hfd.1

lemma slotIndex_inTable {i : ℤ} (h : i ∈ slotIndex fd) : 0 ≤ i ∧ i < taskMaxFds := by
  rw [slotIndex, mem_toList, map_eq_some_iff] at h
  obtain ⟨n, -, rfl⟩ := h
  exact ⟨Int.natCast_nonneg _, Int.ofNat_lt.mpr n.isLt⟩

lemma run_of_closed {c : FdCall} (h : k.isOpen c.source = false)
    (hdup : ∀ oldfd, c ≠ .dup2 oldfd oldfd) (hread : ∀ fd buffer x, c ≠ .read fd buffer 0 x) :
    ∃ v, c.run k = some (k, v) ∧ v < 0 := by
  have hslot : fdSlot c.source = none ∨ ∃ n, fdSlot c.source = some n ∧
      (k.current.fds n).used = false := by
    rw [isOpen] at h
    cases hs : fdSlot c.source with
    | none => exact .inl rfl
    | some n =>
      rw [hs] at h
      exact .inr ⟨n, rfl, h⟩
  have hbad : errBadf < 0 := by decide
  have hfault : errFault < 0 := by decide
  cases c with
  | dup oldfd =>
    refine ⟨errBadf, ?_, hbad⟩
    rcases hslot with hs | ⟨n, hs, hu⟩ <;> simp_all [FdCall.run, FdCall.source, sysDup]
  | dup2 oldfd newfd =>
    have hne : oldfd ≠ newfd := fun heq => hdup oldfd (by rw [heq])
    refine ⟨errBadf, ?_, hbad⟩
    rcases hslot with hs | ⟨n, hs, hu⟩ <;> simp_all [FdCall.run, FdCall.source, sysDup2]
  | dupFd fd arg =>
    refine ⟨errBadf, ?_, hbad⟩
    rcases hslot with hs | ⟨n, hs, hu⟩ <;> simp_all [FdCall.run, FdCall.source, sysFcntl]
  | close fd =>
    refine ⟨errBadf, ?_, hbad⟩
    rcases hslot with hs | ⟨n, hs, hu⟩ <;> simp_all [FdCall.run, FdCall.source, taskClose]
  | read fd buffer length x =>
    have hlen : length ≠ 0 := fun heq => hread fd buffer x (by rw [heq])
    rw [FdCall.run, sysRead, if_neg hlen]
    split_ifs
    · exact ⟨errFault, rfl, hfault⟩
    · refine ⟨errBadf, ?_, hbad⟩
      rcases hslot with hs | ⟨n, hs, hu⟩ <;> simp_all [FdCall.source, taskReadFd]
  | write fd buffer src tmp x =>
    rw [FdCall.run, sysWrite]
    split_ifs
    · exact ⟨errFault, rfl, hfault⟩
    · refine ⟨errBadf, ?_, hbad⟩
      rcases hslot with hs | ⟨n, hs, hu⟩ <;> simp_all [FdCall.source, taskWriteFd]
  | lseek fd offset whence size =>
    refine ⟨errBadf, ?_, hbad⟩
    rcases hslot with hs | ⟨n, hs, hu⟩ <;> simp_all [FdCall.run, FdCall.source, taskLseek]

lemma isSome_of_isOpen (h : k.isOpen fd = true) : (fdSlot fd).isSome = true := by
  rw [isOpen, any_eq_true] at h
  obtain ⟨n, hn, -⟩ := h
  rw [hn]
  rfl

lemma tableIndices_inTable {c : FdCall} (h : k.NumbersChecked c) :
    ∀ i ∈ k.tableIndices c, 0 ≤ i ∧ i < taskMaxFds := by
  intro i hi
  cases c with
  | dup oldfd =>
    rcases List.mem_append.mp hi with hi | hi
    · exact slotIndex_inTable hi
    · split_ifs at hi
      · obtain ⟨n, -, rfl⟩ := List.mem_map.mp hi
        exact ⟨Int.natCast_nonneg _, Int.ofNat_lt.mpr n.isLt⟩
      · cases hi
  | dup2 oldfd newfd =>
    rw [NumbersChecked] at h
    rw [tableIndices] at hi
    split_ifs at h hi with hne hopen
    · cases hi
    · rcases List.mem_append.mp hi with hi | hi
      · exact slotIndex_inTable hi
      rcases List.mem_append.mp hi with hi | hi
      · exact slotIndex_inTable hi
      · obtain rfl := List.mem_singleton.mp hi
        obtain ⟨m, hm⟩ := isSome_iff_exists.mp (h hopen)
        exact slotIndex_inTable (by rw [slotIndex, hm, ← fdSlot_spec hm]; simp)
    · exact slotIndex_inTable (by simpa using hi)
  | dupFd fd arg =>
    rcases List.mem_append.mp hi with hi | hi
    · exact slotIndex_inTable hi
    · split_ifs at hi
      · exact slotIndex_inTable hi
      · cases hi
  | close fd => exact slotIndex_inTable hi
  | read fd buffer length x => exact slotIndex_inTable hi
  | write fd buffer src tmp x => exact slotIndex_inTable hi
  | lseek fd offset whence size => exact slotIndex_inTable hi

/-- An index outside the table is one that the model of the call does not get past. -/
lemma run_eq_none_of_outside {c : FdCall} {i : ℤ} (hi : i ∈ k.tableIndices c)
    (hout : ¬ (0 ≤ i ∧ i < taskMaxFds)) : c.run k = none := by
  have hunchecked : ¬ k.NumbersChecked c := fun h => hout (tableIndices_inTable h i hi)
  cases c with
  | dup2 oldfd newfd =>
    rw [NumbersChecked] at hunchecked
    split_ifs at hunchecked with hsame
    · rw [tableIndices, if_pos hsame] at hi
      cases hi
    obtain ⟨hopen, hnone⟩ := Classical.not_imp.mp hunchecked
    rw [isOpen, any_eq_true] at hopen
    obtain ⟨n, hn, hused⟩ := hopen
    rw [Bool.not_eq_true, isSome_eq_false_iff, isNone_iff_eq_none] at hnone
    simp [FdCall.run, sysDup2, hsame, hn, hused, hnone]
  | read fd buffer length x => exact absurd (slotIndex_inTable hi) hout
  | dup oldfd | dupFd fd arg | close fd | write fd buffer src tmp x
  | lseek fd offset whence size => exact absurd trivial hunchecked

lemma refused_of_checked {c : FdCall} (h : k.NumbersChecked c) (hbad : k.BadNumber c) :
    ∃ v, c.run k = some (k, v) ∧ v < 0 := by
  cases hopen : k.isOpen c.source with
  | false =>
    by_cases hsame : ∃ oldfd, c = .dup2 oldfd oldfd
    · obtain ⟨oldfd, rfl⟩ := hsame
      rw [NumbersChecked, if_pos rfl] at h
      refine ⟨oldfd, if_pos rfl, h.resolve_left fun hopen' => ?_⟩
      cases hopen.symm.trans hopen'
    · refine run_of_closed hopen (fun oldfd hc => hsame ⟨oldfd, hc⟩) fun fd buffer x hc => ?_
      subst hc
      cases hopen.symm.trans (h rfl)
  | true =>
    rcases hbad with hclosed | ⟨t, ht, hnone⟩
    · cases hopen.symm.trans hclosed
    obtain ⟨n, hn⟩ := isSome_iff_exists.mp (isSome_of_isOpen hopen)
    cases c with
    | dup2 oldfd newfd =>
      obtain rfl : newfd = t := some.inj ht
      rw [NumbersChecked] at h
      split_ifs at h with hne
      · rw [← hne] at hnone
        cases hn.symm.trans hnone
      · simpa [hnone] using h hopen
    | dupFd fd arg =>
      obtain rfl : arg = t := some.inj ht
      have hs : fdSlot fd = some n := hn
      have hu : (k.current.fds n).used = true := by
        simpa [isOpen, FdCall.source, hs] using hopen
      exact ⟨errBadf, by simp [FdCall.run, sysFcntl, hs, hu, hnone], by decide⟩
    | dup oldfd | close fd | read fd buffer length x | write fd buffer src tmp x
    | lseek fd offset whence size => cases ht

/-- **Descriptor numbers** are handled safely by every call but `dup2` to a target outside the
table or from a closed descriptor to itself, and a read of nothing from a closed one. -/
theorem fd_numbers_safe_iff (k : Kernel) (c : FdCall) : k.NumbersSafe c ↔ k.NumbersChecked c := by
  constructor
  · intro h
    cases c with
    | dup2 oldfd newfd =>
      rw [NumbersChecked]
      split_ifs with hne
      · subst hne
        cases hopen : k.isOpen oldfd with
        | true => exact .inl rfl
        | false =>
          obtain ⟨k', v, hrun, hneg, -⟩ := h.refused (.inl hopen)
          rw [FdCall.run, sysDup2, if_pos rfl] at hrun
          obtain rfl := congrArg Prod.snd (some.inj hrun)
          exact .inr hneg
      · intro hopen
        have hmem : newfd ∈ k.tableIndices (.dup2 oldfd newfd) := by
          rw [tableIndices, if_neg hne, if_pos hopen]
          simp
        rw [fdSlot, dif_pos (h.inTable newfd hmem)]
        rfl
    | read fd buffer length x =>
      rintro rfl
      by_contra hopen
      obtain ⟨k', v, hrun, hneg, -⟩ := h.refused (.inl (Bool.eq_false_iff.mpr hopen))
      obtain rfl : (0 : ℤ) = v := congrArg Prod.snd (some.inj hrun)
      exact absurd hneg (lt_irrefl 0)
    | dup oldfd | dupFd fd arg | close fd | write fd buffer src tmp x
    | lseek fd offset whence size => trivial
  · intro h
    refine ⟨tableIndices_inTable h, fun hbad => ?_, fun hc hne hn hm hu hu' => ?_⟩
    · obtain ⟨v, hrun, hneg⟩ := refused_of_checked h hbad
      exact ⟨k, v, hrun, hneg, rfl⟩
    · subst hc
      simp [FdCall.run, sysDup2, hne, hn, hm, hu, hu']

/-- `dup2` of a console descriptor to the number 32 stores behind the table. -/
theorem dup2_behind_table :
    ¬ (boot MapSystem.smallBoot MapSystem.blank).NumbersSafe (.dup2 0 32) :=
  fun h => absurd (h.inTable 32 (by decide)) (by decide)

end Kernel

end OpenHobbyOS
