/-
# The exit status of `sh -c`

`main` of `user/sh.c` returns the status word of its child, `(exit_code & 0xff) << 8`, and the
kernel keeps the low byte of an exit code.  The outcome of `sys_spawn` and `sys_waitpid` is a
parameter; `start_c` passes what `main` returns to `sys_exit_group`.
-/
import OpenHobbyOS.Kernel.Process
import OpenHobbyOS.Shell.Exit

namespace OpenHobbyOS.Shell

open Kernel

/-- `SH_LINE_MAX`. -/
def shLineMax : ℕ := 1024

/-- The arguments of the child, if there is one. -/
def shCommand (argv : List (List U8)) : Option (List (List U8)) :=
  match argv with
  | [_, option, line] =>
    if option ≠ text "-c" ∨ shLineMax ≤ line.length then none
    else
      match parse sh line with
      | some (some (name :: args)) => some (name :: args)
      | _ => none
  | _ => none

/-- `main`, where `child` is what becomes of the child. -/
def shMain (child : Spawned) (argv : List (List U8)) : U32 :=
  match shCommand argv, child with
  | none, _ => 2
  | some _, .refused => 127
  | some _, .lost => 127
  | some _, .exited code => statusWord code

/-- A command that exits with `code` in so many `sh -c`: the outermost arguments and exit code. -/
inductive Wrapped (command : List (List U8)) (code : U32) : ℕ → List (List U8) → U32 → Prop
  | command : Wrapped command code 0 command code
  | sh {depth : ℕ} {child argv : List (List U8)} {exitCode : U32}
      (hchild : Wrapped command code depth child exitCode) (hline : shCommand argv = some child) :
      Wrapped command code (depth + 1) argv (shMain (.exited exitCode) argv)

variable {command argv : List (List U8)} {code exitCode : U32} {depth : ℕ}

lemma toNat_statusWord (code : U32) : (statusWord code).toNat = code.toNat % 256 * 256 :=
  toNat_status code

lemma statusWord_eq_zero_iff : statusWord code = 0 ↔ code &&& 0xff = 0 := by
  have hword := toNat_statusWord code
  have hbyte := toNat_and_ff code
  constructor
  · intro h
    rw [h] at hword
    refine BitVec.eq_of_toNat_eq (hbyte.trans ?_)
    change 0 = _ at hword
    change _ = 0
    omega
  · intro h
    rw [statusWord, h]
    rfl

lemma statusWord_statusWord (code : U32) : statusWord (statusWord code) = 0 := by
  refine BitVec.eq_of_toNat_eq ?_
  rw [toNat_statusWord, toNat_statusWord]
  simp

lemma Wrapped.statusWord_eq (h : Wrapped command code (depth + 1) argv exitCode) :
    statusWord exitCode = 0 := by
  obtain _ | ⟨-, hline⟩ := h
  simp only [shMain, hline]
  exact statusWord_statusWord _

/-- **`sh -c` hides the status**: the parent sees the status word of the command exactly if that is
0, at every depth. -/
theorem sh_status_iff (h : Wrapped command code (depth + 1) argv exitCode) :
    statusWord exitCode = statusWord code ↔ code &&& 0xff = 0 := by
  rw [h.statusWord_eq, eq_comm]
  exact statusWord_eq_zero_iff

/-- Of the exit code 768 a parent sees 0 as well. -/
theorem sh_status_iff_twice :
    Wrapped [text "a"] 768 2 [text "sh", text "-c", text "sh -c a"] 0 ∧
      (statusWord 0 = statusWord 768 ↔ (768 : U32) &&& 0xff = 0) := by
  have hinner : Wrapped [text "a"] 768 1 [text "sh", text "-c", text "a"] 0 :=
    .sh .command (by decide +kernel)
  have h : Wrapped [text "a"] 768 2 [text "sh", text "-c", text "sh -c a"] 0 :=
    .sh hinner (by decide +kernel)
  exact ⟨h, sh_status_iff h⟩

/-- `false` exits with 1, `sh -c false` with 256, of which a parent sees 0. -/
theorem sh_hides_failure :
    Wrapped [text "false"] 1 1 [text "sh", text "-c", text "false"] 256 ∧
      statusWord 256 ≠ statusWord 1 := by
  refine ⟨?_, by decide⟩
  exact .sh .command (by decide +kernel)

end OpenHobbyOS.Shell
