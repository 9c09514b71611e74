/-
# The floating-point unit

The lazy context switch of `src/task.c`: resuming a task sets `CR0.TS`, and its first floating-point
instruction traps to `fpu_nm_handler`, which saves the registers for the slot that owned the unit
and loads those of the running task.
-/
import OpenHobbyOS.Kernel.Descriptors

namespace OpenHobbyOS

/-- The x87 part after `fninit`. -/
def x87Init : BitVec 1280 := 0x037F

/-- The registers `fpu_init` leaves. -/
def fpuInit : FpuState := ⟨x87Init, 0x1FC0⟩

/-- `fninit` initialises the x87 part alone. -/
def fninit (s : FpuState) : FpuState := { s with x87 := x87Init }

namespace Kernel

variable (k : Kernel)

/-- `fpu_nm_handler` saves the registers for their owner. -/
def fpuSaveOwner : Kernel :=
  match k.fpu.owner with
  | some o =>
    if (k.slots o).used then
      k.updSlot o fun t => { t with state := { t.state with fpuState := k.fpu.regs } }
    else k
  | none => k

/-- The running task's registers are loaded or initialised. -/
def fpuLoad : Kernel :=
  match k.active with
  | some i =>
    if (k.slots i).used then
      if (k.slots i).state.fpuUsed then
        { k with fpu := { k.fpu with regs := (k.slots i).state.fpuState } }
      else
        { k with fpu := { k.fpu with regs := fninit k.fpu.regs } }.updSlot i fun t =>
          { t with state := { t.state with fpuUsed := true } }
    else k
  | none => { k with fpu := { k.fpu with regs := fninit k.fpu.regs } }

/-- `fpu_nm_handler`. -/
def fpuNmHandler : Kernel :=
  let k := { k with fpu := { k.fpu with ts := false } }
  let k := k.fpuSaveOwner.fpuLoad
  { k with fpu := { k.fpu with owner := k.active } }

/-- The state a floating-point instruction of the running task finds. -/
def fpuReady : Kernel := if k.fpu.ts then k.fpuNmHandler else k

/-- A floating-point instruction. -/
def fpuInstruction (f : FpuState → FpuState) : Kernel :=
  let k := k.fpuReady
  { k with fpu := { k.fpu with regs := f k.fpu.regs } }

end Kernel

end OpenHobbyOS
