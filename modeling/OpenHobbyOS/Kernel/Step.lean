/-
# The kernel as a state machine

The events the kernel reacts to.  While a task runs it makes system calls and accesses memory, and
the timer may interrupt it; while none runs the kernel is in the loop of `task_run_until_pid_exits`
or outside it, where it may start programs.
-/
import OpenHobbyOS.Kernel.Fpu
import OpenHobbyOS.Kernel.Process
import OpenHobbyOS.Lib.Run
import OpenHobbyOS.Paging.Init

namespace OpenHobbyOS

open Paging Lib

/-- The system calls of the model, with the caller's frame where it may be saved. -/
inductive Syscall where
  | socket (domain type : ℤ)
  | bind (fd : ℤ) (ptr : U32) (addr : SockAddr) (addrlen : U32)
  | listen (fd backlog : ℤ)
  | accept (fd : ℤ) (addr addrlen len : U32) (regs : Registers)
  | connect (fd : ℤ) (ptr : U32) (addr : SockAddr) (addrlen : U32)
  | recv (fd : ℤ) (buffer length flags : U32) (regs : Registers)
  | send (fd : ℤ) (buffer : U32) (src : List U8) (tmp : Bool)
  | shutdown (fd how : ℤ)
  | read (fd : ℤ) (buffer length : U32) (x : External)
  | write (fd : ℤ) (buffer : U32) (src : List U8) (tmp : Bool) (x : External)
  /-- `open`, once the path is resolved. -/
  | openFile (kind : { c : FdKind // c.isNode }) (node : Option ℕ) (flags : U32)
  | close (fd : ℤ)
  | dup (oldfd : ℤ)
  | dup2 (oldfd newfd : ℤ)
  | fcntl (fd : ℤ) (cmd : FcntlCmd)
  | pipe (pipefd : U32)
  | poll (ptr : U32) (fds : List PollFd) (timeout : ℤ) (input : Bool) (regs : Registers)
  | nanosleep (ptr : U32) (sec nsec : ℤ) (rem : U32) (regs : Registers)
  | yield (regs : Registers)
  | fork (regs : Registers)
  | spawn (prog : Program) (regs : Registers)
  | execve (prog : Program) (regs : Registers)
  | waitpid (pid statusPtr options : U32) (regs : Registers)
  | exit (code : U32)
  | brk (requested : U32)
  | mmap (addr length prot flags : U32) (fd : ℤ) (pageOffset : U32) (f : Kernel.MmapFile)
  | munmap (addr length : U32)

/-- What the kernel reacts to. -/
inductive Event where
  /-- A system call of the running task. -/
  | syscall (c : Syscall)
  /-- A load or store of the running task. -/
  | access (virt : U32) (value : Option U8)
  /-- A floating-point instruction of the running task, which changes the registers as `f`
  says. -/
  | fpu (f : FpuState → FpuState)
  | timer (user : Bool) (regs : Registers)
  /-- `task_spawn_background`. -/
  | spawnBackground (prog : Program)
  /-- `task_run_argv_alongside`. -/
  | run (prog : Program)
  /-- One round of the scheduler loop. -/
  | schedule

namespace Kernel

variable (k : Kernel)

/-- A system call: the new kernel and the value for the caller. -/
def syscall : Syscall → Option (Kernel × ℤ)
  | .socket domain type => some (k.sysSocket domain type)
  | .bind fd ptr addr addrlen => some (k.sysBind fd ptr addr addrlen)
  | .listen fd backlog => some (k.sysListen fd backlog)
  | .accept fd addr addrlen len regs => k.sysAccept fd addr addrlen len regs
  | .connect fd ptr addr addrlen => k.sysConnect fd ptr addr addrlen
  | .recv fd buffer length flags regs => k.sysRecv fd buffer length flags regs
  | .send fd buffer src tmp => k.sysSend fd buffer src tmp
  | .shutdown fd how => some (k.sysShutdown fd how)
  | .read fd buffer length x => k.sysRead fd buffer length x
  | .write fd buffer src tmp x => k.sysWrite fd buffer src tmp x
  | .openFile kind node flags => some (k.taskInstallFd kind node flags)
  | .close fd => some (k.taskClose fd)
  | .dup oldfd => some (k.sysDup oldfd)
  | .dup2 oldfd newfd => k.sysDup2 oldfd newfd
  | .fcntl fd cmd => some (k.sysFcntl fd cmd)
  | .pipe pipefd => k.sysPipe pipefd
  | .poll ptr fds timeout input regs => k.sysPoll ptr fds timeout input regs
  | .nanosleep ptr sec nsec rem regs => k.sysNanosleep ptr sec nsec rem regs
  | .yield regs => some (k.taskYieldCurrent regs 0, 0)
  | .fork regs => some (k.taskFork regs)
  | .spawn prog regs => k.taskSpawnFromUser prog regs
  | .execve prog regs => (k.taskExecve prog regs).map fun (k, _, v) => (k, v)
  | .waitpid pid statusPtr options regs => k.taskWaitpid pid statusPtr options regs
  | .exit code => (k.taskExitCurrent code).map fun k => (k, 0)
  | .brk requested => (k.taskBrk requested).map fun (k, v) => (k, v.toInt)
  | .mmap addr length prot flags fd pageOffset f =>
    k.taskMmap addr length prot flags fd pageOffset f
  | .munmap addr length => some (k.taskMunmap addr length)

/-- The number of the page-fault exception. -/
def pageFaultInt : U32 := 14

/-- A load or store by the running task, with the faults it takes. -/
def userAccess (virt : U32) (value : Option U8) : Option Kernel :=
  match Paging.userAccess 3 k.paging virt value with
  | .done s => some { k with paging := s }
  | .aborted s => ({ k with paging := s } : Kernel).taskAbortFromTrap pageFaultInt
  | .panicked => none
  | .faulting => none

/-- One event; `none` if it cannot happen or the machine stops. -/
def step : Event → Option Kernel
  | .syscall c => if k.active.isSome then (k.syscall c).map Prod.fst else none
  | .access virt value => if k.active.isSome then k.userAccess virt value else none
  | .fpu f => if k.active.isSome then some (k.fpuInstruction f) else none
  | .timer user regs => if user ∧ k.active = none then none else some (k.timerTick user regs)
  | .spawnBackground prog =>
    if k.active = none ∧ k.target = none then (k.taskSpawnKernel none prog).map Prod.fst else none
  | .run prog => if k.active = none ∧ k.target = none then k.runAlongside prog else none
  | .schedule =>
    match k.active, k.target with
    | none, some pid => some (k.schedule pid)
    | _, _ => none

/-- After `paging_init` and `task_init`; `s` is what memory held before. -/
def boot (b : BootInfo) (s : PagingState) : Kernel where
  paging := pagingInit b s
  slots := fun _ => .zero
  current := resetDescriptors { TaskState.zero with pid := 1 }
  active := none
  rrCursor := none
  nextPid := 2
  ticks := 0
  sockets := fun _ => .zero
  pipes := fun _ => .zero
  target := none
  frame := .zero
  fpu := ⟨fpuInit, false, none⟩

end Kernel

end OpenHobbyOS
