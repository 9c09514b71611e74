/-
# Messages

The part of `sys_sendmsg` in `src/syscall.c` for `SCM_RIGHTS` control data.  What lies behind the
kernel's copy of the control data, which the walk reads if a length wraps round, is an argument.
-/
import OpenHobbyOS.Kernel.Step
import OpenHobbyOS.Lib.Bytes

namespace OpenHobbyOS

open Paging Lib

/-- `SOL_SOCKET`. -/
def solSocket : U32 := 1
/-- `LINUX_SCM_RIGHTS`. -/
def scmRights : U32 := 1

/-- `sizeof(struct linux_cmsghdr)`, which is aligned. -/
def cmsghdrSize : U32 := 12

/-! ## User memory -/

/-- What the caller's address space shows. -/
abbrev UserMemory := U32 → U8

/-- `struct linux_msghdr`. -/
structure Msghdr where
  name : U32
  namelen : U32
  iov : U32
  iovlen : U32
  control : U32
  controllen : U32
  flags : U32

/-! ## Control data -/

/-- `linux_cmsg_align`. -/
def cmsgAlign (n : U32) : U32 := (n + 3) &&& ~~~3

namespace Kernel

variable (k : Kernel)

/-- The file behind a descriptor that may be passed. -/
def passedNode (fd : ℤ) : Option ℕ :=
  (fdSlot fd).bind fun n =>
    if (k.current.fds n).used ∧ (k.current.fds n).kind = .file then (k.current.fds n).node else none

/-- The descriptors of one `SCM_RIGHTS` entry, from `i` on. -/
def passFds (control : ℕ → U8) : ℕ → ℕ → List ℕ → Except ℤ (List ℕ)
  | 0, _, nodes => .ok nodes
  | n + 1, i, nodes =>
    match k.passedNode (BitVec.ofNat 32 (le32 control i)).toInt with
    | none => .error errBadf
    | some node =>
      if socketControlMax ≤ nodes.length then .error errNfile
      else passFds control n (i + 4) (nodes ++ [node])

/-- The walk over the control data, with fuel. -/
def walkControl (control : ℕ → U8) (len : U32) : ℕ → U32 → List ℕ → Option (Except ℤ (List ℕ))
  | 0, _, _ => none
  | fuel + 1, offset, nodes =>
    if len < offset + cmsghdrSize then some (.ok nodes)
    else
      let cmsgLen : U32 := BitVec.ofNat 32 (le32 control offset.toNat)
      if cmsgLen < cmsghdrSize ∨ len < offset + cmsgLen then some (.ok nodes)
      else
        let rights : Bool :=
          le32 control (offset.toNat + 4) = solSocket.toNat ∧
            le32 control (offset.toNat + 8) = scmRights.toNat
        let passed :=
          if rights then
            k.passFds control ((cmsgLen - cmsghdrSize).toNat / 4)
              (offset.toNat + cmsghdrSize.toNat) nodes
          else .ok nodes
        match passed with
        | .error v => some (.error v)
        | .ok nodes => walkControl control len fuel (offset + cmsgAlign cmsgLen) nodes

/-- The kernel's copy of the control data, with what lies behind it in the heap. -/
def controlCopy (mem : UserMemory) (msg : Msghdr) (heap : ℕ → U8) (i : ℕ) : U8 :=
  if i < msg.controllen.toNat then mem (msg.control + BitVec.ofNat 32 i) else heap i

end Kernel

end OpenHobbyOS
