import Tarnos.Abi.ShortName
import Tarnos.Arch.TrapFrame

namespace Tarnos.Rt

open Abi Arch

/-- The registers with which the wrapper `sys_send` traps. -/
def sysSend (cap : CapIndex) (message : Message) (f : TrapFrame) : TrapFrame :=
  { f with
    rax := Abi.sysSend
    rdi := cap.index.toUInt64
    rsi := message.tag
    rdx := message.word 0
    r10 := message.word 1
    r8 := message.word 2
    r9 := message.word 3 }

/-- The registers with which the wrapper `sys_file_read` traps. -/
def sysFileRead (cap : CapIndex) (name : String) (buf bufLen : UInt64) (f : TrapFrame) : TrapFrame :=
  let (nameLo, nameHi, nameLen) := packShortName name.toUTF8.data.toList
  { f with
    rax := Abi.sysFileRead
    rdi := cap.index.toUInt64
    rsi := nameLo
    rdx := nameHi
    r10 := nameLen
    r8 := buf
    r9 := bufLen }

def orError {α : Type} (f : TrapFrame) (value : α) : Except SyscallError α :=
  if f.rax.toInt64 < 0 then .error (SyscallError.fromRetval f.rax.toInt64) else .ok value

/-- What the wrapper `sys_recv` returns from the registers the kernel leaves. -/
def sysRecv (f : TrapFrame) : Except SyscallError Message :=
  orError f ⟨f.rdi, #v[f.rsi, f.rdx, f.r10, 0]⟩

/-- What the wrapper `sys_wait` returns from the registers the kernel leaves. -/
def sysWait (f : TrapFrame) : Except SyscallError ExitStatus :=
  orError f (ExitStatus.fromRegs f.rdi f.rsi)

theorem orError_zero {α : Type} {f : TrapFrame} (h : f.rax = 0) (value : α) :
    orError f value = .ok value := by
  unfold orError
  rw [h]
  exact if_neg (by decide)

end Tarnos.Rt
