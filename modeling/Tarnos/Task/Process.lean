import Tarnos.Arch.TrapFrame
import Tarnos.Kcore.CapTable
import Tarnos.Task.Pid

namespace Tarnos.Task

open Abi Arch Kcore

/-- A kernel object a capability can name; `E` is the type of endpoint identities. -/
inductive KernelObjectRef (E : Type*)
  | endpoint (e : E)
  | blockDevice
  | fsRoot
  deriving DecidableEq, Repr

inductive ProcessState
  | ready
  | running
  | blocked
  | suspended
  deriving DecidableEq, Repr

inductive WakeResult
  | sendCompleted
  | recvCompleted (tag : UInt64) (words : Vector UInt64 3)
  | waitCompleted (status : ExitStatus)
  | peerClosed
  deriving DecidableEq, Repr

def userStackTop : UInt64 := 0x0000_7fff_ffff_f000

def userHeapStart : UInt64 := 0x0000_0000_4000_0000

/-- A process record. `addressSpace` is the frame of the PML4 its box owns. -/
structure Process (E : Type*) where
  pid : Pid
  addressSpace : ℕ
  trapFrame : TrapFrame
  capTable : CapTable (KernelObjectRef E)
  state : ProcessState
  parent : Option Pid
  waitWaiter : Option Pid
  pendingWake : Option WakeResult
  heapEnd : UInt64
  deriving DecidableEq, Repr

variable {E : Type*}

def Process.new (pid : Pid) (addressSpace : ℕ) (entry : UInt64) (parent : Option Pid) :
    Process E where
  pid := pid
  addressSpace := addressSpace
  trapFrame := TrapFrame.initialUserFrame entry userStackTop
  capTable := CapTable.new
  state := .ready
  parent := parent
  waitWaiter := none
  pendingWake := none
  heapEnd := userHeapStart

def WakeResult.applyTo (result : WakeResult) (f : TrapFrame) : TrapFrame :=
  match result with
  | .sendCompleted => { f with rax := 0 }
  | .recvCompleted tag words =>
    { f with rax := 0, rdi := tag, rsi := words[0], rdx := words[1], r10 := words[2] }
  | .waitCompleted status =>
    { f with rax := 0, rdi := status.toRegs.1, rsi := status.toRegs.2 }
  | .peerClosed => { f with rax := SyscallError.peerClosed.toRax }

def applyWakeResult (process : Process E) (result : WakeResult) : Process E :=
  { process with trapFrame := result.applyTo process.trapFrame, state := .ready }

section

variable (P : Process E) (r : WakeResult)

@[simp] theorem applyWakeResult_state :
    (applyWakeResult P r).state = .ready := rfl

@[simp] theorem applyWakeResult_pid :
    (applyWakeResult P r).pid = P.pid := rfl

@[simp] theorem applyWakeResult_parent :
    (applyWakeResult P r).parent = P.parent := rfl

@[simp] theorem applyWakeResult_waitWaiter :
    (applyWakeResult P r).waitWaiter = P.waitWaiter := rfl

@[simp] theorem applyWakeResult_pendingWake :
    (applyWakeResult P r).pendingWake = P.pendingWake := rfl

@[simp] theorem applyWakeResult_capTable :
    (applyWakeResult P r).capTable = P.capTable := rfl

@[simp] theorem applyWakeResult_addressSpace :
    (applyWakeResult P r).addressSpace = P.addressSpace := rfl

end

end Tarnos.Task
