import Tarnos.Kernel.Confinement
import Tarnos.Kernel.Journal

namespace Tarnos.Kernel

open Abi Arch Kcore Tarnos.Task Foundation.Transition Function Inner SyscallError

variable {E : Type} {i : Fin maxProcesses} {f : TrapFrame} {caller child : Pid}

def Outcome.panics {α : Type} (outcome : Outcome α) (reason : Panic) : Bool :=
  match outcome with
  | .panic r => decide (r = reason)
  | _ => false

theorem Outcome.eq_of_panics {α : Type} {outcome : Outcome α} {reason : Panic}
    (h : outcome.panics reason = true) : outcome = .panic reason := by
  cases outcome with
  | panic r => rw [of_decide_eq_true h]
  | _ => cases h

/-- The caller, the child and the frame of a `SYS_SPAWN` that is loading an image. -/
def Main.loads : Main E → Option (Pid × Pid × TrapFrame)
  | .fromElf caller child f => some (caller, child, f)
  | _ => none

namespace State

section Steps

variable {s : State E} {a : Action E} {c : CoreId} {p : Pid} {choice : Choice E}
  {config : BootConfig E}

variable [DecidableEq E]

end Steps

end State

end Tarnos.Kernel
