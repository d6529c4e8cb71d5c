import Tarnos.Task.Scheduler

namespace Tarnos.Task

open Abi Arch Kcore Function

namespace Inner

variable {E : Type}

/-- The scheduler state with the boxes a termination has taken out of it so far. -/
abbrev Finalizing (E : Type) := Inner E × List (Process E)

/-- One round of `reap_children_of`: what becomes of slot `i` when `exiting` is gone.
`take` stands for the recursive call of `take_and_finalize_slot`. -/
def reapSlot (take : Pid → ExitStatus → Finalizing E → Finalizing E) (exiting : Pid)
    (acc : Finalizing E) (i : Fin maxProcesses) : Finalizing E :=
  match acc.1.processes i with
  | .occupied process =>
    if process.parent = some exiting then
      if process.state = .suspended then take (Pid.new i (acc.1.generations i)) .killed acc
      else (acc.1.setSlot i (.occupied { process with parent := none }), acc.2)
    else acc
  | .zombie parent _ => if parent = exiting then (acc.1.setSlot i .empty, acc.2) else acc
  | _ => acc

def reapChildrenOf (take : Pid → ExitStatus → Finalizing E → Finalizing E) (exiting : Pid)
    (acc : Finalizing E) : Finalizing E :=
  (List.finRange maxProcesses).foldl (reapSlot take exiting) acc

/-- What the process's end leaves behind for its parent: a wake if the parent is waiting,
else a zombie. -/
def notifyParent (s : Inner E) (i : Fin maxProcesses) (process : Process E)
    (status : ExitStatus) : Inner E :=
  match process.waitWaiter with
  | some waiter => s.wakeBlockedProcessLocked waiter (.waitCompleted status)
  | none =>
    match process.parent with
    | some parent => s.setSlot i (.zombie parent status)
    | none => s

/-- `fuel` bounds the nesting of `take_and_finalize_slot` and `reap_children_of`. -/
def takeAndFinalizeSlot : ℕ → Pid → ExitStatus → Finalizing E → Finalizing E
  | 0, _, _, acc => acc
  | fuel + 1, pid, status, acc =>
    match pid.slot with
    | none => acc
    | some i =>
      match acc.1.processes i with
      | .occupied process =>
        let taken := ((acc.1.setSlot i .empty).removeFromReadyQueue pid).clearCurrent pid
        let reaped := reapChildrenOf (takeAndFinalizeSlot fuel) pid
          (taken.notifyParent i process status, acc.2)
        (reaped.1, reaped.2 ++ [process])
      | _ => acc

/-- Every nested call takes one more process out of the table, so this fuel is never used up. -/
def finalizeFuel : ℕ := maxProcesses + 1

/-- `take_and_finalize_slot` as its callers use it: the state after it and the boxes to drop. -/
def finalize (s : Inner E) (pid : Pid) (status : ExitStatus) : Finalizing E :=
  takeAndFinalizeSlot finalizeFuel pid status (s, [])

inductive WaitOutcome
  | alreadyDone (status : ExitStatus)
  | mustBlock
  | invalid
  deriving DecidableEq, Repr

/-- What `wait_for_child` finds in the slot its target names. -/
def waitOutcome (s : Inner E) (target caller : Pid) : WaitOutcome :=
  match target.slot with
  | none => .invalid
  | some i =>
    if s.generations i ≠ target.generation then .invalid
    else
      match s.processes i with
      | .zombie parent status => if parent = caller then .alreadyDone status else .invalid
      | .occupied process => if process.parent = some caller then .mustBlock else .invalid
      | _ => .invalid

/-- The writes of `wait_for_child` to the table, before the caller blocks. -/
def waitForChild (s : Inner E) (target caller : Pid) : Inner E :=
  match s.waitOutcome target caller, target.slot with
  | .alreadyDone _, some i => s.setSlot i .empty
  | .mustBlock, some i =>
    match s.processes i with
    | .occupied process => s.setSlot i (.occupied { process with waitWaiter := some caller })
    | _ => s
  | _, _ => s

/-- The check `terminate_process` makes once, before its loop. -/
def mayTerminate (s : Inner E) (target caller : Pid) : Bool :=
  match s.occupiedMut target with
  | none => false
  | some process => process.parent = some caller

/-- The core `terminate_process` finds the target running on. -/
def owningCore (s : Inner E) (target : Pid) : Option CoreId :=
  (List.finRange maxCores).find? fun core ↦ s.current core = some target

end Inner

end Tarnos.Task
