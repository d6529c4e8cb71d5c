import Mathlib.Data.Fintype.Basic
import Mathlib.Data.List.FinRange
import Mathlib.Logic.Function.Basic
import Tarnos.Kcore.RingBuffer
import Tarnos.Task.Process

namespace Tarnos.Task

open Abi Arch Kcore Function

abbrev maxProcesses : ℕ := 16

abbrev maxCores : ℕ := 8

instance : NeZero maxCores := ⟨by decide⟩

abbrev CoreId := Fin maxCores

abbrev ReadyQueue := RingBuffer Pid maxProcesses

inductive Slot (E : Type)
  | empty
  | reserved
  | occupied (process : Process E)
  | zombie (parent : Pid) (status : ExitStatus)
  deriving DecidableEq

def Slot.isEmpty {E : Type} : Slot E → Bool
  | .empty => true
  | _ => false

/-- What happened to the ready queue so far: pids it took, pids popped from it, pids it refused. -/
structure QueueHistory where
  entered : List Pid
  popped : List Pid
  refused : List Pid

/-- The state under the scheduler lock. `history` is only written, never read. -/
structure Inner (E : Type) where
  processes : Fin maxProcesses → Slot E
  generations : Fin maxProcesses → UInt32
  ready : ReadyQueue
  current : CoreId → Option Pid
  history : QueueHistory

inductive Panic
  | doubleDispatch
  | staleGeneration
  | noSuchProcess
  | storedPid
  | frameCs
  | frameRip
  | frameSs
  | frameRsp
  | indexOutOfBounds
  | emptySenderQueue
  | unmappedTrapFrame
  | nonCanonicalEntry
  | outOfMemory
  | bootFailed
  deriving DecidableEq, Repr

def Pid.slot (p : Pid) : Option (Fin maxProcesses) :=
  if h : p.index < maxProcesses then some ⟨p.index, h⟩ else none

namespace Inner

variable {E : Type}

def init : Inner E where
  processes := fun _ ↦ .empty
  generations := fun _ ↦ 0
  ready := RingBuffer.new
  current := fun _ ↦ none
  history := ⟨[], [], []⟩

section

variable (s : Inner E)

def setSlot (i : Fin maxProcesses) (slot : Slot E) : Inner E :=
  { s with processes := update s.processes i slot }

def setCurrent (core : CoreId) (pid : Option Pid) : Inner E :=
  { s with current := update s.current core pid }

def push (pid : Pid) : Inner E :=
  { s with
    ready := (s.ready.push pid).2
    history :=
      if (s.ready.push pid).1 then { s.history with entered := s.history.entered ++ [pid] }
      else { s.history with refused := s.history.refused ++ [pid] } }

def pop : Option Pid × Inner E :=
  (s.ready.pop.1,
    { s with
      ready := s.ready.pop.2
      history := { s.history with popped := s.history.popped ++ s.ready.pop.1.toList } })

/-- The first empty slot whose kernel stack no core is marked as leaving. -/
def freeSlot (busy : Fin maxProcesses → Bool) : Option (Fin maxProcesses) :=
  (List.finRange maxProcesses).find? fun i ↦ (s.processes i).isEmpty && !busy i

def allocatePid (busy : Fin maxProcesses → Bool) : Pid × Inner E :=
  match s.freeSlot busy with
  | none => (Pid.new maxProcesses 0, s)
  | some i =>
    let generation := s.generations i + 1
    (Pid.new i generation,
      { s with
        generations := update s.generations i generation
        processes := update s.processes i .reserved })

def releaseReservation (pid : Pid) : Inner E :=
  match pid.slot with
  | none => s
  | some i =>
    if s.generations i ≠ pid.generation then s
    else
      match s.processes i with
      | .reserved => s.setSlot i .empty
      | _ => s

def spawn (process : Process E) : Except SyscallError (Inner E) :=
  match process.pid.slot with
  | none => .error .resourceExhausted
  | some i => .ok ((s.setSlot i (.occupied process)).push process.pid)

def spawnSuspended (process : Process E) : Except SyscallError (Inner E) :=
  match process.pid.slot with
  | none => .error .resourceExhausted
  | some i => .ok (s.setSlot i (.occupied process))

def occupiedMut (pid : Pid) : Option (Process E) :=
  match pid.slot with
  | none => none
  | some i =>
    if s.generations i ≠ pid.generation then none
    else
      match s.processes i with
      | .occupied process => some process
      | _ => none

def setProcess (pid : Pid) (process : Process E) : Inner E :=
  match pid.slot with
  | none => s
  | some i => s.setSlot i (.occupied process)

def startChild (target caller : Pid) : Except SyscallError (Inner E) :=
  match s.occupiedMut target with
  | none => .error .invalidTarget
  | some process =>
    if process.parent ≠ some caller ∨ process.state ≠ .suspended then .error .invalidTarget
    else .ok ((s.setProcess target { process with state := .ready }).push target)

end

def userAddressLimit : UInt64 := 0x0000_8000_0000_0000

def frameAssertions (frame : TrapFrame) : Except Panic Unit :=
  if frame.cs ≠ userCodeSelector then .error .frameCs
  else if ¬ frame.rip < userAddressLimit then .error .frameRip
  else if frame.ss ≠ userDataSelector then .error .frameSs
  else if ¬ frame.rsp < userAddressLimit then .error .frameRsp
  else .ok ()

/-- Make `pid` the running process of `core`. The returned record holds the frame to resume
from, the address space for CR3 and the pid whose kernel stack the next trap uses. -/
def switchTo (s : Inner E) (core : CoreId) (pid : Pid) : Except Panic (Process E × Inner E) :=
  if ∃ other, other ≠ core ∧ s.current other = some pid then .error .doubleDispatch
  else
    match pid.slot with
    | none => .error .indexOutOfBounds
    | some i =>
      if s.generations i ≠ pid.generation then .error .staleGeneration
      else
        match s.processes i with
        | .occupied process =>
          if process.pid ≠ pid then .error .storedPid
          else
            match frameAssertions process.trapFrame with
            | .error panic => .error panic
            | .ok () =>
              let running := { process with state := .running }
              .ok (running, (s.setCurrent core (some pid)).setSlot i (.occupied running))
        | _ => .error .noSuchProcess

/-- The first half of `on_timer_tick`: put the interrupted process back in the queue. -/
def preemptCurrent (s : Inner E) (core : CoreId) (frame : TrapFrame) : Except Panic (Inner E) :=
  match s.current core with
  | none => .ok s
  | some pid =>
    match pid.slot with
    | none => .error .indexOutOfBounds
    | some i =>
      match s.processes i with
      | .occupied process =>
        .ok ((s.setSlot i (.occupied { process with trapFrame := frame, state := .ready })).push pid)
      | _ => .ok s

def allProcessesEmpty (s : Inner E) : Bool :=
  (List.finRange maxProcesses).all fun i ↦ (s.processes i).isEmpty

/-- Pop every pid of `queue` and keep those different from `target`. -/
def keepOthers (target : Pid) : ℕ → ReadyQueue → ReadyQueue → ReadyQueue
  | 0, _, kept => kept
  | fuel + 1, queue, kept =>
    match queue.pop with
    | (none, _) => kept
    | (some pid, rest) => keepOthers target fuel rest (if pid ≠ target then (kept.push pid).2 else kept)

def removeFromReadyQueue (s : Inner E) (target : Pid) : Inner E :=
  { s with ready := keepOthers target maxProcesses s.ready RingBuffer.new }

def clearCurrent (s : Inner E) (pid : Pid) : Inner E :=
  { s with current := fun core ↦ if s.current core = some pid then none else s.current core }

def wakeBlockedProcessLocked (s : Inner E) (pid : Pid) (result : WakeResult) : Inner E :=
  match s.occupiedMut pid with
  | none => s
  | some process =>
    if process.state ≠ .blocked then s.setProcess pid { process with pendingWake := some result }
    else (s.setProcess pid (applyWakeResult process result)).push pid

def blockCurrentProcessLocked (s : Inner E) (core : CoreId) (frame : TrapFrame) :
    Except Panic (Inner E) :=
  match s.current core with
  | none => .ok s
  | some pid =>
    match pid.slot with
    | none => .error .indexOutOfBounds
    | some i =>
      match s.processes i with
      | .occupied process =>
        let blocked := { process with trapFrame := frame, state := .blocked }
        match process.pendingWake with
        | none => .ok ((s.setSlot i (.occupied blocked)).setCurrent core none)
        | some pending =>
          let woken := applyWakeResult { blocked with pendingWake := none } pending
          .ok (((s.setSlot i (.occupied woken)).push pid).setCurrent core none)
      | _ => .ok (s.setCurrent core none)

end Inner

end Tarnos.Task
