import Tarnos.Kcore.Endpoint
import Tarnos.Task.Termination

namespace Tarnos.Kernel

open Abi Arch Kcore Tarnos.Task Function

/-- A message on its way through an endpoint. The kernel never reads `id`: it numbers the
accepted messages. -/
structure Parcel where
  id : ℕ
  message : Message

abbrev EndpointSlot := Endpoint.Slot Parcel Pid maxProcesses

abbrev EndpointWaiter := Endpoint.Waiter Pid

inductive Cr3
  | boot
  | idle
  | process (frame : ℕ)
  deriving DecidableEq, Repr

structure BootProcess (E : Type) where
  seeds : List (CapIndex × CapabilitySlot (KernelObjectRef E))

def BootProcess.process {E : Type} (b : BootProcess E) (pid : Pid) (frame : ℕ) (entry : UInt64) :
    Process E :=
  { Process.new (E := E) pid frame entry none with
    capTable := b.seeds.foldl (fun table seed ↦ table.insert seed.1 seed.2) CapTable.new }

/-- The system calls that start by looking up the calling process. -/
inductive Call
  | send
  | recv
  | spawn
  | grant
  | processStart
  | wait
  | kill
  | sbrk
  | setHeapEnd (oldEnd newEnd : UInt64)
  | blockRead
  | fileRead
  deriving DecidableEq, Repr

/-- A piece of work a core finishes before its main activity goes on. Each takes one lock once. -/
inductive Errand (E : Type)
  | runReadyTasks
  | pollSend (e : E) (message : Message) (waker : ℕ)
  | pollRecv (e : E) (waker : ℕ)
  | wakeReceiver (e : E) (pid : Pid)
  | wakeSender (pid : Pid) (id : ℕ)
  | handOver (pid : Pid) (parcel : Parcel)
  | peerClosed (pid : Pid)
  | wakeOrphanedReceivers (dying : List (CapabilitySlot (KernelObjectRef E)))
  | takeWaitingReceiver (e : E)
  | dropBox (process : Process E)
  | clearStackBusy (i : Fin maxProcesses)

/-- Where a core is in the kernel, or that it runs user code. -/
inductive Main (E : Type)
  | boot (rest : List (BootProcess E))
  | bootSpawn (pid : Pid) (process : BootProcess E) (rest : List (BootProcess E))
  | user (frame : TrapFrame)
  | onTimerTick (frame : TrapFrame)
  | onRescheduleIpi (frame : TrapFrame)
  | withCurrent (call : Call) (frame : TrapFrame)
  | withProcess (call : Call) (pid : Pid) (frame : TrapFrame)
  | trySend (e : E) (message : Message) (pid : Pid) (frame : TrapFrame)
  | sendReturn (id : ℕ) (frame : TrapFrame)
  | tryRecv (e : E) (pid : Pid) (frame : TrapFrame)
  | recvReturn (parcel : Parcel) (pid : Pid) (frame : TrapFrame)
  | blockCurrent (frame : TrapFrame)
  | allocatePid (caller : Pid) (frame : TrapFrame)
  | fromElf (caller child : Pid) (frame : TrapFrame)
  | releaseReservation (child : Pid) (frame : TrapFrame)
  | spawnSuspended (process : Process E) (frame : TrapFrame)
  | grant (target : Pid) (dest : CapIndex) (slot : CapabilitySlot (KernelObjectRef E))
      (caller : Pid) (frame : TrapFrame)
  | startChild (target caller : Pid) (frame : TrapFrame)
  | waitForChild (target caller : Pid) (frame : TrapFrame)
  | killCheck (target caller : Pid) (frame : TrapFrame)
  | killScan (target : Pid) (frame : TrapFrame)
  | killEvict (core : CoreId) (target : Pid) (frame : TrapFrame)
  | killSpin (core : CoreId) (target : Pid) (frame : TrapFrame)
  | growHeap (oldEnd newEnd : UInt64) (frame : TrapFrame)
  | transfer (frame : TrapFrame)
  | exitCurrent (status : ExitStatus)
  | markStackBusy (pid : Pid) (status : ExitStatus)
  | finalize (pid : Pid) (status : ExitStatus)
  | switchNext (outgoing : Option (Fin maxProcesses)) (drops : List (Process E))
  | leave (frame : TrapFrame)
  | idle (halts : Bool)
  | halted

/-- One core: what it does, its page table, the kernel stack its next trap from ring 3 uses
and the process whose kernel stack it is on now. -/
structure Core (E : Type) where
  main : Main E
  errands : List (Errand E)
  cr3 : Cr3
  rsp0 : Option Pid
  stack : Option Pid

/-- What the log records about capabilities and messages; the kernel never reads it. -/
inductive Event (E : Type)
  | seeded (pid : Pid) (slot : CapabilitySlot (KernelObjectRef E))
  | spawned (pid : Pid)
  | resolved (granter : Pid) (held : CapabilitySlot (KernelObjectRef E))
  | granted (granter target : Pid) (slot : CapabilitySlot (KernelObjectRef E))
  | accepted (id : ℕ)
  | displacedTask (id : ℕ)
  | taken (id : ℕ) (pid : Pid) (live : Bool)
  | handed (id : ℕ) (pid : Pid) (live : Bool)
  | handedTask (id : ℕ)
  | completed (id : ℕ)
  deriving DecidableEq

/-- The whole machine. `spaces` are the PML4 frames of the address spaces not yet dropped;
`log` is newest first. -/
structure State (E : Type) where
  sched : Inner E
  stackBusy : Fin maxProcesses → Bool
  evictRequest : CoreId → UInt64
  endpoints : E → EndpointSlot
  cores : CoreId → Core E
  spaces : List ℕ
  nextId : ℕ
  log : List (Event E)

/-- What a boot brings up: the other cores that take part and the processes created. -/
structure BootConfig (E : Type) where
  online : CoreId → Bool
  processes : List (BootProcess E)

namespace State

variable {E : Type}

/-- The boot core is about to create its processes; the others idle or never came up. -/
def init (config : BootConfig E) : State E where
  sched := Inner.init
  stackBusy := fun _ ↦ false
  evictRequest := fun _ ↦ 0
  endpoints := fun _ ↦ .empty
  cores := fun c ↦
    if c = 0 then ⟨.boot config.processes, [.runReadyTasks], .boot, none, none⟩
    else if config.online c then ⟨.idle false, [.runReadyTasks], .idle, none, none⟩
    else ⟨.halted, [], .idle, none, none⟩
  spaces := []
  nextId := 0
  log := []

def setCore (s : State E) (c : CoreId) (core : Core E) : State E :=
  { s with cores := update s.cores c core }

def goto (s : State E) (c : CoreId) (main : Main E) (errands : List (Errand E)) : State E :=
  s.setCore c { s.cores c with main := main, errands := errands }

def withSched (s : State E) (sched : Inner E) : State E := { s with sched := sched }

def setEndpoint [DecidableEq E] (s : State E) (e : E) (slot : EndpointSlot) : State E :=
  { s with endpoints := update s.endpoints e slot }

def record (s : State E) (event : Event E) : State E := { s with log := event :: s.log }

def accept (s : State E) : State E :=
  { s with nextId := s.nextId + 1, log := .accepted s.nextId :: s.log }

section Fields

variable {s : State E} {c d : CoreId} {m : Main E} {errands : List (Errand E)}

@[simp] theorem goto_stack : ((s.goto c m errands).cores d).stack = (s.cores d).stack := by
  unfold goto setCore
  by_cases hd : d = c
  · subst hd
    simp
  · simp [hd]

@[simp] theorem goto_rsp0 : ((s.goto c m errands).cores d).rsp0 = (s.cores d).rsp0 := by
  unfold goto setCore
  by_cases hd : d = c
  · subst hd
    simp
  · simp [hd]

@[simp] theorem goto_cr3 : ((s.goto c m errands).cores d).cr3 = (s.cores d).cr3 := by
  unfold goto setCore
  by_cases hd : d = c
  · subst hd
    simp
  · simp [hd]

@[simp] theorem goto_main : ((s.goto c m errands).cores c).main = m := by simp [goto, setCore]

@[simp] theorem goto_errands : ((s.goto c m errands).cores c).errands = errands := by
  simp [goto, setCore]

theorem goto_other (hd : d ≠ c) : (s.goto c m errands).cores d = s.cores d := by
  simp [goto, setCore, hd]

@[simp] theorem setCore_self (core : Core E) : (s.setCore c core).cores c = core := by
  simp [setCore]

theorem setCore_other (core : Core E) (hd : d ≠ c) : (s.setCore c core).cores d = s.cores d := by
  simp [setCore, hd]

end Fields

end State

end Tarnos.Kernel
