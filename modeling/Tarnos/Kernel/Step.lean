import Tarnos.Kernel.Syscall

namespace Tarnos.Kernel

open Abi Arch Kcore Tarnos.Task Function

inductive Trap
  | timer
  | ipi
  | fault
  | syscall
  deriving DecidableEq, Repr

/-- What a step leaves open: the trap and the registers user code has then, the outcome of
loading an image, of mapping memory, of a spin, of a device, and what kernel tasks do. -/
inductive Choice (E : Type)
  | go
  | refuse
  | trap (kind : Trap) (frame : TrapFrame)
  | image (entry : UInt64) (frame : ℕ)
  | pollSend (e : E) (message : Message) (waker : ℕ)
  | pollRecv (e : E) (waker : ℕ)
  | transfer (result : Except SyscallError UInt64)

inductive Outcome (α : Type)
  | next (state : α)
  | panic (reason : Panic)
  | stuck

def Outcome.toOption {α : Type} : Outcome α → Option α
  | .next s => some s
  | _ => none

/-- Registers with which ring-3 code can trap: the selectors are the user ones and everything else
is arbitrary, `rip` too, since an interrupt may come right after a jump to any address. -/
def ring3Frame (f : TrapFrame) : Bool :=
  f.cs = userCodeSelector && f.ss = userDataSelector

namespace State

variable {E : Type}

def isLive (s : State E) (pid : Pid) : Bool := (s.sched.occupiedMut pid).isSome

/-- `wake_sender`: a task's waker touches nothing of the scheduler. -/
def senderErrands (sender : EndpointWaiter) (id : ℕ) : List (Errand E) :=
  match sender with
  | .process pid => [.wakeSender pid id]
  | _ => []

/-- `wake_receiver` up to its `try_recv`. -/
def receiverErrands (e : E) (receiver : EndpointWaiter) : List (Errand E) :=
  match receiver with
  | .process pid => [.wakeReceiver e pid]
  | _ => []

def outgoingErrands (outgoing : Option (Fin maxProcesses)) : List (Errand E) :=
  match outgoing with
  | some i => [.clearStackBusy i]
  | none => []

/-- The core side of `switch_to`: CR3, the stack of the next trap, the frame to return to. -/
def dispatch (s : State E) (c : CoreId) (process : Process E) (errands : List (Errand E)) :
    State E :=
  s.setCore c
    { s.cores c with
      main := .leave process.trapFrame
      errands := errands
      cr3 := .process process.addressSpace
      rsp0 := some process.pid }

/-- `abandon_process_stack_and_idle`: the core is on its idle stack and address space before
the scheduler lock is released. -/
def abandon (s : State E) (c : CoreId) (errands : List (Errand E)) : State E :=
  s.setCore c
    { s.cores c with main := .idle true, errands := errands, cr3 := .idle, stack := none }

/-- Dispatch `pid`, popped by core `c`, with `errands` to run before the core leaves. -/
def switchTo (s : State E) (c : CoreId) (pid : Pid) (errands : List (Errand E)) :
    Outcome (State E) :=
  match s.sched.switchTo c pid with
  | .error reason => .panic reason
  | .ok (process, sched) => .next ((s.withSched sched).dispatch c process errands)

/-- `switch_to_next_or_halt`, entered with the scheduler lock held. -/
def switchToNextOrHalt (s : State E) (c : CoreId) (outgoing : Option (Fin maxProcesses))
    (drops : List (Process E)) : Outcome (State E) :=
  match s.sched.pop with
  | (some pid, sched) =>
    (s.withSched sched).switchTo c pid
      (drops.map .dropBox ++ [.runReadyTasks] ++ outgoingErrands outgoing)
  | (none, sched) =>
    .next ((s.withSched sched).abandon c
      (outgoingErrands outgoing ++ drops.map .dropBox ++ [.runReadyTasks]))

/-- Take the caps of all dying processes into account, then drop the boxes or keep them. -/
def dyingCaps (drops : List (Process E)) : List (CapabilitySlot (KernelObjectRef E)) :=
  drops.flatMap fun process ↦ process.capTable.iter

/-- The rest of an errand: `more` new errands come before those already waiting. -/
def resume (s : State E) (c : CoreId) (more rest : List (Errand E)) : Outcome (State E) :=
  .next (s.goto c (s.cores c).main (more ++ rest))

section

variable [DecidableEq E]

section

variable (s : State E) (c : CoreId) (e : E)

def pollSend (message : Message) (waker : ℕ) (rest : List (Errand E)) : Outcome (State E) :=
  match (s.endpoints e).trySend ⟨s.nextId, message⟩ (.task waker) with
  | (.delivered receiver, slot) =>
    (s.setEndpoint e slot).accept.resume c (receiverErrands e receiver) rest
  | (.enqueued, slot) => (s.setEndpoint e slot).accept.resume c [] rest
  | (.queueFull, slot) => (s.setEndpoint e slot).resume c [] rest

def pollRecv (waker : ℕ) (rest : List (Errand E)) : Outcome (State E) :=
  match (s.endpoints e).tryRecv (.task waker) with
  | none => .panic .emptySenderQueue
  | some (.delivered parcel sender, slot) =>
    ((s.setEndpoint e slot).record (.handedTask parcel.id)).resume c
      (senderErrands sender parcel.id) rest
  | some (_, slot) => (s.setEndpoint e slot).resume c [] rest

/-- `wake_receiver` for a process: only a delivered message is acted on. -/
def wakeReceiver (pid : Pid) (rest : List (Errand E)) : Outcome (State E) :=
  match (s.endpoints e).tryRecv (.process pid) with
  | none => .panic .emptySenderQueue
  | some (.delivered parcel sender, slot) =>
    ((s.setEndpoint e slot).record (.taken parcel.id pid (s.isLive pid))).resume c
      (senderErrands sender parcel.id ++ [.handOver pid parcel]) rest
  | some (_, slot) => (s.setEndpoint e slot).resume c [] rest

def takeWaitingReceiver (rest : List (Errand E)) : Outcome (State E) :=
  match s.endpoints e with
  | .receiverWaiting (.process pid) => (s.setEndpoint e .empty).resume c [.peerClosed pid] rest
  | _ => s.resume c [] rest

end

def wakeBlockedProcess (s : State E) (pid : Pid) (result : WakeResult) : State E :=
  s.withSched (s.sched.wakeBlockedProcessLocked pid result)

def errandStep (s : State E) (c : CoreId) (errand : Errand E) (rest : List (Errand E))
    (choice : Choice E) : Outcome (State E) :=
  match errand with
  | .runReadyTasks =>
    match choice with
    | .pollSend e message waker => s.resume c [.pollSend e message waker, .runReadyTasks] rest
    | .pollRecv e waker => s.resume c [.pollRecv e waker, .runReadyTasks] rest
    | _ => s.resume c [] rest
  | .pollSend e message waker => s.pollSend c e message waker rest
  | .pollRecv e waker => s.pollRecv c e waker rest
  | .wakeReceiver e pid => s.wakeReceiver c e pid rest
  | .wakeSender pid id =>
    if s.isLive pid then
      ((s.wakeBlockedProcess pid .sendCompleted).record (.completed id)).resume c [] rest
    else (s.wakeBlockedProcess pid .sendCompleted).resume c [] rest
  | .handOver pid parcel =>
    ((s.wakeBlockedProcess pid (recvCompleted parcel.message)).record
      (.handed parcel.id pid (s.isLive pid))).resume c [] rest
  | .peerClosed pid => (s.wakeBlockedProcess pid .peerClosed).resume c [] rest
  | .wakeOrphanedReceivers dying =>
    s.resume c ((orphanedEndpoints s.sched dying).map .takeWaitingReceiver) rest
  | .takeWaitingReceiver e => s.takeWaitingReceiver c e rest
  | .dropBox process =>
    { s with spaces := s.spaces.erase process.addressSpace }.resume c [] rest
  | .clearStackBusy i => { s with stackBusy := update s.stackBusy i false }.resume c [] rest

def bootSpawn (s : State E) (c : CoreId) (pid : Pid) (b : BootProcess E)
    (rest : List (BootProcess E)) (choice : Choice E) : Outcome (State E) :=
  match choice with
  | .image entry frame =>
    if frame ∈ s.spaces then .stuck
    else if canonical entry.toNat = false then .panic .nonCanonicalEntry
    else
      match s.sched.spawn (b.process pid frame entry) with
      | .error _ => .panic .bootFailed
      | .ok sched =>
        let seeded : State E :=
          { s with
            sched := sched
            spaces := frame :: s.spaces
            log := b.seeds.map (fun seed ↦ .seeded pid seed.2) ++ s.log }
        .next (seeded.goto c (.boot rest) [])
  | _ => .panic .bootFailed

def trapMain (kind : Trap) (f : TrapFrame) : Main E :=
  match kind with
  | .timer => .onTimerTick f
  | .ipi => .onRescheduleIpi f
  | .fault => .exitCurrent .faulted
  | .syscall => syscallDispatch f

/-- A trap out of ring 3 puts the core on the kernel stack `rsp0` names. -/
def trap (s : State E) (c : CoreId) (choice : Choice E) : Outcome (State E) :=
  match choice with
  | .trap kind f =>
    if ring3Frame f then
      .next (s.setCore c
        { s.cores c with main := trapMain kind f, errands := [], stack := (s.cores c).rsp0 })
    else .stuck
  | _ => .stuck

def onTimerTick (s : State E) (c : CoreId) (f : TrapFrame) : Outcome (State E) :=
  match s.sched.preemptCurrent c f with
  | .error reason => .panic reason
  | .ok preempted =>
    match preempted.pop with
    | (some pid, sched) => (s.withSched sched).switchTo c pid [.runReadyTasks]
    | (none, sched) => .next ((s.withSched sched).goto c (.leave f) [.runReadyTasks])

def onRescheduleIpi (s : State E) (c : CoreId) (f : TrapFrame) : Outcome (State E) :=
  let evict := s.evictRequest c
  let s := { s with evictRequest := update s.evictRequest c 0 }
  if evict = 0 ∨ (s.sched.current c).map Pid.raw ≠ some evict then .next (s.goto c (.leave f) [])
  else
    match (Pid.mk evict).slot with
    | none => .panic .indexOutOfBounds
    | some i =>
      { s with
        sched := s.sched.setCurrent c none
        stackBusy := update s.stackBusy i true }.switchToNextOrHalt c (some i) []

/-- The two lock acquisitions of `with_current_process`. -/
def withCurrent (s : State E) (c : CoreId) (call : Call) (f : TrapFrame) : Outcome (State E) :=
  match s.sched.current c with
  | none => .next (s.goto c (.leave (f.withRax call.withoutProcess.toRax)) [])
  | some pid => .next (s.goto c (.withProcess call pid f) [])

/-- The writes a call makes while it holds its process's record: only the heap end. -/
def callWrites (call : Call) (process : Process E) : Process E :=
  match call with
  | .setHeapEnd _ newEnd => { process with heapEnd := newEnd }
  | _ => process

def recordResolve (s : State E) (process : Process E) (f : TrapFrame) (call : Call) : State E :=
  match call, resolveGrant process f with
  | .grant, .ok slot => s.record (.resolved process.pid slot)
  | _, _ => s

section

variable (s : State E) (c : CoreId)

def withProcess (call : Call) (pid : Pid) (f : TrapFrame) : Outcome (State E) :=
  match s.sched.occupiedMut pid with
  | none => .next (s.goto c (.leave (f.withRax call.withoutProcess.toRax)) [])
  | some process =>
    .next (((s.withSched (s.sched.setProcess pid (callWrites call process))).recordResolve
      process f call).goto c (callOn process f call) [])

def trySend (e : E) (message : Message) (pid : Pid) (f : TrapFrame) : Outcome (State E) :=
  match (s.endpoints e).trySend ⟨s.nextId, message⟩ (.process pid) with
  | (.delivered receiver, slot) =>
    let sent := (s.setEndpoint e slot).accept
    let sent :=
      match receiver with
      | .task _ => sent.record (.displacedTask s.nextId)
      | _ => sent
    .next (sent.goto c (.sendReturn s.nextId f) (receiverErrands e receiver))
  | (.enqueued, slot) => .next ((s.setEndpoint e slot).accept.goto c (.blockCurrent f) [])
  | (.queueFull, slot) =>
    .next ((s.setEndpoint e slot).goto c
      (.leave (f.withRax SyscallError.resourceExhausted.toRax)) [])

def tryRecv (e : E) (pid : Pid) (f : TrapFrame) : Outcome (State E) :=
  match (s.endpoints e).tryRecv (.process pid) with
  | none => .panic .emptySenderQueue
  | some (.delivered parcel sender, slot) =>
    .next (((s.setEndpoint e slot).record (.taken parcel.id pid (s.isLive pid))).goto c
      (.recvReturn parcel pid f) (senderErrands sender parcel.id))
  | some (.enqueued, slot) => .next ((s.setEndpoint e slot).goto c (.blockCurrent f) [])
  | some (.queueFull, slot) =>
    .next ((s.setEndpoint e slot).goto c
      (.leave (f.withRax SyscallError.resourceExhausted.toRax)) [])

def blockCurrent (f : TrapFrame) : Outcome (State E) :=
  match s.sched.blockCurrentProcessLocked c f with
  | .error reason => .panic reason
  | .ok sched => (s.withSched sched).switchToNextOrHalt c none []

/-- `sys_spawn` after its name lookup, which `refuse` says has failed. -/
def allocatePid (caller : Pid) (f : TrapFrame) (choice : Choice E) : Outcome (State E) :=
  match choice with
  | .refuse => .next (s.goto c (.leave (f.withRax SyscallError.noSuchProgram.toRax)) [])
  | _ =>
    let allocated := s.sched.allocatePid s.stackBusy
    .next ((s.withSched allocated.2).goto c (.fromElf caller allocated.1 f) [])

/-- `Process::from_elf` of an image whose segments load, or of one that fails. The loader makes an
address of the entry point; then the stack is mapped, or the image counts as one that fails; and the
trap frame of the child, which is written last, is mapped only for table indices. -/
def fromElf (caller child : Pid) (f : TrapFrame) (choice : Choice E) : Outcome (State E) :=
  match choice with
  | .image entry frame =>
    if frame ∈ s.spaces then .stuck
    else if canonical entry.toNat = false then .panic .nonCanonicalEntry
    else
      match child.slot with
      | none => .panic .unmappedTrapFrame
      | some _ =>
        let process : Process E :=
          { Process.new (E := E) child frame entry (some caller) with state := .suspended }
        .next ({ s with spaces := frame :: s.spaces }.goto c (.spawnSuspended process f) [])
  | _ => .next (s.goto c (.releaseReservation child f) [])

def spawnSuspended (process : Process E) (f : TrapFrame) : Outcome (State E) :=
  match s.sched.spawnSuspended process with
  | .error e =>
    .next (s.goto c (.leave (f.withRax e.toRax)) [.dropBox process])
  | .ok sched =>
    .next (((s.withSched sched).record (.spawned process.pid)).goto c
      (.leave (f.withRax process.pid.raw)) [])

/-- The second half of `sys_grant`: the write to the child's table. -/
def grant (target : Pid) (dest : CapIndex) (slot : CapabilitySlot (KernelObjectRef E))
    (caller : Pid) (f : TrapFrame) : Outcome (State E) :=
  match s.sched.occupiedMut target with
  | none => .next (s.goto c (.leave (f.withRax SyscallError.invalidTarget.toRax)) [])
  | some child =>
    if child.parent ≠ some caller ∨ child.state ≠ .suspended then
      .next (s.goto c (.leave (f.withRax SyscallError.invalidTarget.toRax)) [])
    else
      let granted := { child with capTable := child.capTable.insert dest slot }
      .next (((s.withSched (s.sched.setProcess target granted)).record
        (.granted caller target slot)).goto c (.leave (f.withRax 0)) [])

def startChild (target caller : Pid) (f : TrapFrame) : Outcome (State E) :=
  match s.sched.startChild target caller with
  | .error e => .next (s.goto c (.leave (f.withRax e.toRax)) [])
  | .ok sched => .next ((s.withSched sched).goto c (.leave (f.withRax 0)) [])

def waitForChild (target caller : Pid) (f : TrapFrame) : Outcome (State E) :=
  match s.sched.waitOutcome target caller with
  | .invalid => .next (s.goto c (.leave (f.withRax SyscallError.invalidTarget.toRax)) [])
  | .alreadyDone status =>
    .next ((s.withSched (s.sched.waitForChild target caller)).goto c
      (.leave { f with rax := 0, rdi := status.toRegs.1, rsi := status.toRegs.2 }) [])
  | .mustBlock => (s.withSched (s.sched.waitForChild target caller)).blockCurrent c f

/-- One pass of the loop of `terminate_process` under the scheduler lock. -/
def killScan (target : Pid) (f : TrapFrame) : Outcome (State E) :=
  match s.sched.owningCore target with
  | some core => .next (s.goto c (.killEvict core target f) [])
  | none =>
    match target.slot with
    | none => .panic .indexOutOfBounds
    | some _ =>
      let finalized := s.sched.finalize target .killed
      .next ((s.withSched finalized.1).goto c (.leave (f.withRax 0))
        (.wakeOrphanedReceivers (dyingCaps finalized.2) :: finalized.2.map .dropBox))

end

def killSpin (s : State E) (c core : CoreId) (target : Pid) (f : TrapFrame) (choice : Choice E) :
    Outcome (State E) :=
  if (s.sched.current core).elim 0 Pid.raw ≠ target.raw then .next (s.goto c (.killScan target f) [])
  else
    match choice with
    | .refuse =>
      .next ({ s with evictRequest := update s.evictRequest core 0 }.goto c (.killScan target f) [])
    | _ => .stuck

section

variable (s : State E) (c : CoreId)

def growHeap (oldEnd newEnd : UInt64) (f : TrapFrame) (choice : Choice E) : Outcome (State E) :=
  match choice with
  | .refuse => .next (s.goto c (.leave (f.withRax SyscallError.resourceExhausted.toRax)) [])
  | _ => .next (s.goto c (.withCurrent (.setHeapEnd oldEnd newEnd) f) [])

def transfer (f : TrapFrame) (choice : Choice E) : Outcome (State E) :=
  match choice with
  | .transfer (.ok n) => .next (s.goto c (.leave (f.withRax n)) [])
  | .transfer (.error e) => .next (s.goto c (.leave (f.withRax e.toRax)) [])
  | _ => .stuck

def exitCurrent (status : ExitStatus) : Outcome (State E) :=
  match s.sched.current c with
  | some pid => .next (s.goto c (.markStackBusy pid status) [])
  | none => .next (s.goto c (.switchNext none []) [])

def markStackBusy (pid : Pid) (status : ExitStatus) : Outcome (State E) :=
  match pid.slot with
  | none => .panic .indexOutOfBounds
  | some i => .next ({ s with stackBusy := update s.stackBusy i true }.goto c (.finalize pid status) [])

def finalizeCurrent (pid : Pid) (status : ExitStatus) : Outcome (State E) :=
  let finalized := s.sched.finalize pid status
  .next ((s.withSched finalized.1).goto c (.switchNext pid.slot finalized.2)
    [.wakeOrphanedReceivers (dyingCaps finalized.2)])

/-- One round of `idle_loop_on_own_stack`. -/
def idle (halts : Bool) : Outcome (State E) :=
  match s.sched.pop with
  | (some pid, sched) => (s.withSched sched).switchTo c pid []
  | (none, sched) =>
    if halts && s.sched.allProcessesEmpty then .next ((s.withSched sched).goto c .halted [])
    else .next ((s.withSched sched).goto c (.idle halts) [.runReadyTasks])

def mainStep (main : Main E) (choice : Choice E) : Outcome (State E) :=
  match main with
  | .boot [] =>
    .next (s.setCore c
      { s.cores c with main := .idle false, errands := [.runReadyTasks], cr3 := .idle })
  | .boot (b :: rest) =>
    let allocated := s.sched.allocatePid s.stackBusy
    .next ((s.withSched allocated.2).goto c (.bootSpawn allocated.1 b rest) [])
  | .bootSpawn pid b rest => s.bootSpawn c pid b rest choice
  | .user _ => s.trap c choice
  | .onTimerTick f => s.onTimerTick c f
  | .onRescheduleIpi f => s.onRescheduleIpi c f
  | .withCurrent call f => s.withCurrent c call f
  | .withProcess call pid f => s.withProcess c call pid f
  | .trySend e message pid f => s.trySend c e message pid f
  | .sendReturn id f => .next ((s.record (.completed id)).goto c (.leave (f.withRax 0)) [])
  | .tryRecv e pid f => s.tryRecv c e pid f
  | .recvReturn parcel pid f =>
    .next ((s.record (.handed parcel.id pid (s.isLive pid))).goto c
      (.leave (recvRegisters f parcel.message)) [])
  | .blockCurrent f => s.blockCurrent c f
  | .allocatePid caller f => s.allocatePid c caller f choice
  | .fromElf caller child f => s.fromElf c caller child f choice
  | .releaseReservation child f =>
    .next ((s.withSched (s.sched.releaseReservation child)).goto c
      (.leave (f.withRax SyscallError.spawnFailed.toRax)) [])
  | .spawnSuspended process f => s.spawnSuspended c process f
  | .grant target dest slot caller f => s.grant c target dest slot caller f
  | .startChild target caller f => s.startChild c target caller f
  | .waitForChild target caller f => s.waitForChild c target caller f
  | .killCheck target caller f =>
    if s.sched.mayTerminate target caller then .next (s.goto c (.killScan target f) [])
    else .next (s.goto c (.leave (f.withRax SyscallError.invalidTarget.toRax)) [])
  | .killScan target f => s.killScan c target f
  | .killEvict core target f =>
    .next ({ s with evictRequest := update s.evictRequest core target.raw }.goto c
      (.killSpin core target f) [])
  | .killSpin core target f => s.killSpin c core target f choice
  | .growHeap oldEnd newEnd f => s.growHeap c oldEnd newEnd f choice
  | .transfer f => s.transfer c f choice
  | .exitCurrent status => s.exitCurrent c status
  | .markStackBusy pid status => s.markStackBusy c pid status
  | .finalize pid status => s.finalizeCurrent c pid status
  | .switchNext outgoing drops => s.switchToNextOrHalt c outgoing drops
  | .leave f => .next (s.setCore c { s.cores c with main := .user f, errands := [], stack := none })
  | .idle halts => s.idle c halts
  | .halted => .stuck

def step (choice : Choice E) : Outcome (State E) :=
  match (s.cores c).errands with
  | errand :: rest => s.errandStep c errand rest choice
  | [] => s.mainStep c (s.cores c).main choice

end

/-- A core and its choice; any core may take the next step. -/
structure Action (E : Type) where
  core : CoreId
  choice : Choice E

def next (s : State E) (a : Action E) : Option (State E) := (s.step a.core a.choice).toOption

theorem step_of_next {s s' : State E} {a : Action E} (hs : s.next a = some s') :
    s.step a.core a.choice = .next s' := by
  unfold next Outcome.toOption at hs
  split at hs
  · rename_i t ht
    cases hs
    exact ht
  · cases hs

theorem mainStep_of_next {s s' : State E} {a : Action E} {m : Main E} (hs : s.next a = some s')
    (herr : (s.cores a.core).errands = []) (hmain : (s.cores a.core).main = m) :
    s.mainStep a.core m a.choice = .next s' := by
  have hstep := step_of_next hs
  unfold step at hstep
  rwa [herr, hmain] at hstep

/-- The process that the next step of core `c` terminates, by exit, fault or kill, and how. -/
def terminates (s : State E) (c : CoreId) : Option (Pid × ExitStatus) :=
  match (s.cores c).errands, (s.cores c).main with
  | [], .finalize pid status => some (pid, status)
  | [], .killScan target _ =>
    if s.sched.owningCore target = none then some (target, .killed) else none
  | _, _ => none

def ends (s : State E) (c : CoreId) : Option Pid := (s.terminates c).map Prod.fst

end

section Terminates

variable {s s' : State E} {a : Action E} {c : CoreId} {q : Pid} {status : ExitStatus} {f : TrapFrame}

theorem terminates_exit (herr : (s.cores c).errands = [])
    (hmain : (s.cores c).main = .finalize q status) : s.terminates c = some (q, status) := by
  simp only [terminates, herr, hmain]

theorem terminates_kill (herr : (s.cores c).errands = []) (hmain : (s.cores c).main = .killScan q f)
    (howner : s.sched.owningCore q = none) : s.terminates c = some (q, .killed) := by
  simp only [terminates, herr, hmain, howner, if_true]

theorem terminates_cases (h : s.terminates c = some (q, status)) : (s.cores c).errands = [] ∧
    ((s.cores c).main = .finalize q status ∨ ∃ f, (s.cores c).main = .killScan q f ∧
      s.sched.owningCore q = none ∧ status = .killed) := by
  unfold terminates at h
  split at h
  · rename_i herr hmain
    cases h
    exact ⟨herr, .inl hmain⟩
  · rename_i herr hmain
    split at h
    · rename_i howner
      cases h
      exact ⟨herr, .inr ⟨_, hmain, howner, rfl⟩⟩
    · cases h
  · cases h

theorem mem_ends : q ∈ s.ends c ↔ ∃ status, s.terminates c = some (q, status) := by
  simp [ends]

variable [DecidableEq E]

theorem next_of_terminates (hends : s.terminates a.core = some (q, status))
    (hs : s.next a = some s') : s'.sched = (s.sched.finalize q status).1 ∧
      .wakeOrphanedReceivers (dyingCaps (s.sched.finalize q status).2) ∈
        (s'.cores a.core).errands := by
  obtain ⟨herr, hmain | ⟨f, hmain, howner, rfl⟩⟩ := terminates_cases hends
  · have hstep := mainStep_of_next hs herr hmain
    simp only [mainStep, finalizeCurrent] at hstep
    cases hstep
    exact ⟨rfl, by rw [goto_errands]; exact List.mem_cons_self⟩
  · have hstep := mainStep_of_next hs herr hmain
    simp only [mainStep, killScan, howner] at hstep
    split at hstep
    · cases hstep
    · cases hstep
      exact ⟨rfl, by rw [goto_errands]; exact List.mem_cons_self⟩

end Terminates

end State

end Tarnos.Kernel
