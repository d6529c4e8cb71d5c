import Tarnos.Kernel.Trade

namespace Tarnos.Kernel

open Abi Arch Kcore Tarnos.Task Function Inner SyscallError

variable {E : Type} {sched : Inner E} {reason : Panic} {f : TrapFrame}

namespace Main

def boxes : Main E → List (Process E)
  | .spawnSuspended process _ => [process]
  | .switchNext _ drops => drops
  | _ => []

def outgoing : Main E → Option (Fin maxProcesses)
  | .switchNext slot _ => slot
  | _ => none

end Main

namespace Errand

/-- Polling tasks, dropping boxes and clearing marks: nothing that wakes or exchanges. -/
def housekeeping : Errand E → Bool
  | .runReadyTasks | .dropBox _ | .clearStackBusy _ => true
  | _ => false

inductive Wakes (s : State E) : Errand E → Pid → WakeResult → List (Event E) → Prop
  | sender {pid : Pid} {id : ℕ} :
      Wakes s (.wakeSender pid id) pid .sendCompleted (if s.isLive pid then [.completed id] else [])
  | receiver {pid : Pid} {parcel : Parcel} :
      Wakes s (.handOver pid parcel) pid (recvCompleted parcel.message)
        [.handed parcel.id pid (s.isLive pid)]
  | orphan {pid : Pid} : Wakes s (.peerClosed pid) pid .peerClosed []

end Errand

namespace State

inductive Stay (s : State E) (c : CoreId) : Main E → Main E → Prop
  | noCaller {call : Call} {f : TrapFrame} (hc : s.sched.current c = none) :
      Stay s c (.withCurrent call f) (.leave (f.withRax call.withoutProcess.toRax))
  | caller {call : Call} {f : TrapFrame} {pid : Pid} (hc : s.sched.current c = some pid) :
      Stay s c (.withCurrent call f) (.withProcess call pid f)
  | noRecord {call : Call} {pid : Pid} {f : TrapFrame} (hP : s.sched.occupiedMut pid = none) :
      Stay s c (.withProcess call pid f) (.leave (f.withRax call.withoutProcess.toRax))
  | noProgram {caller : Pid} {f : TrapFrame} :
      Stay s c (.allocatePid caller f) (.leave (f.withRax noSuchProgram.toRax))
  | noImage {caller child : Pid} {f : TrapFrame} :
      Stay s c (.fromElf caller child f) (.releaseReservation child f)
  | grantRefused {target caller : Pid} {dest : CapIndex} {slot : CapabilitySlot (KernelObjectRef E)}
      {f : TrapFrame} (hchild : ∀ P, s.sched.occupiedMut target = some P →
        P.parent ≠ some caller ∨ P.state ≠ .suspended) :
      Stay s c (.grant target dest slot caller f)
        (.leave (f.withRax invalidTarget.toRax))
  | startRefused {target caller : Pid} {f : TrapFrame} {e : SyscallError}
      (hstart : s.sched.startChild target caller = .error e) :
      Stay s c (.startChild target caller f) (.leave (f.withRax e.toRax))
  | waitRefused {target caller : Pid} {f : TrapFrame}
      (hwait : s.sched.waitOutcome target caller = .invalid) :
      Stay s c (.waitForChild target caller f) (.leave (f.withRax invalidTarget.toRax))
  | killRefused {target caller : Pid} {f : TrapFrame}
      (hmay : s.sched.mayTerminate target caller = false) :
      Stay s c (.killCheck target caller f) (.leave (f.withRax invalidTarget.toRax))
  | killAllowed {target caller : Pid} {f : TrapFrame}
      (hmay : s.sched.mayTerminate target caller = true) :
      Stay s c (.killCheck target caller f) (.killScan target f)
  | killOwned {target : Pid} {core : CoreId} {f : TrapFrame}
      (howner : s.sched.owningCore target = some core) :
      Stay s c (.killScan target f) (.killEvict core target f)
  | killSeen {target : Pid} {core : CoreId} {f : TrapFrame}
      (hcore : (s.sched.current core).elim 0 Pid.raw ≠ target.raw) :
      Stay s c (.killSpin core target f) (.killScan target f)
  | heapRefused {oldEnd newEnd : UInt64} {f : TrapFrame} :
      Stay s c (.growHeap oldEnd newEnd f)
        (.leave (f.withRax resourceExhausted.toRax))
  | heapMapped {oldEnd newEnd : UInt64} {f : TrapFrame} :
      Stay s c (.growHeap oldEnd newEnd f) (.withCurrent (.setHeapEnd oldEnd newEnd) f)
  | transferred {f : TrapFrame} {value : UInt64} :
      Stay s c (.transfer f) (.leave (f.withRax value))
  | exits {pid : Pid} {status : ExitStatus} (hc : s.sched.current c = some pid) :
      Stay s c (.exitCurrent status) (.markStackBusy pid status)
  | exitsNone {status : ExitStatus} (hc : s.sched.current c = none) :
      Stay s c (.exitCurrent status) (.switchNext none [])

/-- The ways core `c` comes to look at the ready queue, with the state it then has. -/
inductive Yields (s : State E) (c : CoreId) : Main E → State E → Prop
  | tick {f : TrapFrame} {sched : Inner E} (hpre : s.sched.preemptCurrent c f = .ok sched) :
      Yields s c (.onTimerTick f) (s.withSched sched)
  | block {f : TrapFrame} {sched : Inner E}
      (hblock : s.sched.blockCurrentProcessLocked c f = .ok sched) :
      Yields s c (.blockCurrent f) (s.withSched sched)
  | wait {target caller : Pid} {f : TrapFrame} {sched : Inner E}
      (hwait : s.sched.waitOutcome target caller = .mustBlock)
      (hblock : (s.sched.waitForChild target caller).blockCurrentProcessLocked c f = .ok sched) :
      Yields s c (.waitForChild target caller f) (s.withSched sched)
  | evict {f : TrapFrame} {i : Fin maxProcesses} (hpid : (s.sched.current c).map Pid.raw =
        some (s.evictRequest c)) (hne : s.evictRequest c ≠ 0)
      (hslot : (Pid.mk (s.evictRequest c)).slot = some i) :
      Yields s c (.onRescheduleIpi f)
        { s with
          sched := s.sched.setCurrent c none
          stackBusy := update s.stackBusy i true
          evictRequest := update s.evictRequest c 0 }
  | next {outgoing : Option (Fin maxProcesses)} {drops : List (Process E)} :
      Yields s c (.switchNext outgoing drops) s
  | idle {halts : Bool} : Yields s c (.idle halts) s

def vacated (s : State E) (c : CoreId) : Main E → Option (Fin maxProcesses)
  | .onRescheduleIpi _ => (Pid.mk (s.evictRequest c)).slot
  | m => m.outgoing

/-- Everything a step of core `c` can do. -/
inductive Turn [DecidableEq E] (s : State E) (c : CoreId) : State E → Prop
  | tasks {rest more : List (Errand E)} (herr : (s.cores c).errands = .runReadyTasks :: rest)
      (hmore : more = [] ∨ (∃ e message waker, more = [.pollSend e message waker, .runReadyTasks]) ∨
        ∃ e waker, more = [.pollRecv e waker, .runReadyTasks]) :
      Turn s c (s.goto c (s.cores c).main (more ++ rest))
  | pollSend {e : E} {message : Message} {waker : ℕ} {rest : List (Errand E)} {s' : State E}
      (herr : (s.cores c).errands = .pollSend e message waker :: rest)
      (hs : s.pollSend c e message waker rest = .next s') (htrade : s.Trade c s') :
      Turn s c s'
  | pollRecv {e : E} {waker : ℕ} {rest : List (Errand E)} {s' : State E}
      (herr : (s.cores c).errands = .pollRecv e waker :: rest)
      (hs : s.pollRecv c e waker rest = .next s') (htrade : s.Trade c s') :
      Turn s c s'
  | wakeReceiver {e : E} {pid : Pid} {rest : List (Errand E)} {s' : State E}
      (herr : (s.cores c).errands = .wakeReceiver e pid :: rest)
      (hs : s.wakeReceiver c e pid rest = .next s') (htrade : s.Trade c s') :
      Turn s c s'
  | takeWaitingReceiver {e : E} {rest : List (Errand E)} {s' : State E}
      (herr : (s.cores c).errands = .takeWaitingReceiver e :: rest)
      (hs : s.takeWaitingReceiver c e rest = .next s') (htrade : s.Trade c s') :
      Turn s c s'
  | wake {errand : Errand E} {pid : Pid} {result : WakeResult} {notes : List (Event E)}
      {rest : List (Errand E)} (herr : (s.cores c).errands = errand :: rest)
      (hwakes : errand.Wakes s pid result notes) :
      Turn s c ({ s.wakeBlockedProcess pid result with log := notes ++ s.log }.goto c
        (s.cores c).main rest)
  | orphans {dying : List (CapabilitySlot (KernelObjectRef E))} {rest : List (Errand E)}
      (herr : (s.cores c).errands = .wakeOrphanedReceivers dying :: rest) :
      Turn s c (s.goto c (s.cores c).main
        ((orphanedEndpoints s.sched dying).map .takeWaitingReceiver ++ rest))
  | dropBox {P : Process E} {rest : List (Errand E)}
      (herr : (s.cores c).errands = .dropBox P :: rest) :
      Turn s c ({ s with spaces := s.spaces.erase P.addressSpace }.goto c (s.cores c).main rest)
  | clearStackBusy {i : Fin maxProcesses} {rest : List (Errand E)}
      (herr : (s.cores c).errands = .clearStackBusy i :: rest) :
      Turn s c ({ s with stackBusy := update s.stackBusy i false }.goto c (s.cores c).main rest)
  | stay {m m' : Main E} (herr : (s.cores c).errands = []) (hmain : (s.cores c).main = m)
      (hstay : s.Stay c m m') : Turn s c (s.goto c m' [])
  | bootDone (herr : (s.cores c).errands = []) (hmain : (s.cores c).main = .boot []) :
      Turn s c (s.setCore c
        { s.cores c with main := .idle false, errands := [.runReadyTasks], cr3 := .idle })
  | bootAllocate {boot : BootProcess E} {rest : List (BootProcess E)}
      (herr : (s.cores c).errands = []) (hmain : (s.cores c).main = .boot (boot :: rest)) :
      Turn s c ((s.withSched (s.sched.allocatePid s.stackBusy).2).goto c
        (.bootSpawn (s.sched.allocatePid s.stackBusy).1 boot rest) [])
  | bootSpawn {pid : Pid} {boot : BootProcess E} {rest : List (BootProcess E)} {entry : UInt64}
      {frame : ℕ} {sched : Inner E} (herr : (s.cores c).errands = [])
      (hmain : (s.cores c).main = .bootSpawn pid boot rest) (hfresh : frame ∉ s.spaces)
      (hspawn : s.sched.spawn (boot.process pid frame entry) = .ok sched) :
      Turn s c (({ s with
        sched := sched
        spaces := frame :: s.spaces
        log := boot.seeds.map (fun seed ↦ .seeded pid seed.2) ++ s.log } : State E).goto c
          (.boot rest) [])
  | trap {f g : TrapFrame} {kind : Trap} (herr : (s.cores c).errands = [])
      (hmain : (s.cores c).main = .user g) (hring : ring3Frame f = true) :
      Turn s c (s.setCore c
        { s.cores c with main := trapMain kind f, errands := [], stack := (s.cores c).rsp0 })
  | leave {f : TrapFrame} (herr : (s.cores c).errands = []) (hmain : (s.cores c).main = .leave f) :
      Turn s c (s.setCore c { s.cores c with main := .user f, errands := [], stack := none })
  | ignoreIpi {f : TrapFrame} (herr : (s.cores c).errands = [])
      (hmain : (s.cores c).main = .onRescheduleIpi f) :
      Turn s c ({ s with evictRequest := update s.evictRequest c 0 }.goto c (.leave f) [])
  | record {call : Call} {pid : Pid} {f : TrapFrame} {P : Process E}
      (herr : (s.cores c).errands = []) (hmain : (s.cores c).main = .withProcess call pid f)
      (hP : s.sched.occupiedMut pid = some P) :
      Turn s c (((s.withSched (s.sched.setProcess pid (callWrites call P))).recordResolve P f
        call).goto c (callOn P f call) [])
  | trySend {e : E} {message : Message} {pid : Pid} {f : TrapFrame} {s' : State E}
      (herr : (s.cores c).errands = []) (hmain : (s.cores c).main = .trySend e message pid f)
      (hs : s.trySend c e message pid f = .next s') (htrade : s.Trade c s') :
      Turn s c s'
  | sendReturn {id : ℕ} {f : TrapFrame} (herr : (s.cores c).errands = [])
      (hmain : (s.cores c).main = .sendReturn id f) :
      Turn s c ((s.record (.completed id)).goto c (.leave (f.withRax 0)) [])
  | tryRecv {e : E} {pid : Pid} {f : TrapFrame} {s' : State E}
      (herr : (s.cores c).errands = []) (hmain : (s.cores c).main = .tryRecv e pid f)
      (hs : s.tryRecv c e pid f = .next s') (htrade : s.Trade c s') :
      Turn s c s'
  | recvReturn {parcel : Parcel} {pid : Pid} {f : TrapFrame} (herr : (s.cores c).errands = [])
      (hmain : (s.cores c).main = .recvReturn parcel pid f) :
      Turn s c ((s.record (.handed parcel.id pid (s.isLive pid))).goto c
        (.leave (recvRegisters f parcel.message)) [])
  | allocate {caller : Pid} {f : TrapFrame} (herr : (s.cores c).errands = [])
      (hmain : (s.cores c).main = .allocatePid caller f) :
      Turn s c ((s.withSched (s.sched.allocatePid s.stackBusy).2).goto c
        (.fromElf caller (s.sched.allocatePid s.stackBusy).1 f) [])
  | load {caller child : Pid} {f : TrapFrame} {entry : UInt64} {frame : ℕ} {i : Fin maxProcesses}
      (herr : (s.cores c).errands = []) (hmain : (s.cores c).main = .fromElf caller child f)
      (hfresh : frame ∉ s.spaces) (hslot : child.slot = some i) :
      Turn s c ({ s with spaces := frame :: s.spaces }.goto c (.spawnSuspended
        { Process.new child frame entry (some caller) with state := .suspended } f) [])
  | release {child : Pid} {f : TrapFrame} (herr : (s.cores c).errands = [])
      (hmain : (s.cores c).main = .releaseReservation child f) :
      Turn s c ((s.withSched (s.sched.releaseReservation child)).goto c
        (.leave (f.withRax spawnFailed.toRax)) [])
  | spawn {P : Process E} {f : TrapFrame} {sched : Inner E} (herr : (s.cores c).errands = [])
      (hmain : (s.cores c).main = .spawnSuspended P f)
      (hspawn : s.sched.spawnSuspended P = .ok sched) :
      Turn s c (((s.withSched sched).record (.spawned P.pid)).goto c
        (.leave (f.withRax P.pid.raw)) [])
  | spawnFail {P : Process E} {f : TrapFrame} {e : SyscallError} (herr : (s.cores c).errands = [])
      (hmain : (s.cores c).main = .spawnSuspended P f)
      (hspawn : s.sched.spawnSuspended P = .error e) :
      Turn s c (s.goto c (.leave (f.withRax e.toRax)) [.dropBox P])
  | grant {target caller : Pid} {dest : CapIndex} {slot : CapabilitySlot (KernelObjectRef E)}
      {f : TrapFrame} {P : Process E} (herr : (s.cores c).errands = [])
      (hmain : (s.cores c).main = .grant target dest slot caller f)
      (hP : s.sched.occupiedMut target = some P) (hparent : P.parent = some caller)
      (hstate : P.state = .suspended) :
      Turn s c (((s.withSched (s.sched.setProcess target
        { P with capTable := P.capTable.insert dest slot })).record
          (.granted caller target slot)).goto c (.leave (f.withRax 0)) [])
  | start {target caller : Pid} {f : TrapFrame} {sched : Inner E} (herr : (s.cores c).errands = [])
      (hmain : (s.cores c).main = .startChild target caller f)
      (hstart : s.sched.startChild target caller = .ok sched) :
      Turn s c ((s.withSched sched).goto c (.leave (f.withRax 0)) [])
  | collect {target caller : Pid} {f : TrapFrame} {status : ExitStatus}
      (herr : (s.cores c).errands = []) (hmain : (s.cores c).main = .waitForChild target caller f)
      (hwait : s.sched.waitOutcome target caller = .alreadyDone status) :
      Turn s c ((s.withSched (s.sched.waitForChild target caller)).goto c
        (.leave { f with rax := 0, rdi := status.toRegs.1, rsi := status.toRegs.2 }) [])
  | request {target : Pid} {core : CoreId} {f : TrapFrame} (herr : (s.cores c).errands = [])
      (hmain : (s.cores c).main = .killEvict core target f) :
      Turn s c ({ s with evictRequest := update s.evictRequest core target.raw }.goto c
        (.killSpin core target f) [])
  | withdraw {target : Pid} {core : CoreId} {f : TrapFrame} (herr : (s.cores c).errands = [])
      (hmain : (s.cores c).main = .killSpin core target f) :
      Turn s c ({ s with evictRequest := update s.evictRequest core 0 }.goto c
        (.killScan target f) [])
  | kill {target : Pid} {f : TrapFrame} {i : Fin maxProcesses} (herr : (s.cores c).errands = [])
      (hmain : (s.cores c).main = .killScan target f) (howner : s.sched.owningCore target = none)
      (hslot : target.slot = some i) :
      Turn s c ((s.withSched (s.sched.finalize target .killed).1).goto c (.leave (f.withRax 0))
        (.wakeOrphanedReceivers (dyingCaps (s.sched.finalize target .killed).2) ::
          (s.sched.finalize target .killed).2.map .dropBox))
  | mark {pid : Pid} {status : ExitStatus} {i : Fin maxProcesses} (herr : (s.cores c).errands = [])
      (hmain : (s.cores c).main = .markStackBusy pid status) (hslot : pid.slot = some i) :
      Turn s c ({ s with stackBusy := update s.stackBusy i true }.goto c (.finalize pid status) [])
  | exit {pid : Pid} {status : ExitStatus} (herr : (s.cores c).errands = [])
      (hmain : (s.cores c).main = .finalize pid status) :
      Turn s c ((s.withSched (s.sched.finalize pid status).1).goto c
        (.switchNext pid.slot (s.sched.finalize pid status).2)
        [.wakeOrphanedReceivers (dyingCaps (s.sched.finalize pid status).2)])
  | dispatch {m : Main E} {b : State E} {pid : Pid} {popped sched : Inner E} {P : Process E}
      {errands : List (Errand E)} (herr : (s.cores c).errands = []) (hmain : (s.cores c).main = m)
      (hyields : s.Yields c m b) (hpop : b.sched.pop = (some pid, popped))
      (hswitch : popped.switchTo c pid = .ok (P, sched))
      (hkeeping : ∀ x ∈ errands, x.housekeeping = true)
      (htidy : ∃ mid, (∀ x ∈ mid, x = .runReadyTasks) ∧
        errands = m.boxes.map .dropBox ++ mid ++ outgoingErrands (s.vacated c m)) :
      Turn s c ((b.withSched sched).dispatch c P errands)
  | abandon {m : Main E} {b : State E} {popped : Inner E} {errands : List (Errand E)}
      (herr : (s.cores c).errands = []) (hmain : (s.cores c).main = m) (hyields : s.Yields c m b)
      (hpop : b.sched.pop = (none, popped)) (hkeeping : ∀ x ∈ errands, x.housekeeping = true)
      (htidy : errands = outgoingErrands (s.vacated c m) ++ m.boxes.map .dropBox ++ [.runReadyTasks]) :
      Turn s c ((b.withSched popped).abandon c errands)
  | resumeTick {f : TrapFrame} {sched popped : Inner E} (herr : (s.cores c).errands = [])
      (hmain : (s.cores c).main = .onTimerTick f) (hpre : s.sched.preemptCurrent c f = .ok sched)
      (hpop : sched.pop = (none, popped)) :
      Turn s c ((s.withSched popped).goto c (.leave f) [.runReadyTasks])
  | rest {halts : Bool} {m : Main E} {popped : Inner E} {errands : List (Errand E)}
      (herr : (s.cores c).errands = []) (hmain : (s.cores c).main = .idle halts)
      (hpop : s.sched.pop = (none, popped)) (hnew : m = .idle halts ∨ m = .halted)
      (hkeeping : ∀ x ∈ errands, x.housekeeping = true)
      (htasks : ∀ x ∈ errands, x = .runReadyTasks) :
      Turn s c ((s.withSched popped).goto c m errands)

section Inversion

variable {s b s' : State E} {c : CoreId} {choice : Choice E}

theorem housekeeping_append {l₁ l₂ : List (Errand E)} (h₁ : ∀ x ∈ l₁, x.housekeeping = true)
    (h₂ : ∀ x ∈ l₂, x.housekeeping = true) : ∀ x ∈ l₁ ++ l₂, x.housekeeping = true := by
  intro x hx
  rcases List.mem_append.mp hx with hx | hx
  · exact h₁ x hx
  · exact h₂ x hx

theorem housekeeping_drops (drops : List (Process E)) :
    ∀ x ∈ drops.map Errand.dropBox, x.housekeeping = true := by
  intro x hx
  obtain ⟨P, -, rfl⟩ := List.mem_map.mp hx
  rfl

theorem housekeeping_outgoing (outgoing : Option (Fin maxProcesses)) :
    ∀ x ∈ (outgoingErrands outgoing : List (Errand E)), x.housekeeping = true := by
  intro x hx
  cases outgoing with
  | none => cases hx
  | some i => rw [List.mem_singleton.mp hx]; rfl

theorem housekeeping_tasks : ∀ x ∈ [(Errand.runReadyTasks : Errand E)], x.housekeeping = true := by
  intro x hx
  rw [List.mem_singleton.mp hx]
  rfl

theorem preemptCurrent_error
    (h : sched.preemptCurrent c f = .error reason) : reason = .indexOutOfBounds := by
  unfold preemptCurrent at h
  split at h
  · cases h
  · split at h
    · cases h
      rfl
    · split at h <;> cases h

theorem blockCurrentProcessLocked_error
    (h : sched.blockCurrentProcessLocked c f = .error reason) : reason = .indexOutOfBounds := by
  unfold blockCurrentProcessLocked at h
  split at h
  · cases h
  · split at h
    · cases h
      rfl
    · split at h
      · split at h <;> cases h
      · cases h

/-- Why a step of core `c` panics: a process it dispatches breaks an assertion of `switch_to`, or an
index, a queue, a trap frame, an entry point or the boot is not as the code expects. -/
inductive Fails (s : State E) (c : CoreId) : Panic → Prop
  | dispatch {m : Main E} {b : State E} {pid : Pid} {popped : Inner E} {reason : Panic}
      (hmain : (s.cores c).main = m) (hyields : s.Yields c m b)
      (hpop : b.sched.pop = (some pid, popped)) (hswitch : popped.switchTo c pid = .error reason) :
      Fails s c reason
  | index : Fails s c .indexOutOfBounds
  | queue : Fails s c .emptySenderQueue
  | frame : Fails s c .unmappedTrapFrame
  | entry : Fails s c .nonCanonicalEntry
  | boot : Fails s c .bootFailed

section

variable [DecidableEq E]

inductive Explained (s : State E) (c : CoreId) : Outcome (State E) → Prop
  | turn {s' : State E} (h : s.Turn c s') : Explained s c (.next s')
  | fails {reason : Panic} (h : s.Fails c reason) : Explained s c (.panic reason)
  | stuck : Explained s c .stuck

theorem explained_of {outcome : Outcome (State E)}
    (hnext : ∀ s', outcome = .next s' → s.Turn c s')
    (hpanic : ∀ reason, outcome = .panic reason → s.Fails c reason) : s.Explained c outcome := by
  cases outcome with
  | next s' => exact .turn (hnext s' rfl)
  | panic reason => exact .fails (hpanic reason rfl)
  | stuck => exact .stuck

end

section Main

variable [DecidableEq E] {m : Main E} (herr : (s.cores c).errands = []) (hmain : (s.cores c).main = m)

include herr hmain

theorem explained_switchTo {pid : Pid} {popped : Inner E} {errands : List (Errand E)}
    (hyields : s.Yields c m b) (hpop : b.sched.pop = (some pid, popped))
    (htidy : ∃ mid, (∀ x ∈ mid, x = .runReadyTasks) ∧
      errands = m.boxes.map .dropBox ++ mid ++ outgoingErrands (s.vacated c m)) :
    s.Explained c ((b.withSched popped).switchTo c pid errands) := by
  have hkeeping : ∀ x ∈ errands, x.housekeeping = true := by
    obtain ⟨mid, hmid, rfl⟩ := htidy
    exact housekeeping_append (housekeeping_append (housekeeping_drops _) fun x hx ↦ by
      rw [hmid x hx]; rfl) (housekeeping_outgoing _)
  unfold switchTo
  split
  · rename_i reason hswitch
    exact .fails (.dispatch hmain hyields hpop hswitch)
  · rename_i P sched hswitch
    exact .turn (Turn.dispatch (b := b) herr hmain hyields hpop hswitch hkeeping htidy)

theorem explained_switchToNextOrHalt (hyields : s.Yields c m b) :
    s.Explained c (b.switchToNextOrHalt c (s.vacated c m) m.boxes) := by
  unfold switchToNextOrHalt
  split
  · rename_i pid popped hpop
    exact explained_switchTo herr hmain hyields hpop
      ⟨[.runReadyTasks], fun _ ↦ List.mem_singleton.mp, rfl⟩
  · rename_i popped hpop
    refine .turn (Turn.abandon (b := b) herr hmain hyields hpop ?_ rfl)
    exact housekeeping_append (housekeeping_append (housekeeping_outgoing _)
      (housekeeping_drops _)) housekeeping_tasks

theorem explained_block (hyields : ∀ blocked, sched.blockCurrentProcessLocked c f = .ok blocked →
      s.Yields c m (s.withSched blocked)) (hnone : s.vacated c m = none) (hboxes : m.boxes = []) :
    s.Explained c ((s.withSched sched).blockCurrent c f) := by
  unfold blockCurrent
  split
  · rename_i reason hblock
    rw [blockCurrentProcessLocked_error hblock]
    exact .fails .index
  · rename_i blocked hblock
    rw [← hnone, ← hboxes]
    exact explained_switchToNextOrHalt herr hmain (hyields blocked hblock)

theorem explained_mainStep : s.Explained c (s.mainStep c m choice) := by
  cases m with
  | boot rest =>
    cases rest with
    | nil => exact .turn (.bootDone herr hmain)
    | cons boot rest => exact .turn (.bootAllocate herr hmain)
  | bootSpawn pid boot rest =>
    simp only [mainStep, bootSpawn]
    split
    · split
      · exact .stuck
      · rename_i hfresh
        split
        · exact .fails .entry
        split
        · exact .fails .boot
        · rename_i sched hspawn
          exact .turn (.bootSpawn herr hmain hfresh hspawn)
    · exact .fails .boot
  | user g =>
    simp only [mainStep, trap]
    split
    · split
      · rename_i hring
        exact .turn (.trap herr hmain hring)
      · exact .stuck
    · exact .stuck
  | onTimerTick f =>
    simp only [mainStep, onTimerTick]
    split
    · rename_i reason hpre
      rw [preemptCurrent_error hpre]
      exact .fails .index
    · rename_i preempted hpre
      split
      · rename_i pid popped hpop
        exact explained_switchTo (b := s.withSched preempted) herr hmain (.tick hpre) hpop
          ⟨[.runReadyTasks], fun _ ↦ List.mem_singleton.mp, rfl⟩
      · rename_i popped hpop
        exact .turn (.resumeTick herr hmain hpre hpop)
  | onRescheduleIpi f =>
    simp only [mainStep, onRescheduleIpi]
    split
    · exact .turn (.ignoreIpi herr hmain)
    · rename_i hevict
      push Not at hevict
      split
      · exact .fails .index
      · rename_i i hslot
        rw [← hslot]
        exact explained_switchToNextOrHalt herr hmain (.evict hevict.2 hevict.1 hslot)
  | withCurrent call f =>
    simp only [mainStep, withCurrent]
    split
    · rename_i hc
      exact .turn (.stay herr hmain (.noCaller hc))
    · rename_i pid hc
      exact .turn (.stay herr hmain (.caller hc))
  | withProcess call pid f =>
    simp only [mainStep, withProcess]
    split
    · rename_i hP
      exact .turn (.stay herr hmain (.noRecord hP))
    · rename_i P hP
      exact .turn (.record herr hmain hP)
  | trySend e message pid f =>
    refine explained_of (fun s' hs ↦ .trySend herr hmain hs (.trySend herr hmain hs)) fun reason hs ↦ ?_
    simp only [mainStep, trySend] at hs
    split at hs <;> cases hs
  | sendReturn id f => exact .turn (.sendReturn herr hmain)
  | tryRecv e pid f =>
    refine explained_of (fun s' hs ↦ .tryRecv herr hmain hs (.tryRecv herr hmain hs)) fun reason hs ↦ ?_
    simp only [mainStep, tryRecv] at hs
    split at hs
    · cases hs
      exact .queue
    all_goals cases hs
  | recvReturn parcel pid f => exact .turn (.recvReturn herr hmain)
  | blockCurrent f => exact explained_block herr hmain (fun _ hblock ↦ .block hblock) rfl rfl
  | allocatePid caller f =>
    simp only [mainStep, allocatePid]
    split
    · exact .turn (.stay herr hmain .noProgram)
    · exact .turn (.allocate herr hmain)
  | fromElf caller child f =>
    simp only [mainStep, fromElf]
    split
    · split
      · exact .stuck
      · rename_i hfresh
        split
        · exact .fails .entry
        split
        · exact .fails .frame
        · rename_i i hslot
          exact .turn (.load herr hmain hfresh hslot)
    · exact .turn (.stay herr hmain .noImage)
  | releaseReservation child f => exact .turn (.release herr hmain)
  | spawnSuspended P f =>
    simp only [mainStep, spawnSuspended]
    split
    · rename_i e hspawn
      exact .turn (.spawnFail herr hmain hspawn)
    · rename_i sched hspawn
      exact .turn (.spawn herr hmain hspawn)
  | grant target dest slot caller f =>
    simp only [mainStep, grant]
    split
    · rename_i hnone
      refine .turn (.stay herr hmain (.grantRefused fun P hP ↦ ?_))
      rw [hnone] at hP
      cases hP
    · rename_i P hP
      split
      · rename_i hcheck
        refine .turn (.stay herr hmain (.grantRefused fun P' hP' ↦ ?_))
        rw [hP] at hP'
        cases hP'
        exact hcheck
      · rename_i hcheck
        push Not at hcheck
        exact .turn (.grant herr hmain hP hcheck.1 hcheck.2)
  | startChild target caller f =>
    simp only [mainStep, startChild]
    split
    · rename_i e hstart
      exact .turn (.stay herr hmain (.startRefused hstart))
    · rename_i sched hstart
      exact .turn (.start herr hmain hstart)
  | waitForChild target caller f =>
    simp only [mainStep, waitForChild]
    split
    · rename_i hwait
      exact .turn (.stay herr hmain (.waitRefused hwait))
    · rename_i status hwait
      exact .turn (.collect herr hmain hwait)
    · rename_i hwait
      exact explained_block herr hmain (fun _ hblock ↦ .wait hwait hblock) rfl rfl
  | killCheck target caller f =>
    simp only [mainStep]
    split
    · rename_i hmay
      exact .turn (.stay herr hmain (.killAllowed hmay))
    · rename_i hmay
      exact .turn (.stay herr hmain (.killRefused (Bool.not_eq_true _ ▸ hmay)))
  | killScan target f =>
    simp only [mainStep, killScan]
    split
    · rename_i core howner
      exact .turn (.stay herr hmain (.killOwned howner))
    · rename_i howner
      split
      · exact .fails .index
      · rename_i i hslot
        exact .turn (.kill herr hmain howner hslot)
  | killEvict core target f => exact .turn (.request herr hmain)
  | killSpin core target f =>
    simp only [mainStep, killSpin]
    split
    · rename_i hcore
      exact .turn (.stay herr hmain (.killSeen hcore))
    · split
      · exact .turn (.withdraw herr hmain)
      · exact .stuck
  | growHeap oldEnd newEnd f =>
    simp only [mainStep, growHeap]
    split
    · exact .turn (.stay herr hmain .heapRefused)
    · exact .turn (.stay herr hmain .heapMapped)
  | transfer f =>
    simp only [mainStep, transfer]
    split
    · exact .turn (.stay herr hmain .transferred)
    · exact .turn (.stay herr hmain .transferred)
    · exact .stuck
  | exitCurrent status =>
    simp only [mainStep, exitCurrent]
    split
    · rename_i pid hc
      exact .turn (.stay herr hmain (.exits hc))
    · rename_i hc
      exact .turn (.stay herr hmain (.exitsNone hc))
  | markStackBusy pid status =>
    simp only [mainStep, markStackBusy]
    split
    · exact .fails .index
    · rename_i i hslot
      exact .turn (.mark herr hmain hslot)
  | finalize pid status => exact .turn (.exit herr hmain)
  | switchNext outgoing drops => exact explained_switchToNextOrHalt herr hmain .next
  | leave f => exact .turn (.leave herr hmain)
  | idle halts =>
    simp only [mainStep, idle]
    split
    · rename_i pid popped hpop
      exact explained_switchTo herr hmain .idle hpop ⟨[], by simp, rfl⟩
    · rename_i popped hpop
      split
      · exact .turn (.rest herr hmain hpop (.inr rfl) (by simp) (by simp))
      · exact .turn (.rest herr hmain hpop (.inl rfl) housekeeping_tasks (by simp))
  | halted => exact .stuck

end Main

theorem Yields.cores {m : Main E} (h : s.Yields c m b) : b.cores = s.cores := by
  cases h <;> rfl

variable [DecidableEq E]

theorem explained_errandStep {errand : Errand E} {rest : List (Errand E)}
    (herr : (s.cores c).errands = errand :: rest) :
    s.Explained c (s.errandStep c errand rest choice) := by
  cases errand with
  | runReadyTasks =>
    simp only [errandStep]
    split
    · exact .turn (.tasks herr (.inr (.inl ⟨_, _, _, rfl⟩)))
    · exact .turn (.tasks herr (.inr (.inr ⟨_, _, rfl⟩)))
    · exact .turn (.tasks herr (.inl rfl))
  | pollSend e message waker =>
    refine explained_of (fun s' hs ↦ .pollSend herr hs (.pollSend herr hs)) fun reason hs ↦ ?_
    simp only [errandStep, pollSend] at hs
    split at hs <;> cases hs
  | pollRecv e waker =>
    refine explained_of (fun s' hs ↦ .pollRecv herr hs (.pollRecv herr hs)) fun reason hs ↦ ?_
    simp only [errandStep, pollRecv] at hs
    split at hs
    · cases hs
      exact .queue
    all_goals cases hs
  | wakeReceiver e pid =>
    refine explained_of (fun s' hs ↦ .wakeReceiver herr hs (.wakeReceiver herr hs)) fun reason hs ↦ ?_
    simp only [errandStep, wakeReceiver] at hs
    split at hs
    · cases hs
      exact .queue
    all_goals cases hs
  | wakeSender pid id =>
    have hturn := Turn.wake (s := s) herr Errand.Wakes.sender
    simp only [errandStep]
    split
    · rename_i hlive
      rw [if_pos hlive] at hturn
      exact .turn hturn
    · rename_i hlive
      rw [if_neg hlive] at hturn
      exact .turn hturn
  | handOver pid parcel => exact .turn (.wake herr .receiver)
  | peerClosed pid => exact .turn (.wake herr .orphan)
  | wakeOrphanedReceivers dying => exact .turn (.orphans herr)
  | takeWaitingReceiver e =>
    refine explained_of (fun s' hs ↦ .takeWaitingReceiver herr hs (.takeWaitingReceiver herr hs))
      fun reason hs ↦ ?_
    simp only [errandStep, takeWaitingReceiver] at hs
    split at hs <;> cases hs
  | dropBox P => exact .turn (.dropBox herr)
  | clearStackBusy i => exact .turn (.clearStackBusy herr)

theorem explained_step : s.Explained c (s.step c choice) := by
  unfold step
  split
  · rename_i errand rest herr
    exact explained_errandStep herr
  · rename_i herr
    exact explained_mainStep herr rfl

theorem next_turn {a : Action E} (hs : s.next a = some s') : s.Turn a.core s' := by
  have hstep : s.Explained a.core (s.step a.core a.choice) := explained_step
  rw [step_of_next hs] at hstep
  cases hstep with
  | turn h => exact h

theorem step_fails (hs : s.step c choice = .panic reason) : s.Fails c reason := by
  have hstep : s.Explained c (s.step c choice) := explained_step
  rw [hs] at hstep
  cases hstep with
  | fails h => exact h

theorem Turn.others (h : s.Turn c s') {d : CoreId} (hd : d ≠ c) : s'.cores d = s.cores d := by
  have hset : ∀ {b : State E} (core : Core E), b.cores = s.cores →
      (b.setCore c core).cores d = s.cores d := by
    intro b core hb
    rw [← hb]
    exact update_of_ne hd _ _
  cases h with
  | pollSend _ _ htrade | pollRecv _ _ htrade | wakeReceiver _ _ htrade
  | takeWaitingReceiver _ _ htrade | trySend _ _ _ htrade | tryRecv _ _ _ htrade =>
    exact htrade.others hd
  | record =>
    refine hset _ ?_
    unfold recordResolve
    split <;> rfl
  | dispatch _ _ hyields | abandon _ _ hyields => exact hset _ hyields.cores
  | _ => exact hset _ rfl

end Inversion

end State

end Tarnos.Kernel
