import Tarnos.Kernel.HeapEnds
import Tarnos.Kernel.Targets
import Tarnos.Kernel.Transfer
import Tarnos.Rt.Syscall

namespace Tarnos.Kernel

open Abi Arch Kcore Tarnos.Task Foundation.Transition Function SyscallError

variable {E : Type} {errands : List (Errand E)}

def resultRax : Except SyscallError UInt64 → UInt64
  | .ok value => value
  | .error e => e.toRax

/-- The registers say what the outcome was: the value with its sign bit clear or the error, and a
wrapper of the runtime decodes them so. -/
structure Conveys (f : TrapFrame) (outcome : Except SyscallError UInt64) : Prop where
  value : ∀ v, outcome = .ok v → f.rax = v ∧ 0 ≤ f.rax.toInt64
  error : ∀ e, outcome = .error e → f.rax.toInt64 < 0 ∧ fromRetval f.rax.toInt64 = e
  wrapper : ∀ (α : Type) (value : α), Rt.orError f value = outcome.map fun _ ↦ value

theorem toRax_negative (e : SyscallError) : e.toRax.toInt64 < 0 := by
  cases e <;> decide

theorem fromRetval_toRax (e : SyscallError) : fromRetval e.toRax.toInt64 = e := by
  cases e <;> decide

theorem nonneg_iff_lt (v : UInt64) : 0 ≤ v.toInt64 ↔ v.toNat < 2 ^ 63 := by
  have hsigned : v.toInt64.toInt = v.toBitVec.toInt := rfl
  have hnat : v.toBitVec.toNat = v.toNat := rfl
  have hzero : (0 : Int64).toInt = 0 := rfl
  have hlt := v.toNat_lt
  rw [Int64.le_iff_toInt_le, hsigned, BitVec.toInt_eq_toNat_cond, hnat, hzero]
  split <;> omega

theorem conveys_iff {f : TrapFrame} {outcome : Except SyscallError UInt64}
    (h : f.rax = resultRax outcome) :
    Conveys f outcome ↔ ∀ v, outcome = .ok v → v.toNat < 2 ^ 63 := by
  cases outcome with
  | error e =>
    refine ⟨fun _ v hv ↦ (by cases hv), fun _ ↦ ⟨fun v hv ↦ (by cases hv), fun e' he ↦ ?_, ?_⟩⟩
    · cases he
      rw [h]
      exact ⟨toRax_negative e, fromRetval_toRax e⟩
    · intro α value
      rw [Rt.orError, h]
      exact (if_pos (toRax_negative e)).trans (congrArg Except.error (fromRetval_toRax e))
  | ok v =>
    have hrax : f.rax = v := h
    constructor
    · intro hconveys v' hv
      cases hv
      obtain ⟨-, hnonneg⟩ := hconveys.value v rfl
      rw [hrax] at hnonneg
      exact (nonneg_iff_lt v).mp hnonneg
    · intro hlt
      have hnonneg : 0 ≤ f.rax.toInt64 := by
        rw [hrax]
        exact (nonneg_iff_lt v).mpr (hlt v rfl)
      refine ⟨fun v' hv ↦ ?_, fun e he ↦ (by cases he), fun α value ↦ ?_⟩
      · cases hv
        exact ⟨hrax, hnonneg⟩
      · exact if_neg (Int64.not_lt.mpr hnonneg)

def wakeOutcome : WakeResult → Except SyscallError UInt64
  | .sendCompleted | .recvCompleted _ _ | .waitCompleted _ => .ok 0
  | .peerClosed => .error .peerClosed

theorem applyTo_rax (result : WakeResult) (f : TrapFrame) :
    (result.applyTo f).rax = resultRax (wakeOutcome result) := by
  cases result <;> rfl

def systemCalls : List UInt64 :=
  [sysYield, sysSend, sysRecv, sysExit, sysSpawn, sysGrant, sysProcessStart, sysWait, sysKill,
    sysSbrk, sysBlockRead, sysFileRead]

def dispatchOutcome (f : TrapFrame) : Option (Except SyscallError UInt64) :=
  if f.rax = sysBlockRead ∧ (f.r10 = 0 ∨ maxSectorsPerRequest < f.r10) then
    some (.error .invalidArgument)
  else if f.rax ∈ systemCalls then none
  else some (.error .noSuchSyscall)

def refusal {α : Type} : Except SyscallError α → Option (Except SyscallError UInt64)
  | .error e => some (.error e)
  | .ok _ => none

def callOutcome [DecidableEq E] (process : Process E) (f : TrapFrame) :
    Call → Option (Except SyscallError UInt64)
  | .send => refusal (resolveEndpoint process ⟨f.rdi.toUInt32⟩ .send)
  | .recv => refusal (resolveEndpoint process ⟨f.rdi.toUInt32⟩ .recv)
  | .grant => refusal (resolveGrant process f)
  | .sbrk => refusal (heapEnds process f)
  | .setHeapEnd oldEnd _ => some (.ok oldEnd)
  | .blockRead => refusal (resolveDevice process ⟨f.rdi.toUInt32⟩ .blockDevice)
  | .fileRead => refusal (resolveDevice process ⟨f.rdi.toUInt32⟩ .fsRoot)
  | .spawn | .processStart | .wait | .kill => none

/-- The core is about to go back to ring 3 with this outcome in `rax`. -/
def Main.Reports (m : Main E) (result : Except SyscallError UInt64) : Prop :=
  ∃ f, m = .leave f ∧ f.rax = resultRax result

theorem Main.Reports.error (f : TrapFrame) (e : SyscallError) :
    (.leave (f.withRax e.toRax) : Main E).Reports (.error e) := ⟨_, rfl, rfl⟩

/-- At these points a core picks the process to go on with; none of them ends a call. -/
def Main.switches : Main E → Bool
  | .onTimerTick _ | .onRescheduleIpi _ | .blockCurrent _ | .waitForChild _ _ _ | .switchNext _ _
  | .idle _ => true
  | _ => false

namespace State

/-- The outcome with which a step of core `c` at `main` ends a system call. -/
def mainOutcome [DecidableEq E] (s : State E) (c : CoreId) (choice : Choice E) :
    Main E → Option (Except SyscallError UInt64)
  | .user _ =>
    match choice with
    | .trap .syscall f => dispatchOutcome f
    | _ => none
  | .withCurrent call _ =>
    match s.sched.current c with
    | none => some (.error call.withoutProcess)
    | some _ => none
  | .withProcess call pid f =>
    match s.sched.occupiedMut pid with
    | none => some (.error call.withoutProcess)
    | some process => callOutcome process f call
  | .trySend e message pid _ =>
    match (s.endpoints e).trySend ⟨s.nextId, message⟩ (.process pid) with
    | (.queueFull, _) => some (.error .resourceExhausted)
    | _ => none
  | .sendReturn _ _ => some (.ok 0)
  | .tryRecv e pid _ =>
    match (s.endpoints e).tryRecv (.process pid) with
    | some (.queueFull, _) => some (.error .resourceExhausted)
    | _ => none
  | .recvReturn _ _ _ => some (.ok 0)
  | .allocatePid _ _ =>
    match choice with
    | .refuse => some (.error .noSuchProgram)
    | _ => none
  | .releaseReservation _ _ => some (.error .spawnFailed)
  | .spawnSuspended process _ =>
    match s.sched.spawnSuspended process with
    | .error e => some (.error e)
    | .ok _ => some (.ok process.pid.raw)
  | .grant target _ _ caller _ =>
    match s.sched.occupiedMut target with
    | none => some (.error .invalidTarget)
    | some child =>
      if child.parent ≠ some caller ∨ child.state ≠ .suspended then some (.error .invalidTarget)
      else some (.ok 0)
  | .startChild target caller _ =>
    match s.sched.startChild target caller with
    | .error e => some (.error e)
    | .ok _ => some (.ok 0)
  | .waitForChild target caller _ =>
    match s.sched.waitOutcome target caller with
    | .invalid => some (.error .invalidTarget)
    | .alreadyDone _ => some (.ok 0)
    | .mustBlock => none
  | .killCheck target caller _ =>
    if s.sched.mayTerminate target caller then none else some (.error .invalidTarget)
  | .killScan target _ =>
    match s.sched.owningCore target with
    | some _ => none
    | none => some (.ok 0)
  | .growHeap _ _ _ =>
    match choice with
    | .refuse => some (.error .resourceExhausted)
    | _ => none
  | .transfer _ =>
    match choice with
    | .transfer result => some result
    | _ => none
  | _ => none

def outcome [DecidableEq E] (s : State E) (a : Action E) : Option (Except SyscallError UInt64) :=
  match (s.cores a.core).errands with
  | [] => s.mainOutcome a.core a.choice (s.cores a.core).main
  | _ :: _ => none

variable {result : Except SyscallError UInt64}

/-- What a step from `m` to `m'` has to do with an outcome: it reports it, or it goes back to ring 3
only to switch processes. -/
def Settles (m m' : Main E) : Option (Except SyscallError UInt64) → Prop
  | some result => m'.Reports result
  | none => m.switches = true ∨ m'.returns = none

theorem settles_refusal {α : Type} (m : Main E) (check : Except SyscallError α) (f : TrapFrame)
    {k : α → Main E} (hk : ∀ a, (k a).returns = none) :
    Settles m (orLeave f check k) (refusal check) := by
  cases check with
  | error e => exact .error f e
  | ok a => exact .inr (hk a)

theorem settles_syscallDispatch (m : Main E) (f : TrapFrame) :
    Settles m (syscallDispatch f) (dispatchOutcome f) := by
  unfold dispatchOutcome
  split_ifs with hblock hknown
  · obtain ⟨hrax, hcount⟩ := hblock
    have hleave : (syscallDispatch f : Main E) =
        .leave (f.withRax invalidArgument.toRax) := by
      unfold syscallDispatch
      rw [hrax]
      exact if_pos hcount
    rw [hleave]
    exact .error f _
  · refine .inr ?_
    simp only [systemCalls, List.mem_cons, List.not_mem_nil, or_false] at hknown
    unfold syscallDispatch
    rcases hknown with h | h | h | h | h | h | h | h | h | h | h | h
    all_goals rw [h]
    case inr.inr.inr.inr.inr.inr.inr.inr.inr.inr.inl =>
      have hcount : ¬ (f.r10 = 0 ∨ maxSectorsPerRequest < f.r10) := fun hcount ↦ hblock ⟨h, hcount⟩
      have hcall : (if f.r10 = 0 ∨ maxSectorsPerRequest < f.r10 then
          (.leave (f.withRax invalidArgument.toRax) : Main E)
        else .withCurrent .blockRead f) = .withCurrent .blockRead f := if_neg hcount
      exact congrArg Main.returns hcall
    all_goals rfl
  · simp only [systemCalls, List.mem_cons, List.not_mem_nil, or_false, not_or] at hknown
    obtain ⟨h0, h1, h2, h3, h4, h5, h6, h7, h8, h9, h10, h11⟩ := hknown
    unfold syscallDispatch
    rw [if_neg h0, if_neg h1, if_neg h2, if_neg h3, if_neg h4, if_neg h5, if_neg h6, if_neg h7,
      if_neg h8, if_neg h9, if_neg h10, if_neg h11]
    exact .error f _

variable {s s' : State E} {c : CoreId} {choice : Choice E} {a : Action E} {m : Main E}

theorem reports_of_leave {t : State E} {g : TrapFrame}
    (hs : Outcome.next (t.goto c (.leave g) errands) = .next s') (hrax : g.rax = resultRax result) :
    (s'.cores c).main.Reports result := by
  cases hs
  exact ⟨g, goto_main, hrax⟩

theorem returns_of_goto {t : State E} {m' : Main E}
    (hs : Outcome.next (t.goto c m' errands) = .next s') (hm' : m'.returns = none) :
    m.switches = true ∨ (s'.cores c).main.returns = none := by
  cases hs
  rw [goto_main]
  exact .inr hm'

theorem refusal_ok {α : Type} {check : Except SyscallError α} {v : UInt64} :
    refusal check ≠ some (.ok v) := by
  cases check with
  | error e | ok a => exact fun h ↦ by cases h

variable [DecidableEq E]

theorem settles_callOn (m : Main E) (P : Process E) (f : TrapFrame) (call : Call) :
    Settles m (callOn P f call) (callOutcome P f call) := by
  cases call with
  | send | recv | grant | sbrk | blockRead | fileRead =>
    exact settles_refusal m _ f fun _ ↦ rfl
  | setHeapEnd oldEnd newEnd => exact ⟨_, rfl, rfl⟩
  | spawn | processStart | wait | kill => exact .inr rfl

theorem settles_mainStep (hs : s.mainStep c m choice = .next s') :
    Settles m (s'.cores c).main (s.mainOutcome c choice m) := by
  cases m with
  | onTimerTick f | onRescheduleIpi f | blockCurrent f | switchNext outgoing drops | idle halts =>
    exact .inl rfl
  | halted => cases hs
  | boot processes =>
    cases processes with
    | nil =>
      cases hs
      rw [setCore_self]
      exact .inr rfl
    | cons boot rest => exact returns_of_goto hs rfl
  | bootSpawn pid boot rest =>
    simp only [mainStep, bootSpawn] at hs
    split at hs
    · split at hs
      · cases hs
      split at hs
      · cases hs
      · split at hs
        · cases hs
        · exact returns_of_goto hs rfl
    · cases hs
  | user g =>
    simp only [mainStep, trap] at hs
    split at hs
    · rename_i kind f
      split at hs
      · cases hs
        rw [setCore_self]
        cases kind with
        | timer | ipi | fault => exact .inr rfl
        | syscall => exact settles_syscallDispatch _ f
      · cases hs
    · cases hs
  | withCurrent call f =>
    simp only [mainStep, withCurrent] at hs
    simp only [mainOutcome]
    split <;> rename_i hc <;> rw [hc] at hs
    · exact reports_of_leave hs rfl
    · exact returns_of_goto hs rfl
  | withProcess call pid f =>
    simp only [mainStep, withProcess] at hs
    simp only [mainOutcome]
    split <;> rename_i hP <;> rw [hP] at hs
    · exact reports_of_leave hs rfl
    · cases hs
      rw [goto_main]
      exact settles_callOn _ _ f call
  | trySend e message pid f =>
    simp only [mainStep, trySend] at hs
    simp only [mainOutcome]
    split at hs <;> rename_i hslot <;> rw [hslot]
    · exact returns_of_goto hs rfl
    · exact returns_of_goto hs rfl
    · exact reports_of_leave hs rfl
  | sendReturn id f | recvReturn parcel pid f | releaseReservation child f =>
    exact reports_of_leave hs rfl
  | tryRecv e pid f =>
    simp only [mainStep, tryRecv] at hs
    simp only [mainOutcome]
    split at hs <;> rename_i hslot
    · cases hs
    · rw [hslot]
      exact returns_of_goto hs rfl
    · rw [hslot]
      exact returns_of_goto hs rfl
    · rw [hslot]
      exact reports_of_leave hs rfl
  | allocatePid caller f | growHeap oldEnd newEnd f =>
    cases choice with
    | refuse => exact reports_of_leave hs rfl
    | _ => exact returns_of_goto hs rfl
  | fromElf caller child f =>
    simp only [mainStep, fromElf] at hs
    split at hs
    · split at hs
      · cases hs
      split at hs
      · cases hs
      · split at hs
        · cases hs
        · exact returns_of_goto hs rfl
    · exact returns_of_goto hs rfl
  | spawnSuspended P f =>
    simp only [mainStep, spawnSuspended] at hs
    simp only [mainOutcome]
    split <;> rename_i hspawn <;> rw [hspawn] at hs <;> exact reports_of_leave hs rfl
  | grant target dest slot caller f =>
    simp only [mainStep, grant] at hs
    simp only [mainOutcome]
    split <;> rename_i hP <;> simp only [hP] at hs
    · exact reports_of_leave hs rfl
    · split <;> rename_i hchild <;> simp only [hchild, if_true, if_false] at hs <;>
        exact reports_of_leave hs rfl
  | startChild target caller f =>
    simp only [mainStep, startChild] at hs
    simp only [mainOutcome]
    split <;> rename_i hstart <;> rw [hstart] at hs <;> exact reports_of_leave hs rfl
  | waitForChild target caller f =>
    simp only [mainStep, waitForChild] at hs
    simp only [mainOutcome]
    split <;> rename_i hwait <;> rw [hwait] at hs
    · exact reports_of_leave hs rfl
    · exact reports_of_leave hs rfl
    · exact .inl rfl
  | killCheck target caller f =>
    simp only [mainStep] at hs
    simp only [mainOutcome]
    split <;> rename_i hmay <;> simp only [hmay, if_true, Bool.false_eq_true, if_false] at hs
    · exact returns_of_goto hs rfl
    · exact reports_of_leave hs rfl
  | killScan target f =>
    simp only [mainStep, killScan] at hs
    simp only [mainOutcome]
    split <;> rename_i howner <;> rw [howner] at hs
    · exact returns_of_goto hs rfl
    · dsimp only at hs
      split at hs
      · cases hs
      · exact reports_of_leave hs rfl
  | killEvict core target f | finalize pid status => exact returns_of_goto hs rfl
  | killSpin core target f =>
    simp only [mainStep, killSpin] at hs
    split at hs
    · exact returns_of_goto hs rfl
    · split at hs
      · exact returns_of_goto hs rfl
      · cases hs
  | transfer f =>
    cases choice with
    | transfer transferred => cases transferred <;> exact reports_of_leave hs rfl
    | _ => cases hs
  | exitCurrent status =>
    simp only [mainStep, exitCurrent] at hs
    split at hs <;> exact returns_of_goto hs rfl
  | markStackBusy pid status =>
    simp only [mainStep, markStackBusy] at hs
    split at hs
    · cases hs
    · exact returns_of_goto hs rfl
  | leave f =>
    cases hs
    rw [setCore_self]
    exact .inr rfl

def DeviceAnswers (s : State E) (a : Action E) : Prop :=
  ∀ f transferred, (s.cores a.core).main = .transfer f → a.choice = .transfer transferred →
    Transferred f transferred

/-- A pid that `SYS_SPAWN` is about to return leaves the sign bit clear. -/
def Representable (s : State E) (c : CoreId) : Prop :=
  ∀ P f, (s.cores c).main = .spawnSuspended P f → (s.sched.spawnSuspended P).isOk = true →
    P.pid.generation.toNat < 2 ^ 31

theorem raw_lt_iff (p : Pid) : p.raw.toNat < 2 ^ 63 ↔ p.generation.toNat < 2 ^ 31 := by
  rw [Pid.generation_toNat]
  omega

theorem inHeap_lt {address : UInt64} (h : InHeap address) : address.toNat < 2 ^ 63 :=
  lt_of_le_of_lt h.2 (by decide)

theorem callOutcome_ok {P : Process E} {f : TrapFrame} {call : Call} {v : UInt64}
    (h : callOutcome P f call = some (.ok v)) : ∃ newEnd, call = .setHeapEnd v newEnd := by
  cases call with
  | send | recv | grant | sbrk | blockRead | fileRead => exact absurd h refusal_ok
  | setHeapEnd oldEnd newEnd =>
    cases h
    exact ⟨newEnd, rfl⟩
  | spawn | processStart | wait | kill => cases h

/-- What a call can return: nothing, the old break, the count of a transfer, or a new pid. -/
inductive Value (s : State E) (choice : Choice E) (m : Main E) (v : UInt64) : Prop
  | zero (hv : v = 0)
  | break {newEnd : UInt64} (hm : m.heapEnds = some (v, newEnd))
  | count {f : TrapFrame} (hm : m = .transfer f) (hchoice : choice = .transfer (.ok v))
  | pid {P : Process E} {f : TrapFrame} (hm : m = .spawnSuspended P f)
      (hok : (s.sched.spawnSuspended P).isOk = true) (hv : v = P.pid.raw)

theorem mainOutcome_ok {v : UInt64} (h : s.mainOutcome c choice m = some (.ok v)) :
    s.Value choice m v := by
  cases m with
  | user g =>
    simp only [mainOutcome] at h
    split at h
    · unfold dispatchOutcome at h
      split_ifs at h <;> cases h
    · cases h
  | withCurrent call f | trySend e message pid f | tryRecv e pid f | allocatePid caller f
  | killCheck target caller f | growHeap oldEnd newEnd f =>
    simp only [mainOutcome] at h
    split at h <;> cases h
  | withProcess call pid f =>
    simp only [mainOutcome] at h
    split at h
    · cases h
    · obtain ⟨newEnd, rfl⟩ := callOutcome_ok h
      exact .break rfl
  | sendReturn id f | recvReturn parcel pid f =>
    cases h
    exact .zero rfl
  | spawnSuspended P f =>
    simp only [mainOutcome] at h
    split at h
    · cases h
    · rename_i sched hspawn
      cases h
      exact .pid rfl (by rw [hspawn]; rfl) rfl
  | grant target dest slot caller f =>
    simp only [mainOutcome] at h
    split at h
    · cases h
    · split at h <;> cases h
      exact .zero rfl
  | startChild target caller f | waitForChild target caller f | killScan target f =>
    simp only [mainOutcome] at h
    split at h <;> cases h
    exact .zero rfl
  | transfer f =>
    simp only [mainOutcome] at h
    split at h
    · cases h
      exact .count rfl rfl
    · cases h
  | _ => cases h

theorem outcome_cases (h : s.outcome a = some result) : (s.cores a.core).errands = [] ∧
    s.mainOutcome a.core a.choice (s.cores a.core).main = some result := by
  unfold outcome at h
  split at h
  · exact ⟨‹_›, h⟩
  · cases h

theorem step_settles (hs : s.next a = some s') (herr : (s.cores a.core).errands = []) :
    Settles (s.cores a.core).main (s'.cores a.core).main (s.outcome a) := by
  have hstep := step_of_next hs
  unfold step at hstep
  rw [herr] at hstep
  unfold outcome
  rw [herr]
  exact settles_mainStep hstep

theorem BreaksInHeap.value_lt_iff (hb : s.BreaksInHeap) (hdev : s.DeviceAnswers a)
    (h : s.outcome a = some result) :
    (∀ v, result = .ok v → v.toNat < 2 ^ 63) ↔ s.Representable a.core := by
  obtain ⟨-, h⟩ := outcome_cases h
  constructor
  · intro hlt P f hmain hok
    rw [hmain] at h
    simp only [mainOutcome] at h
    split at h
    · rename_i e hspawn
      rw [hspawn] at hok
      cases hok
    · cases h
      exact (raw_lt_iff P.pid).mp (hlt _ rfl)
  · intro hrep v hv
    subst hv
    cases mainOutcome_ok h with
    | zero hv =>
      rw [hv]
      decide
    | «break» hm => exact inHeap_lt (hb.ends a.core _ hm).1
    | count hm hchoice => exact ((hdev _ _ hm hchoice).lt rfl).trans (by decide)
    | pid hm hok hv =>
      rw [hv]
      exact (raw_lt_iff _).mpr (hrep _ _ hm hok)

/-- What a process finds in its registers when its call is over. -/
structure Convention (s : State E) : Prop where
  returned : ∀ a s' result, s.DeviceAnswers a → s.next a = some s' → s.outcome a = some result →
    ((∃ f, (s'.cores a.core).main = .leave f ∧ Conveys f result) ↔ s.Representable a.core)
  resumed : ∀ a s' f, s.next a = some s' → (s.cores a.core).errands = [] →
    (s'.cores a.core).main = .leave f → s.outcome a = none → (s.cores a.core).main.switches = true

/-- In every run, each step that ends a system call puts a result into `rax` that the runtime decodes
as the outcome, exactly when it does not return a pid of generation 2^31 or more; the wakers of
blocked calls and `SYS_YIELD` always do. -/
theorem convention_of_reach (config : BootConfig E) (s : State E)
    (h : Reach next (fun _ _ ↦ True) (init config) s) :
    s.Convention ∧
      (∀ f woken, Conveys (WakeResult.applyTo woken f) (wakeOutcome woken)) ∧
      ∀ f, f.rax = sysYield →
        (syscallDispatch f : Main E) = .onTimerTick f ∧ Conveys f (.ok 0) := by
  have hb := breaksInHeap_of_reach h
  refine ⟨⟨fun a s' result hdev hs hout ↦ ?_, fun a s' f hs herr hleave hout ↦ ?_⟩,
    fun f woken ↦ ?_, fun f hf ↦ ⟨if_pos hf, ?_⟩⟩
  · have hsettles := step_settles hs (outcome_cases hout).1
    rw [hout] at hsettles
    obtain ⟨f, hmain, hrax⟩ := hsettles
    rw [← hb.value_lt_iff hdev hout, ← conveys_iff hrax]
    constructor
    · rintro ⟨g, hg, hconveys⟩
      cases hmain.symm.trans hg
      exact hconveys
    · exact fun hconveys ↦ ⟨f, hmain, hconveys⟩
  · have hsettles := step_settles hs herr
    rw [hout, hleave] at hsettles
    exact hsettles.resolve_right (by simp [Main.returns])
  · rw [conveys_iff (applyTo_rax woken f)]
    intro v hv
    cases woken <;> cases hv
    all_goals decide
  · rw [conveys_iff hf]
    intro v hv
    cases hv
    decide

def spawnSeen (s : State Unit) : Option (Except SyscallError UInt64 × Except SyscallError UInt64) :=
  (s.outcome (go 0)).bind fun result ↦ (s.next (go 0)).bind fun s' ↦
    match (s'.cores 0).main with
    | .leave f => some (result, Rt.orError f f.rax)
    | _ => none

theorem spawnSeen_eq {s : State Unit} {seen : Except SyscallError UInt64}
    (h : s.spawnSeen = some (result, seen)) :
    s.outcome (go 0) = some result ∧ ∃ s' f, s.next (go 0) = some s' ∧
      (s'.cores 0).main = .leave f ∧ Rt.orError f f.rax = seen := by
  obtain ⟨_, hresult, h⟩ := Option.bind_eq_some_iff.mp h
  obtain ⟨s', hs', h⟩ := Option.bind_eq_some_iff.mp h
  split at h
  · rename_i f hf
    cases h
    exact ⟨hresult, s', f, hs', hf, rfl⟩
  · cases h

theorem convention_of_reach_spawn :
    ∃ s s' f, Reach next (fun _ _ ↦ True) (init soloEndpoint) s ∧
      s.next (go 0) = some s' ∧ (s'.cores 0).main = .leave f ∧ Conveys f (.ok twin.raw) := by
  have hrun : (run next (init soloEndpoint) (bootSolo ++ (spawnOn 0 1).take 5)).map
      (fun s ↦ decide (s.spawnSeen = some (.ok twin.raw, .ok twin.raw) ∧
        (s.cores 0).main.child.map (·.pid) = some twin)) = some true := by
    decide +kernel
  obtain ⟨s, hs, hholds⟩ := Option.map_eq_some_iff.mp hrun
  obtain ⟨hseen, hchild⟩ := of_decide_eq_true hholds
  obtain ⟨hout, s', f, hs', hf, -⟩ := spawnSeen_eq hseen
  have hrep : s.Representable 0 := by
    intro P g hP _
    rw [hP] at hchild
    have hpid : P.pid = twin := Option.some.inj hchild
    rw [hpid]
    decide
  have hdev : s.DeviceAnswers (go 0) := by
    intro g _ htransfer _
    rw [show (s.cores 0).main = .transfer g from htransfer] at hchild
    cases hchild
  obtain ⟨g, hg, hconveys⟩ :=
    ((convention_of_reach soloEndpoint s (run_reach hs)).1.returned _ s' _ hdev hs' hout).mpr hrep
  exact ⟨s, s', g, run_reach hs, hs', hg, hconveys⟩

/-- Once 2^31 - 1 spawns have gone to a slot, the next one succeeds and its caller is told that it
failed. -/
theorem spawn_reports_error :
    ∃ s s' f, Reach next (fun _ _ ↦ True) (init soloEndpoint) s ∧
      s.outcome (go 0) = some (.ok (Pid.new 1 0x8000_0000).raw) ∧ s.next (go 0) = some s' ∧
      (s'.cores 0).main = .leave f ∧ Rt.orError f f.rax = .error .noSuchSyscall := by
  have hrun : (run next (init soloEndpoint) (bootSolo ++ serve 0 sysSpawn 0 3 ++ [⟨0, .refuse⟩] ++
      advance 0 2)).map (fun t ↦
        t.spawns 1 && decide (((run next (t.regen 1 0x7FFF_FFFF) ((spawnOn 0 1).take 5)).bind
          spawnSeen) = some (.ok (Pid.new 1 0x8000_0000).raw, .error .noSuchSyscall))) =
        some true := by
    decide +kernel
  obtain ⟨t, ht, hholds⟩ := Option.map_eq_some_iff.mp hrun
  obtain ⟨hspawns, hseen⟩ := Bool.and_eq_true_iff.mp hholds
  obtain ⟨s, hs, hseen⟩ := Option.bind_eq_some_iff.mp (of_decide_eq_true hseen)
  obtain ⟨hout, s', f, hs', hf, hdecoded⟩ := spawnSeen_eq hseen
  have hreach := (run_reach ht).trans
    (((Spawner.of_spawns hspawns).wrap 0x7FFF_FFFF).trans (run_reach hs))
  exact ⟨s, s', f, hreach, hout, hs', hf, hdecoded⟩

end State

end Tarnos.Kernel
