import Tarnos.Kernel.Course
import Tarnos.Kernel.Stacks

namespace Tarnos.Kernel

open Abi Arch Kcore Tarnos.Task Function Inner

variable {E : Type} {P : Process E} {q : Pid}

/-- Where a process that cannot go on registers: as a sender or the receiver of an endpoint, or
with a child. -/
inductive Place (E : Type)
  | sender (e : E)
  | receiver (e : E)
  | child (q : Pid)
  deriving DecidableEq

/-- The last trap of a process, the place it has registered in since, and the result of the event
that ended that registration. -/
structure Ticket (E : Type) where
  trap : TrapFrame
  place : Option (Place E)
  outcome : Option WakeResult

def Ticket.frame (k : Ticket E) : TrapFrame :=
  match k.outcome with
  | none => k.trap
  | some result => result.applyTo k.trap

def Ticket.fresh (f : TrapFrame) : Ticket E := ⟨f, none, none⟩

abbrev Journal (E : Type) := Pid → Ticket E

namespace State

def begun (s : State E) (a : Action E) (p : Pid) : Option TrapFrame :=
  match (s.cores a.core).errands, (s.cores a.core).main, a.choice with
  | [], .user _, .trap _ f => if s.sched.current a.core = some p then some f else none
  | [], .fromElf _ child _, .image entry _ =>
    if child = p then some (TrapFrame.initialUserFrame entry userStackTop) else none
  | [], .bootSpawn pid _ _, .image entry _ =>
    if pid = p then some (TrapFrame.initialUserFrame entry userStackTop) else none
  | _, _, _ => none

def registered (s : State E) (c : CoreId) (p : Pid) : Option (Place E) :=
  match (s.cores c).errands, (s.cores c).main with
  | [], .trySend e message pid _ =>
    match (s.endpoints e).trySend ⟨s.nextId, message⟩ (.process pid) with
    | (.enqueued, _) => if pid = p then some (.sender e) else none
    | _ => none
  | [], .tryRecv e pid _ =>
    match (s.endpoints e).tryRecv (.process pid) with
    | some (.enqueued, _) => if pid = p then some (.receiver e) else none
    | _ => none
  | [], .waitForChild target pid _ =>
    if pid = p ∧ s.sched.waitOutcome target pid = .mustBlock then some (.child target) else none
  | _, _ => none

def relieved (e : E) (outcome : Option (Endpoint.RecvOutcome Parcel Pid × EndpointSlot)) (p : Pid) :
    Option (Place E × WakeResult) :=
  match outcome with
  | some (.delivered _ (.process q), _) => if q = p then some (.sender e, .sendCompleted) else none
  | _ => none

def bereaved (s : State E) (q : Pid) (status : ExitStatus) (p : Pid) :
    Option (Place E × WakeResult) :=
  match s.sched.occupiedMut q with
  | some Q => if Q.waitWaiter = some p then some (.child q, .waitCompleted status) else none
  | none => none

/-- The registration of `p` that ends when core `c` takes its next step, with its result. -/
def settled (s : State E) (c : CoreId) (p : Pid) : Option (Place E × WakeResult) :=
  match (s.cores c).errands with
  | .pollRecv e waker :: _ => relieved e ((s.endpoints e).tryRecv (.task waker)) p
  | .wakeReceiver e pid :: _ =>
    match (s.endpoints e).tryRecv (.process pid) with
    | some (.delivered parcel sender, slot) =>
      if pid = p then some (.receiver e, recvCompleted parcel.message)
      else relieved e (some (.delivered parcel sender, slot)) p
    | _ => none
  | .takeWaitingReceiver e :: _ =>
    match s.endpoints e with
    | .receiverWaiting (.process pid) => if pid = p then some (.receiver e, .peerClosed) else none
    | _ => none
  | _ :: _ => none
  | [] =>
    match (s.cores c).main with
    | .tryRecv e pid _ => relieved e ((s.endpoints e).tryRecv (.process pid)) p
    | .killScan target _ =>
      if s.sched.owningCore target = none then s.bereaved target .killed p else none
    | .finalize pid status => s.bereaved pid status p
    | _ => none

def journal (s : State E) (a : Action E) (_ : State E) (g : Journal E) : Journal E := fun p ↦
  match s.begun a p, s.registered a.core p, s.settled a.core p with
  | some f, _, _ => .fresh f
  | none, some place, _ => { g p with place := some place }
  | none, none, some (_, result) => { g p with outcome := some result }
  | none, none, none => g p

section Events

variable {s s' : State E} {a : Action E} {c : CoreId} {p : Pid} {f : TrapFrame} {place : Place E}
  {result : WakeResult} {g : Journal E}

theorem journal_begun (h : s.begun a p = some f) : s.journal a s' g p = .fresh f := by
  simp only [journal, h]

theorem journal_registered (hb : s.begun a p = none) (h : s.registered a.core p = some place) :
    s.journal a s' g p = { g p with place := some place } := by
  simp only [journal, hb, h]

theorem journal_settled (hb : s.begun a p = none) (hr : s.registered a.core p = none)
    (h : s.settled a.core p = some (place, result)) :
    s.journal a s' g p = { g p with outcome := some result } := by
  simp only [journal, hb, hr, h]

theorem journal_same (hb : s.begun a p = none) (hr : s.registered a.core p = none)
    (h : s.settled a.core p = none) : s.journal a s' g p = g p := by
  simp only [journal, hb, hr, h]

theorem begun_cases (h : s.begun a p = some f) : (s.cores a.core).errands = [] ∧
    ((s.sched.current a.core = some p ∧ ∃ g kind, (s.cores a.core).main = .user g ∧
        a.choice = .trap kind f) ∨ (s.cores a.core).main.reserves = Main.unplaced p) := by
  unfold begun at h
  split at h
  · rename_i g kind f' herr hmain hchoice
    split at h
    · rename_i hc
      cases h
      exact ⟨herr, .inl ⟨hc, g, kind, hmain, hchoice⟩⟩
    · cases h
  · rename_i herr hmain _
    split at h
    · rename_i hpid
      rw [hmain, ← hpid]
      exact ⟨herr, .inr rfl⟩
    · cases h
  · rename_i herr hmain _
    split at h
    · rename_i hpid
      rw [hmain, ← hpid]
      exact ⟨herr, .inr rfl⟩
    · cases h
  · cases h

theorem registered_cases (h : s.registered c p = some place) : (s.cores c).errands = [] ∧
    (s.cores c).main.caller = some p ∧ (s.cores c).main.parks = false ∧
    ((∃ e, place = .sender e ∧ s.Enters c p (.sends e)) ∨
      (∃ e, place = .receiver e ∧ s.Enters c p (.receives e)) ∨
      ∃ q f, place = .child q ∧ s.Awaits c p q f) := by
  unfold registered at h
  split at h
  · rename_i e message pid f herr hmain
    split at h
    · rename_i slot hsend
      split at h
      · rename_i hpid
        subst hpid
        cases h
        rw [hmain]
        exact ⟨herr, rfl, rfl, .inl ⟨e, rfl, .sends herr hmain hsend⟩⟩
      · cases h
    · cases h
  · rename_i e pid f herr hmain
    split at h
    · rename_i slot hrecv
      split at h
      · rename_i hpid
        subst hpid
        cases h
        rw [hmain]
        exact ⟨herr, rfl, rfl, .inr (.inl ⟨e, rfl, .receives herr hmain hrecv⟩)⟩
      · cases h
    · cases h
  · rename_i target pid f herr hmain
    split at h
    · rename_i hpid
      obtain ⟨rfl, hwait⟩ := hpid
      cases h
      rw [hmain]
      exact ⟨herr, rfl, rfl, .inr (.inr ⟨target, f, rfl, herr, hmain, hwait⟩)⟩
    · cases h
  · cases h

theorem registered_of_enters {x : Claim E} (h : s.Enters c p x) :
    (∃ e, x = .sends e ∧ s.registered c p = some (.sender e)) ∨
      ∃ e, x = .receives e ∧ s.registered c p = some (.receiver e) := by
  cases h with
  | @sends e message f slot herr hmain hsend =>
    exact .inl ⟨e, rfl, by simp [registered, herr, hmain, hsend]⟩
  | @receives e f slot herr hmain hrecv =>
    exact .inr ⟨e, rfl, by simp [registered, herr, hmain, hrecv]⟩

theorem registered_of_awaits (h : s.Awaits c p q f) : s.registered c p = some (.child q) := by
  simp [registered, h.herr, h.hmain, h.hwait]

structure Bereaves (s : State E) (c : CoreId) (p q : Pid) (status : ExitStatus) : Prop where
  hends : s.terminates c = some (q, status)
  hwaits : s.sched.table.Waits p q

inductive Ends (s : State E) (c : CoreId) (p : Pid) : Place E → WakeResult → Prop
  | sends {e : E} {result : WakeResult} (h : s.Consumes c p (.sends e) result) :
      Ends s c p (.sender e) result
  | receives {e : E} {result : WakeResult} (h : s.Consumes c p (.receives e) result) :
      Ends s c p (.receiver e) result
  | waits {q : Pid} {status : ExitStatus} (h : s.Bereaves c p q status) :
      Ends s c p (.child q) (.waitCompleted status)

theorem relieved_cases {e : E} {w : EndpointWaiter} (htakes : s.Takes c e w)
    (h : relieved e ((s.endpoints e).tryRecv w) p = some (place, result)) :
    s.Ends c p place result := by
  unfold relieved at h
  split at h
  · rename_i parcel q slot hrecv
    split at h
    · rename_i hq
      subst hq
      cases h
      exact .sends (.sender htakes hrecv)
    · cases h
  · cases h

theorem bereaved_cases {status : ExitStatus} (hends : s.terminates c = some (q, status))
    (h : s.bereaved q status p = some (place, result)) : s.Ends c p place result := by
  unfold bereaved at h
  split at h
  · rename_i Q hQ
    split at h
    · rename_i hwaiter
      cases h
      exact .waits ⟨hends, Q, occupiedMut_eq_some.mp hQ, hwaiter⟩
    · cases h
  · cases h

theorem settled_of_wakes {x : Errand E} {rest : List (Errand E)} {notes : List (Event E)}
    (herr : (s.cores c).errands = x :: rest) (hwakes : x.Wakes s q result notes) :
    s.settled c p = none := by
  cases hwakes <;> simp [settled, herr]

theorem settled_cases (h : s.settled c p = some (place, result)) : s.Ends c p place result := by
  unfold settled at h
  split at h
  · rename_i herr
    exact relieved_cases (.task herr) h
  · rename_i e pid rest herr
    split at h
    · rename_i parcel sender slot hrecv
      split at h
      · rename_i hpid
        subst hpid
        cases h
        exact .receives (.receiver herr hrecv)
      · rw [← hrecv] at h
        exact relieved_cases (.displaced herr) h
    · cases h
  · rename_i e rest herr
    split at h
    · rename_i pid hslot
      split at h
      · rename_i hpid
        subst hpid
        cases h
        exact .receives (.orphan herr hslot)
      · cases h
    · cases h
  · cases h
  · rename_i herr
    split at h
    · rename_i hmain
      exact relieved_cases (.call herr hmain) h
    · rename_i target f hmain
      split at h
      · rename_i howner
        exact bereaved_cases (terminates_kill herr hmain howner) h
      · cases h
    · rename_i hmain
      exact bereaved_cases (terminates_exit herr hmain) h
    · cases h

theorem settled_of_bereaves {status : ExitStatus} (h : s.Bereaves c p q status) :
    s.settled c p = some (.child q, .waitCompleted status) := by
  obtain ⟨Q, hQ, hwaiter⟩ := h.hwaits
  have hQ' := occupiedMut_eq_some.mpr hQ
  obtain ⟨herr, hmain | ⟨f, hmain, howner, rfl⟩⟩ := terminates_cases h.hends
  · simp [settled, herr, hmain, bereaved, hQ', hwaiter]
  · simp [settled, herr, hmain, bereaved, howner, hQ', hwaiter]

variable [DecidableEq E]

theorem bootSpawn_of_next {boot : BootProcess E} {rest : List (BootProcess E)}
    (herr : (s.cores a.core).errands = []) (hmain : (s.cores a.core).main = .bootSpawn p boot rest)
    (hs : s.next a = some s') : ∃ entry frame sched, a.choice = .image entry frame ∧
      s.sched.spawn (boot.process p frame entry) = .ok sched ∧ s'.sched = sched := by
  have hstep := mainStep_of_next hs herr hmain
  simp only [mainStep, bootSpawn] at hstep
  split at hstep
  · rename_i entry frame hchoice
    split at hstep
    · cases hstep
    split at hstep
    · cases hstep
    · split at hstep
      · cases hstep
      · rename_i sched hspawn
        cases hstep
        exact ⟨entry, frame, sched, hchoice, hspawn, rfl⟩
  · cases hstep

theorem child_of_load {caller child : Pid} (hs : s.next a = some s')
    (herr : (s.cores a.core).errands = []) (hmain : (s.cores a.core).main = .fromElf caller child f)
    (hP : (s'.cores a.core).main.child = some P) :
    P.pid.slot.isSome ∧ ∃ entry frame, a.choice = .image entry frame ∧
      P = { Process.new child frame entry (some caller) with state := .suspended } := by
  have hstep := mainStep_of_next hs herr hmain
  simp only [mainStep, fromElf] at hstep
  split at hstep
  · rename_i entry frame hchoice
    split at hstep
    · cases hstep
    split at hstep
    · cases hstep
    · split at hstep
      · cases hstep
      · rename_i i hslot
        cases hstep
        rw [goto_main] at hP
        cases hP
        exact ⟨Option.isSome_of_eq_some hslot, entry, frame, hchoice, rfl⟩
  · cases hstep
    rw [goto_main] at hP
    cases hP

end Events

end State

def Main.saves : Main E → Option TrapFrame
  | .onTimerTick f | .onRescheduleIpi f | .withCurrent _ f | .withProcess _ _ f | .trySend _ _ _ f
  | .sendReturn _ f | .tryRecv _ _ f | .recvReturn _ _ f | .blockCurrent f | .allocatePid _ f
  | .fromElf _ _ f | .releaseReservation _ f | .spawnSuspended _ f | .grant _ _ _ _ f
  | .startChild _ _ f | .waitForChild _ _ f | .killCheck _ _ f | .killScan _ f | .killEvict _ _ f
  | .killSpin _ _ f | .growHeap _ _ f | .transfer f => some f
  | _ => none

theorem saves_trapMain {kind : Trap} {f f' : TrapFrame}
    (h : (State.trapMain kind f : Main E).saves = some f') : f' = f := by
  cases kind with
  | timer | ipi => exact (Option.some.inj h).symm
  | fault => cases h
  | syscall =>
    revert h
    refine syscallDispatch_induction (E := E) (motive := fun m ↦ m.saves = some f' → f' = f) f
      (fun h ↦ (Option.some.inj h).symm) (fun _ h ↦ (Option.some.inj h).symm) (fun _ h ↦ ?_)
      fun _ h ↦ ?_
    · cases h
    · cases h

theorem saves_callOn [DecidableEq E] {f f' : TrapFrame} {call : Call}
    (h : (callOn P f call).saves = some f') : f' = f := by
  have hor : ∀ {α : Type} {result : Except SyscallError α} {k : α → Main E},
      (∀ x, (k x).saves = some f) → (orLeave f result k).saves = some f' → f' = f := by
    intro α result k hk h
    cases result with
    | error e => cases h
    | ok x =>
      simp only [orLeave, hk] at h
      exact (Option.some.inj h).symm
  cases call with
  | send | recv | grant | sbrk | blockRead | fileRead => exact hor (fun _ ↦ rfl) h
  | spawn | processStart | wait | kill => exact (Option.some.inj h).symm
  | setHeapEnd oldEnd newEnd => cases h

namespace State

section Saves

variable {s s' : State E} {c : CoreId} {f : TrapFrame} {p : Pid} {x : Claim E} {m : Main E}

theorem Enters.main (h : s.Enters c p x) : (∃ e message f, (s.cores c).main = .trySend e message p f) ∨
    ∃ e f, (s.cores c).main = .tryRecv e p f := by
  cases h with
  | sends _ hmain => exact .inl ⟨_, _, _, hmain⟩
  | receives _ hmain => exact .inr ⟨_, _, hmain⟩

theorem exists_enters_of_send {e : E} {message : Message} {pid : Pid} (herr : (s.cores c).errands = [])
    (hmain : (s.cores c).main = .trySend e message pid f) : (∃ p x, s.Enters c p x) ↔
      ((s.endpoints e).trySend ⟨s.nextId, message⟩ (.process pid)).1 = .enqueued := by
  refine ⟨fun ⟨p, x, h⟩ ↦ ?_, fun h ↦ ⟨pid, _, .sends herr hmain (Prod.ext h rfl)⟩⟩
  cases h with
  | sends _ hmain' hsend =>
    cases hmain.symm.trans hmain'
    rw [hsend]
  | receives _ hmain' => cases hmain.symm.trans hmain'

theorem exists_enters_of_recv {e : E} {pid : Pid} (herr : (s.cores c).errands = [])
    (hmain : (s.cores c).main = .tryRecv e pid f) : (∃ p x, s.Enters c p x) ↔
      ∃ slot, (s.endpoints e).tryRecv (.process pid) = some (.enqueued, slot) := by
  refine ⟨fun ⟨p, x, h⟩ ↦ ?_, fun ⟨slot, h⟩ ↦ ⟨pid, _, .receives herr hmain h⟩⟩
  cases h with
  | sends _ hmain' => cases hmain.symm.trans hmain'
  | receives _ hmain' hrecv =>
    cases hmain.symm.trans hmain'
    exact ⟨_, hrecv⟩

inductive Serves (s : State E) (c : CoreId) (s' : State E) (f : TrapFrame) : Prop
  | trapped {g : TrapFrame} (herr : (s.cores c).errands = []) (hmain : (s.cores c).main = .user g)
  | errand (herr : (s.cores c).errands ≠ []) (hmain : (s'.cores c).main = (s.cores c).main)
  | serves (herr : (s.cores c).errands = []) (hf : (s.cores c).main.saves = some f)
      (hold : (s.cores c).main.parks = false)
      (hnew : (s'.cores c).main.parks = true ↔ ∃ p x, s.Enters c p x)

section

variable [DecidableEq E]

theorem Serves.trade (h : s.Trade c s') (herr : (s.cores c).errands = [])
    (hf : (s'.cores c).main.saves = some f) : s.Serves c s' f := by
  cases h with
  | closed herr' | nobody herr' => cases herr.symm.trans herr'
  | displaced _ hmain htry =>
    rw [goto_main] at hf
    cases hf
    refine .serves herr (hmain ▸ rfl) (hmain ▸ rfl) ?_
    simp [exists_enters_of_send herr hmain, htry, Main.parks]
  | delivered hsubmits htry | enqueued hsubmits htry =>
    rw [goto_main] at hf
    cases hsubmits with
    | task herr' => cases herr.symm.trans herr'
    | call _ hmain =>
      cases hf
      refine .serves herr (hmain ▸ rfl) (hmain ▸ rfl) ?_
      simp [exists_enters_of_send herr hmain, htry, Main.parks]
  | taken hasks htry | registered hasks htry =>
    rw [goto_main] at hf
    cases hasks with
    | task herr' | displaced herr' => cases herr.symm.trans herr'
    | call _ hmain =>
      cases hf
      refine .serves herr (hmain ▸ rfl) (hmain ▸ rfl) ?_
      simp [exists_enters_of_recv herr hmain, htry, Main.parks]
  | refused hfrom | unregistered hfrom =>
    rw [goto_main] at hf
    cases hfrom with
    | call => cases hf
    | _ herr' => cases herr.symm.trans herr'

theorem Turn.main_of_errands (h : s.Turn c s') (herr : (s.cores c).errands ≠ []) :
    (s'.cores c).main = (s.cores c).main := by
  cases h with
  | tasks | wake | orphans | dropBox | clearStackBusy => exact goto_main
  | pollSend _ _ htrade | pollRecv _ _ htrade | wakeReceiver _ _ htrade
  | takeWaitingReceiver _ _ htrade => exact htrade.main_of_errands herr
  | _ => exact absurd ‹(s.cores c).errands = []› herr

end

theorem Serves.quiet (herr : (s.cores c).errands = []) (hmain : (s.cores c).main = m)
    (hf : m.saves = some f) (hold : m.parks = false) (hnew : (s'.cores c).main.parks = false)
    (hsend : ∀ e message p f, m ≠ .trySend e message p f) (hrecv : ∀ e p f, m ≠ .tryRecv e p f) :
    s.Serves c s' f := by
  refine .serves herr (hmain ▸ hf) (hmain ▸ hold) ⟨fun h ↦ ?_, fun ⟨p, x, h⟩ ↦ ?_⟩
  · rw [hnew] at h
    cases h
  · rcases h.main with ⟨e, message, g, hm⟩ | ⟨e, g, hm⟩
    · exact absurd (hmain.symm.trans hm) (hsend e message p g)
    · exact absurd (hmain.symm.trans hm) (hrecv e p g)

theorem Serves.stay {m' : Main E} (herr : (s.cores c).errands = []) (hmain : (s.cores c).main = m)
    (hstay : s.Stay c m m') (hf : m'.saves = some f) : s.Serves c (s.goto c m' []) f := by
  cases hstay with
  | caller | noImage | killAllowed | killOwned | killSeen | heapMapped =>
    exact .quiet herr hmain hf rfl (by rw [goto_main]; rfl) (by simp) (by simp)
  | _ => cases hf

variable [DecidableEq E]

/-- A core that serves a trap after its step has just taken it, or goes on with the one it served;
its process is registered exactly if the core is now about to block it. -/
theorem Turn.serves (h : s.Turn c s') (hf : (s'.cores c).main.saves = some f) :
    s.Serves c s' f := by
  by_cases herr' : (s.cores c).errands ≠ []
  · exact .errand herr' (h.main_of_errands herr')
  push Not at herr'
  cases h with
  | tasks herr | wake herr | orphans herr | dropBox herr | clearStackBusy herr | pollSend herr
  | pollRecv herr | wakeReceiver herr | takeWaitingReceiver herr => cases herr'.symm.trans herr
  | stay herr hmain hstay =>
    rw [goto_main] at hf
    exact .stay herr hmain hstay hf
  | trap herr hmain => exact .trapped herr hmain
  | record herr hmain hP =>
    rw [goto_main] at hf
    cases saves_callOn hf
    exact .quiet herr hmain rfl rfl (by rw [goto_main]; exact (callOn_calm _ _).1.parks) (by simp)
      (by simp)
  | trySend herr _ _ htrade | tryRecv herr _ _ htrade => exact .trade htrade herr hf
  | allocate herr hmain | load herr hmain | request herr hmain | withdraw herr hmain =>
    rw [goto_main] at hf
    cases hf
    exact .quiet herr hmain rfl rfl (by rw [goto_main]; rfl) (by simp) (by simp)
  | dispatch | abandon =>
    simp [State.dispatch, State.abandon, Main.saves] at hf
  | bootDone | leave =>
    rw [setCore_self] at hf
    cases hf
  | rest _ _ _ hnew =>
    rw [goto_main] at hf
    rcases hnew with rfl | rfl <;> cases hf
  | _ =>
    rw [goto_main] at hf
    cases hf

theorem Turn.child (hturn : s.Turn c s') (hP : (s'.cores c).main.child = some P) :
    ((s.cores c).errands ≠ [] ∧ (s'.cores c).main = (s.cores c).main) ∨
      (s.cores c).errands = [] ∧ ∃ caller child f, (s.cores c).main = .fromElf caller child f := by
  by_cases herr' : (s.cores c).errands ≠ []
  · exact .inl ⟨herr', hturn.main_of_errands herr'⟩
  push Not at herr'
  cases hturn with
  | tasks herr | wake herr | orphans herr | dropBox herr | clearStackBusy herr | pollSend herr
  | pollRecv herr | wakeReceiver herr | takeWaitingReceiver herr => cases herr'.symm.trans herr
  | load herr hmain => exact .inr ⟨herr, _, _, _, hmain⟩
  | stay _ _ hstay =>
    rw [goto_main] at hP
    cases hstay <;> cases hP
  | trap =>
    rw [setCore_self] at hP
    cases (trapMain_plain _ _).1.child.symm.trans hP
  | record =>
    rw [goto_main] at hP
    cases (callOn_calm _ _).1.child.symm.trans hP
  | trySend _ hmain _ htrade | tryRecv _ hmain _ htrade =>
    refine absurd hP (htrade.main (motive := fun m ↦ m.child ≠ _) ?_ nofun nofun nofun nofun)
    rw [hmain]
    nofun
  | dispatch | abandon =>
    simp [State.dispatch, State.abandon, Main.child] at hP
  | bootDone | leave =>
    rw [setCore_self] at hP
    cases hP
  | rest _ _ _ hnew =>
    rw [goto_main] at hP
    rcases hnew with rfl | rfl <;> cases hP
  | _ =>
    rw [goto_main] at hP
    cases hP

end Saves

section Current

variable {s s' : State E} {c d : CoreId} {p : Pid} {f : TrapFrame}

theorem Seating.current_other (h : s.Seating c s') (hd : d ≠ c)
    (hp : s'.sched.current d = some p) : s.sched.current d = some p := by
  cases h with
  | keep hcurrent => exact hcurrent d p hp
  | trap _ hcurrent => exact (congrFun hcurrent d).symm.trans hp
  | dispatch hcurrent =>
    rw [hcurrent, update_of_ne hd] at hp
    exact hp

variable [DecidableEq E]

theorem Effect.current_saves (heff : s.Effect c s') (hf : (s'.cores c).main.saves = some f) :
    s'.sched.current c = s.sched.current c := by
  cases heff with
  | errand _ _ _ hcurrent | light _ _ _ _ _ _ _ _ hcurrent =>
    exact congrFun hcurrent c
  | reserve _ hfree => simp [withSched, goto, setCore, Inner.allocatePid, hfree]
  | spawn | bootSpawn | exit | kill =>
    rw [goto_main] at hf
    cases hf
  | dispatch | abandon =>
    simp [State.dispatch, State.abandon, Main.saves] at hf
  | _ => rfl

end Current

section Dispatch

variable {s s' b : State E} {a : Action E} {c : CoreId} {p : Pid} {strict : Prop}

structure Dispatches (s : State E) (c : CoreId) (s' : State E) (p : Pid) (f : TrapFrame) : Prop where
  switches : s.switches c = true
  current : s'.sched.current c = some p
  main : (s'.cores c).main = .leave f

structure Picks (s : State E) (c : CoreId) (s' : State E) (p : Pid) (P : Process E) (x : Saved) :
    Prop where
  hP : s.sched.view p = .occupied P
  course : s.Course c p (saved P) x
  ready : x.state = .ready
  main : (s'.cores c).main = .leave x.frame
  record : ∃ P', s'.sched.view p = .occupied P' ∧ saved P' = { x with state := .running }

theorem current_block {sched t : Inner E} {f : TrapFrame}
    (h : sched.blockCurrentProcessLocked c f = .ok t) : t.current c = none := by
  have hset : ∀ u : Inner E, (u.setCurrent c none).current c = none := fun u ↦ update_self ..
  unfold blockCurrentProcessLocked at h
  split at h
  · rename_i hnone
    cases h
    exact hnone
  · split at h
    · cases h
    · split at h
      · simp only at h
        split at h <;> (cases h; exact hset _)
      · cases h
        exact hset _

variable [Fintype E]

theorem Inv.current_none {m : Main E} (h : s.Inv strict) (hmain : (s.cores c).main = m)
    (hattached : m.attached = false) : s.sched.current c = none := by
  have hsome := h.scene.cores.attached c
  rw [main_core hmain, hattached] at hsome
  exact Option.isSome_eq_false_iff.mp hsome.symm |> Option.isNone_iff_eq_none.mp

theorem Inv.picks_switchTo {m : Main E} {pid : Pid} {popped : Inner E} {errands : List (Errand E)}
    (h : s.Inv strict) (herr : (s.cores c).errands = []) (hmain : (s.cores c).main = m)
    (hyields : s.Yields c m b) (hpop : b.sched.pop = (some pid, popped))
    (hswitch : (b.withSched popped).switchTo c pid errands = .next s')
    (hc : s'.sched.current c = some p) : ∃ P x, s.Picks c s' p P x := by
  unfold switchTo at hswitch
  split at hswitch
  · cases hswitch
  · rename_i P sched hok
    cases hswitch
    obtain ⟨P₀, x, hP₀, hcourse, hready, hsaved, hcur, hview⟩ :=
      h.picked herr hmain hyields hpop hok
    cases hcur.symm.trans hc
    refine ⟨P₀, x, hP₀, hcourse, hready, ?_, P, (hview p).trans (if_pos rfl), hsaved⟩
    rw [← show (saved P).frame = x.frame by rw [hsaved]]
    simp [dispatch, saved]

theorem Inv.picks_switchToNextOrHalt {m : Main E} {outgoing : Option (Fin maxProcesses)}
    {drops : List (Process E)} (h : s.Inv strict) (herr : (s.cores c).errands = [])
    (hmain : (s.cores c).main = m) (hyields : s.Yields c m b) (hnone : b.sched.current c = none)
    (hswitch : b.switchToNextOrHalt c outgoing drops = .next s') (hc : s'.sched.current c = some p) :
    ∃ P x, s.Picks c s' p P x := by
  unfold switchToNextOrHalt at hswitch
  split at hswitch
  · rename_i hpop
    exact h.picks_switchTo herr hmain hyields hpop hswitch hc
  · rename_i sched hpop
    cases hswitch
    obtain ⟨htable, -⟩ := table_pop_none hpop
    replace hc : sched.table.current c = some p := hc
    rw [htable] at hc
    cases hnone.symm.trans hc

variable [DecidableEq E]

theorem Inv.picks {f : TrapFrame} (h : s.Inv strict) (hs : s.next a = some s')
    (hd : s.Dispatches a.core s' p f) : ∃ P x, s.Picks a.core s' p P x := by
  have hstep := step_of_next hs
  have hswitches := hd.switches
  unfold step at hstep
  unfold switches at hswitches
  split at hswitches
  · rename_i f herr hmain
    simp only [herr, hmain, mainStep, onTimerTick] at hstep
    split at hstep
    · cases hstep
    · rename_i preempted hpre
      split at hstep
      · rename_i pid popped hpop
        exact h.picks_switchTo (b := s.withSched preempted) herr hmain (.tick hpre) hpop hstep
          hd.current
      · exact absurd ‹_› (h.preempted_pop hmain hpre)
  · rename_i f herr hmain
    simp only [herr, hmain, mainStep, blockCurrent] at hstep
    split at hstep
    · cases hstep
    · rename_i sched hblock
      exact h.picks_switchToNextOrHalt herr hmain (.block hblock) (current_block hblock) hstep
        hd.current
  · rename_i outgoing drops herr hmain
    simp only [herr, hmain, mainStep] at hstep
    exact h.picks_switchToNextOrHalt herr hmain .next (h.current_none hmain rfl) hstep hd.current
  · rename_i halts herr hmain
    simp only [herr, hmain, mainStep, idle] at hstep
    split at hstep
    · rename_i pid popped hpop
      exact h.picks_switchTo herr hmain .idle hpop hstep hd.current
    · rename_i popped hpop
      have hnone := h.current_none hmain rfl
      obtain ⟨htable, -⟩ := table_pop_none hpop
      have hc : popped.table.current a.core = some p := by
        split at hstep <;> (cases hstep; exact hd.current)
      rw [htable] at hc
      cases hnone.symm.trans hc
  · rename_i f herr hmain
    simp only [Bool.and_eq_true, decide_eq_true_eq] at hswitches
    simp only [herr, hmain, mainStep, onRescheduleIpi, hswitches.1, hswitches.2,
      ne_eq, not_true, or_self, if_false] at hstep
    split at hstep
    · cases hstep
    · rename_i i hslot
      refine h.picks_switchToNextOrHalt herr hmain (.evict hswitches.2 ?_ hslot) ?_ hstep hd.current
      · simpa using hswitches.1
      · simp [setCurrent]
  · rename_i target caller f herr hmain
    have hwait : s.sched.waitOutcome target caller = .mustBlock := of_decide_eq_true hswitches
    simp only [herr, hmain, mainStep, waitForChild, hwait, blockCurrent] at hstep
    split at hstep
    · cases hstep
    · rename_i sched hblock
      exact h.picks_switchToNextOrHalt herr hmain (.wait hwait hblock) (current_block hblock) hstep
        hd.current
  · cases hswitches

end Dispatch

end State

end Tarnos.Kernel
