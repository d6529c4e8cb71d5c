import Mathlib.Logic.Relation
import Tarnos.Foundation.LockRules
import Tarnos.Task.Scheduler

namespace Tarnos.Kernel.Locks

open Foundation Foundation.Locking Tarnos.Task

variable {E : Type}

/-- The executor's two locks, the scheduler's, and the slot lock of each endpoint. -/
inductive Lock (E : Type)
  | executor
  | readyQueue
  | scheduler
  | slot (e : E)
  deriving DecidableEq

abbrev Code (E : Type) := Locking.Code (Lock E) E

def wakeTask : Code E := .within .readyQueue .skip

/-- `wake_blocked_process`. The IPIs it sends under the guard take no lock. -/
def wakeBlockedProcess : Code E := .within .scheduler .skip

def wakeSender : Code E := .either wakeTask (.either wakeBlockedProcess .skip)

/-- The guard is a temporary of the `let`, so the sender is woken without it. -/
def tryRecv (e : E) : Code E := .seq (.within (.slot e) .skip) (.either wakeSender .skip)

def wakeReceiver (e : E) : Code E :=
  .either wakeTask (.either (.seq (tryRecv e) (.either wakeBlockedProcess .skip)) .skip)

def trySend (e : E) : Code E := .seq (.within (.slot e) .skip) (.either (wakeReceiver e) .skip)

def takeWaitingProcessReceiver (e : E) : Code E := .within (.slot e) .skip

/-- `SendFuture::poll`: with its message still to send, or woken after a receiver took it. A full
queue wakes the task itself. -/
def pollSend (e : E) : Code E :=
  .either
    (.seq (.within (.slot e) .skip) (.either (wakeReceiver e) (.either .skip wakeTask)))
    .skip

def pollRecv (e : E) : Code E :=
  .seq (.within (.slot e) .skip) (.either wakeSender (.either .skip wakeTask))

/-- A task is gone already, or is polled: it awaits sends and receives until one is pending. -/
def pollTask : Code E := .either .skip (.each fun e ↦ .either (pollSend e) (pollRecv e))

/-- After an overflow every task is polled; otherwise the ready queue is popped until it is
empty, each time with the guard dropped before the poll. -/
def runReadyTasksLocked : Code E :=
  .either (.loop pollTask)
    (.seq (.loop (.seq (.within .readyQueue .skip) pollTask)) (.within .readyQueue .skip))

def runReadyTasks : Code E := .within .executor runReadyTasksLocked

def withProcess : Code E := .within .scheduler .skip

def withCurrentProcess : Code E := .seq (.within .scheduler .skip) (.either withProcess .skip)

def allocatePid : Code E := .within .scheduler .skip

def releaseReservation : Code E := .within .scheduler .skip

def spawnSuspended : Code E := .either (.within .scheduler .skip) .skip

def startChild : Code E := .within .scheduler .skip

def wakeOrphanedReceivers : Code E :=
  .seq (.within .scheduler .skip)
    (.each fun e ↦ .seq (takeWaitingProcessReceiver e) (.either wakeBlockedProcess .skip))

def terminateSlot : Code E := .seq (.within .scheduler .skip) wakeOrphanedReceivers

def parkUntilWoken : Code E :=
  .block [.cli, .within .scheduler .skip,
    .either .sti (.block [.within .scheduler .skip, .either .sti .hlt])]

def permanentHalt : Code E := .seq .cli .halt

def idleLoopOnOwnStack (halts : Bool) : Code E :=
  .forever (.block [runReadyTasks, .lock .scheduler,
    .either (.block [.drop .scheduler, .leave])
      (.block [
        if halts then .either (.block [.drop .scheduler, permanentHalt]) .skip else .skip,
        .drop .scheduler, parkUntilWoken])])

def idleLoopTrampoline : Code E :=
  .seq (.forceUnlock .scheduler) (idleLoopOnOwnStack true)

def finishSwitch : Code E := .seq (.drop .scheduler) runReadyTasks

/-- Runs with the guard its caller took. When nothing is ready the guard is forgotten, and the
stack switch leads to the trampoline. -/
def switchToNextOrHalt : Code E :=
  .either finishSwitch (.seq (.forget .scheduler) idleLoopTrampoline)

def onTimerTick : Code E := .block [.lock .scheduler, .drop .scheduler, runReadyTasks]

def onRescheduleIpi : Code E :=
  .seq (.lock .scheduler) (.either (.drop .scheduler) switchToNextOrHalt)

def waitForChild : Code E :=
  .seq (.lock .scheduler) (.either (.drop .scheduler) switchToNextOrHalt)

def blockCurrentProcess : Code E := .seq (.lock .scheduler) switchToNextOrHalt

def terminateCurrentProcess : Code E :=
  .block [.within .scheduler .skip, .either terminateSlot .skip, .lock .scheduler,
    switchToNextOrHalt]

/-- One round of the loop of `terminate_process`. -/
def terminateRound : Code E := .seq (.within .scheduler .skip) wakeOrphanedReceivers

def terminateProcess : Code E :=
  .seq (.within .scheduler .skip) (.either .skip (.seq terminateRound (.loop terminateRound)))

def resolveEndpoint : Code E := withCurrentProcess

def sysSend (e : E) : Code E :=
  .seq resolveEndpoint (.either .skip (.seq (trySend e) (.either .skip blockCurrentProcess)))

def sysRecv (e : E) : Code E :=
  .seq resolveEndpoint (.either .skip (.seq (tryRecv e) (.either .skip blockCurrentProcess)))

def sysSpawn : Code E :=
  .seq withCurrentProcess
    (.either .skip (.seq allocatePid (.either releaseReservation spawnSuspended)))

def sysGrant : Code E := .seq withCurrentProcess (.either .skip withProcess)

def sysProcessStart : Code E := .seq withCurrentProcess (.either .skip startChild)

def sysWait : Code E := .seq withCurrentProcess (.either .skip waitForChild)

def sysKill : Code E := .seq withCurrentProcess (.either .skip terminateProcess)

def sysSbrk : Code E := .seq withCurrentProcess (.either .skip withCurrentProcess)

def sysBlockRead : Code E := .either .skip withCurrentProcess

def sysFileRead : Code E := withCurrentProcess

def killFaultingProcessAndReschedule : Code E := .seq withCurrentProcess terminateCurrentProcess

/-- The receive interrupt wakes the task that registered for it, if one did. -/
def irq4Handler : Code E := .either wakeTask .skip

/-- The ways into the kernel from ring 3. -/
inductive Operation (E : Type)
  | yield
  | send (e : E)
  | recv (e : E)
  | exit
  | spawn
  | grant
  | processStart
  | wait
  | kill
  | sbrk
  | blockRead
  | fileRead
  | noSuchSyscall
  | timerTick
  | rescheduleIpi
  | fault
  | irq4

def Operation.code : Operation E → Code E
  | yield => onTimerTick
  | send e => sysSend e
  | recv e => sysRecv e
  | exit => terminateCurrentProcess
  | spawn => sysSpawn
  | grant => sysGrant
  | processStart => sysProcessStart
  | wait => sysWait
  | kill => sysKill
  | sbrk => sysSbrk
  | blockRead => sysBlockRead
  | fileRead => sysFileRead
  | noSuchSyscall => .skip
  | timerTick => onTimerTick
  | rescheduleIpi => onRescheduleIpi
  | fault => killFaultingProcessAndReschedule
  | irq4 => irq4Handler

/-- An interrupt in ring 0: the timers and the reschedule IPI only acknowledge there. -/
def ring0Interrupt : Code E := .either irq4Handler .skip

abbrev Machine (E : Type) := Locking.Machine CoreId (Lock E) E

def boot (online enabled : CoreId → Bool) : Machine E where
  owner := fun _ ↦ none
  cores := fun c ↦
    if online c then ⟨[idleLoopOnOwnStack false], ⟨[], [], enabled c⟩⟩
    else ⟨[.halt], ⟨[], [], false⟩⟩

def Before (k l : Lock E) : Prop := k = .executor ∧ l ≠ .executor

theorem before_irrefl (k : Lock E) : ¬ Before k k := fun h ↦ h.2 h.1

theorem before_wellFounded : WellFounded fun k l : Lock E ↦ Before l k := by
  have hacc : ∀ k : Lock E, k ≠ .executor → Acc (fun k l ↦ Before l k) k := fun k hk ↦
    ⟨k, fun _ h ↦ absurd h.1 hk⟩
  exact ⟨fun k ↦ ⟨k, fun l h ↦ hacc l h.2⟩⟩

/-- Where the scheduler's and the endpoints' code is entered: from a core that holds nothing, or
from a task poll, under `EXECUTOR`. -/
structure Inner (x : Context (Lock E)) : Prop where
  calm : x.Calm
  held : ∀ k ∈ x.held, k = .executor

variable {x : Context (Lock E)}

theorem inner_of_held (h : x.held = []) : Inner x :=
  ⟨fun _ ↦ h, fun k hk ↦ by rw [h] at hk; cases hk⟩

namespace Inner

section

variable (h : Inner x)

include h

theorem may {l : Lock E} (hl : l ≠ .executor) : x.May Before l :=
  fun k hk ↦ ⟨h.held k hk, hl⟩

theorem within {l : Lock E} (hl : l ≠ .executor) : Neutral Before (.within l .skip : Code E) x :=
  .within h.calm (h.may hl) neutral_skip

theorem scheduler : Neutral Before (.within .scheduler .skip : Code E) x :=
  h.within nofun

theorem slot (e : E) : Neutral Before (.within (.slot e) .skip : Code E) x :=
  h.within nofun

theorem wakeTask : Neutral Before wakeTask x := h.within nofun

theorem wakeSender : Neutral Before wakeSender x :=
  h.wakeTask.either (h.scheduler.either neutral_skip)

theorem tryRecv (e : E) : Neutral Before (tryRecv e) x :=
  (h.slot e).seq (h.wakeSender.either neutral_skip)

theorem wakeReceiver (e : E) : Neutral Before (wakeReceiver e) x :=
  h.wakeTask.either (((h.tryRecv e).seq (h.scheduler.either neutral_skip)).either neutral_skip)

theorem trySend (e : E) : Neutral Before (trySend e) x :=
  (h.slot e).seq ((h.wakeReceiver e).either neutral_skip)

theorem pollTask : Neutral Before pollTask x := by
  refine neutral_skip.either (.each fun e ↦ .either (.either ?_ neutral_skip) ?_)
  · exact (h.slot e).seq ((h.wakeReceiver e).either (neutral_skip.either h.wakeTask))
  · exact (h.slot e).seq (h.wakeSender.either (neutral_skip.either h.wakeTask))

theorem runReadyTasksLocked : Neutral Before runReadyTasksLocked x :=
  h.pollTask.loop.either ((h.wakeTask.seq h.pollTask).loop.seq h.wakeTask)

theorem withCurrentProcess : Neutral Before withCurrentProcess x :=
  h.scheduler.seq (h.scheduler.either neutral_skip)

theorem wakeOrphanedReceivers : Neutral Before wakeOrphanedReceivers x :=
  h.scheduler.seq (.each fun e ↦ (h.slot e).seq (h.scheduler.either neutral_skip))

theorem terminateSlot : Neutral Before terminateSlot x :=
  h.scheduler.seq h.wakeOrphanedReceivers

theorem terminateProcess : Neutral Before terminateProcess x :=
  h.scheduler.seq (neutral_skip.either (h.terminateSlot.seq h.terminateSlot.loop))

end

end Inner

theorem neutral_runReadyTasks (h : x.held = []) : Neutral Before runReadyTasks x := by
  have hinner := inner_of_held h
  refine .within hinner.calm (fun k hk ↦ ?_) (Inner.runReadyTasksLocked ⟨calm_push _, ?_⟩)
  · rw [h] at hk
    cases hk
  · intro k hk
    have hheld : (x.push .executor).held = [.executor] := congrArg (Lock.executor :: ·) h
    rw [hheld] at hk
    exact List.mem_singleton.mp hk

theorem may_of_held (h : x.held = []) (l : Lock E) : x.May Before l := by
  intro k hk
  rw [h] at hk
  cases hk

variable {Q : Context (Lock E) → Prop}

theorem wp_dropScheduler (h : x.held = []) (hpost : Q x) :
    wp Before (.drop .scheduler : Code E) Q (x.push .scheduler) :=
  wp_drop_push (fun _ ↦ h) hpost

theorem wp_parkUntilWoken (h : x.held = []) (hpost : ∀ y : Context (Lock E), y.held = [] → Q y) :
    wp Before parkUntilWoken Q x := by
  have hinner : Inner { x with enabled := false } := inner_of_held h
  have hawake : Q { x with enabled := true } := hpost _ h
  refine hinner.scheduler _ ⟨⟨h, hawake⟩, ?_⟩
  exact hinner.scheduler _ ⟨⟨h, hawake⟩, h, hawake⟩

theorem wp_idleLoop (halts : Bool) (h : x.held = []) :
    wp Before (idleLoopOnOwnStack halts) Q x := by
  refine ⟨fun y ↦ y.held = [], h, fun y hy ↦ ?_⟩
  refine neutral_runReadyTasks hy _ ⟨may_of_held hy _, ?_, ?_⟩
  · exact wp_dropScheduler hy hy
  · have hpark : wp Before (.drop .scheduler : Code E)
        (wp Before (.seq parkUntilWoken .skip : Code E) fun y ↦ y.held = []) (y.push .scheduler) :=
      wp_dropScheduler hy (wp_parkUntilWoken hy fun _ hz ↦ hz)
    cases halts with
    | false => exact hpark
    | true => exact ⟨wp_dropScheduler hy hy, hpark⟩

theorem wp_switchToNextOrHalt (h : x.held = []) (hpost : Q x) :
    wp Before switchToNextOrHalt Q (x.push .scheduler) := by
  constructor
  · exact wp_dropScheduler h (neutral_runReadyTasks h _ hpost)
  · refine ⟨x.enabled, x.guards, rfl, x.forgotten, rfl, ?_⟩
    exact wp_idleLoop true h

theorem neutral_blockCurrentProcess (h : x.held = []) : Neutral Before blockCurrentProcess x :=
  fun _ hpost ↦ ⟨may_of_held h _, wp_switchToNextOrHalt h hpost⟩

theorem neutral_onRescheduleIpi (h : x.held = []) : Neutral Before onRescheduleIpi x :=
  fun _ hpost ↦
    ⟨may_of_held h _, wp_dropScheduler h hpost, wp_switchToNextOrHalt h hpost⟩

theorem neutral_onTimerTick (h : x.held = []) : Neutral Before onTimerTick x :=
  fun _ hpost ↦ ⟨may_of_held h _, wp_dropScheduler h (neutral_runReadyTasks h _ hpost)⟩

theorem neutral_terminateCurrentProcess (h : x.held = []) :
    Neutral Before terminateCurrentProcess x := by
  intro post hpost
  have hinner := inner_of_held h
  refine hinner.scheduler _ ((hinner.terminateSlot.either neutral_skip) _ ?_)
  exact ⟨may_of_held h _, wp_switchToNextOrHalt h hpost⟩

theorem lawful : Lawful Before (Operation.code : Operation E → Code E) ring0Interrupt where
  irrefl := before_irrefl
  handler := fun x h ↦
    ((inner_of_held h).wakeTask.either neutral_skip).either neutral_skip
  op := by
    intro op x h
    have hinner := inner_of_held h
    have hcurrent := hinner.withCurrentProcess
    have hblock := neutral_skip.either (neutral_blockCurrentProcess h)
    cases op with
    | yield | timerTick => exact neutral_onTimerTick h
    | send e => exact hcurrent.seq (neutral_skip.either ((hinner.trySend e).seq hblock))
    | recv e => exact hcurrent.seq (neutral_skip.either ((hinner.tryRecv e).seq hblock))
    | exit => exact neutral_terminateCurrentProcess h
    | spawn =>
      have hspawn : Neutral Before (.either releaseReservation spawnSuspended : Code E) x :=
        hinner.scheduler.either (hinner.scheduler.either neutral_skip)
      exact hcurrent.seq (neutral_skip.either (hinner.scheduler.seq hspawn))
    | grant | processStart => exact hcurrent.seq (neutral_skip.either hinner.scheduler)
    | wait => exact hcurrent.seq (neutral_skip.either (neutral_onRescheduleIpi h))
    | kill => exact hcurrent.seq (neutral_skip.either hinner.terminateProcess)
    | sbrk => exact hcurrent.seq (neutral_skip.either hcurrent)
    | blockRead => exact neutral_skip.either hcurrent
    | fileRead => exact hcurrent
    | noSuchSyscall => exact neutral_skip
    | rescheduleIpi => exact neutral_onRescheduleIpi h
    | fault => exact hcurrent.seq (neutral_terminateCurrentProcess h)
    | irq4 => exact hinner.wakeTask.either neutral_skip

theorem boot_sound (online enabled : CoreId → Bool) :
    (boot online enabled : Machine E).Sound Before := by
  refine ⟨fun c ↦ ?_, fun l c ↦ ?_⟩
  · unfold boot
    dsimp only
    split
    · exact ⟨wp_idleLoop false rfl, fun _ ↦ rfl, List.nodup_nil⟩
    · exact ⟨rfl, fun _ ↦ rfl, List.nodup_nil⟩
  · have hheld : ((boot online enabled : Machine E).cores c).context.held = [] := by
      unfold boot
      dsimp only
      split <;> rfl
    rw [hheld]
    exact ⟨nofun, nofun⟩

variable [DecidableEq E]

def Reaches (s : Machine E) (trace : List (Event CoreId (Lock E))) : Prop :=
  ∃ online enabled, Transition.Reach
    (Transition.noted (Locking.Machine.next Operation.code ring0Interrupt)
      (Locking.Machine.note Operation.code ring0Interrupt))
    (fun _ _ ↦ True) (boot online enabled, []) (s, trace)

def RequestedWhileHolding (k l : Lock E) : Prop :=
  ∃ (s : Machine E) (trace : List (Event CoreId (Lock E))) (c : CoreId), Reaches s trace ∧
    s.owner k = some c ∧ (s.cores c).Requests l

structure Disciplined (s : Machine E) (trace : List (Event CoreId (Lock E))) : Prop where
  fresh : ∀ c l, (s.cores c).Requests l → s.owner l ≠ some c
  paired : ∀ l, Paired l trace (s.owner l)
  settled : ∀ c, (s.cores c).Rests → ∀ l, s.owner l ≠ some c
  masked : ∀ c l, s.owner l = some c → (s.cores c).context.enabled = false
  goes_on : ∀ l, s.owner l ≠ none → ∃ d pick s', (∃ k, s.owner k = some d) ∧
    s.next Operation.code ring0Interrupt (d, .run pick) = some s'

theorem sound_of_reaches {s : Machine E} {trace : List (Event CoreId (Lock E))}
    (h : Reaches s trace) : s.Sound Before := by
  obtain ⟨online, enabled, hreach⟩ := h
  have hrun := @Transition.Reach.forget _ _ _ (fun _ _ ↦ True) _ _ _ _ hreach
  exact sound_of_reach lawful (boot_sound online enabled) hrun

theorem before_of_requestedWhileHolding {k l : Lock E} (h : RequestedWhileHolding k l) :
    Before k l := by
  obtain ⟨s, trace, c, hreach, howner, hrequest⟩ := h
  have hsound := sound_of_reaches hreach
  exact (hsound.core c).may hrequest k ((hsound.owner k c).mp howner)

/-- The lock discipline: no core requests a lock it holds, the order in which locks are taken has
no cycle, and every acquisition is released once, by the core that made it. -/
theorem locks_disciplined :
    (∀ (s : Machine E) (trace : List (Event CoreId (Lock E))), Reaches s trace →
      Disciplined s trace) ∧
    (∀ l : Lock E, ¬ Relation.TransGen RequestedWhileHolding l l) ∧
    (∀ l : Lock E, ¬ RequestedWhileHolding .scheduler l) := by
  refine ⟨fun s trace h ↦ ?_, fun l hcycle ↦ ?_, fun l h ↦ ?_⟩
  · have hsound := sound_of_reaches h
    obtain ⟨online, enabled, hreach⟩ := h
    refine ⟨fun c l hrequest howner ↦ ?_, fun l ↦ ?_, fun c hrests l howner ↦ ?_,
      fun c l howner ↦ ?_, fun l hl ↦ ?_⟩
    · exact before_irrefl l ((hsound.core c).may hrequest l ((hsound.owner l c).mp howner))
    · exact paired_of_reach lawful (boot_sound online enabled) (fun _ ↦ rfl) hreach l
    · have hheld := (hsound.owner l c).mp howner
      rw [(hsound.core c).holds_nothing hrests] at hheld
      cases hheld
    · exact (hsound.core c).calm.masked ((hsound.owner l c).mp howner)
    · obtain ⟨c, howner⟩ := Option.ne_none_iff_exists'.mp hl
      exact hsound.goes_on before_wellFounded howner
  · have hbefore : Relation.TransGen (Before (E := E)) l l :=
      Relation.TransGen.mono (fun _ _ h ↦ before_of_requestedWhileHolding h) _ _ hcycle
    obtain ⟨k, hfirst, -⟩ := Relation.TransGen.head'_iff.mp hbefore
    obtain ⟨m, -, hlast⟩ := Relation.TransGen.tail'_iff.mp hbefore
    exact hlast.2 hfirst.1
  · have hbefore := before_of_requestedWhileHolding h
    cases hbefore.1

def walk (n : ℕ) : List (CoreId × Move (Operation Unit) Unit) := List.replicate n (0, .run .go)

def choose (taken : Bool) : List (CoreId × Move (Operation Unit) Unit) :=
  [(0, .run (.branch taken))]

def waitAndIdle : List (CoreId × Move (Operation Unit) Unit) :=
  walk 6 ++ choose false ++ walk 1 ++ choose false ++ walk 13 ++ choose true ++ walk 5 ++
    [(0, .enter .wait)] ++ walk 9 ++ choose false ++ walk 1 ++ choose false ++ walk 3 ++
    choose false ++ choose false ++ walk 2

theorem locks_disciplined_forgotten : ∃ (s : Machine Unit)
    (trace : List (Event CoreId (Lock Unit))), Reaches s trace ∧
      s.owner .scheduler = some 0 ∧ (s.cores 0).context.forgotten = [.scheduler] ∧
      Disciplined s trace := by
  have hrun : (Transition.run (Locking.Machine.next Operation.code ring0Interrupt)
      (boot (fun _ ↦ true) fun _ ↦ false) waitAndIdle).map
      (fun s ↦ decide (s.owner .scheduler = some 0 ∧
        (s.cores 0).context.forgotten = [.scheduler])) = some true := by decide +kernel
  obtain ⟨s, hs, hstate⟩ := Option.map_eq_some_iff.mp hrun
  obtain ⟨howner, hforgotten⟩ := of_decide_eq_true hstate
  obtain ⟨trace, hnoted⟩ := (Transition.run_reach hs).recorded
    (Locking.Machine.note Operation.code ring0Interrupt) []
  have hreaches : Reaches s trace := ⟨_, _, hnoted⟩
  exact ⟨s, trace, hreaches, howner, hforgotten, locks_disciplined.1 s trace hreaches⟩

end Tarnos.Kernel.Locks
