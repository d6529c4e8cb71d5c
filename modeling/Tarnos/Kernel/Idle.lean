import Tarnos.Kernel.Rounds

namespace Tarnos.Kernel.Idle

open Foundation.Transition Tarnos.Task Function Inner

variable {E : Type} {a : Kernel.State.Action E}

/-- Where a core is in `park_until_woken` or `notify_idle_cores`. From `entering` on its
interrupts are masked until it leaves or halts. -/
inductive Phase
  | awake
  | notifying (next : ℕ)
  | sending (target : CoreId)
  | entering
  | flagging
  | flagged
  | unflagging
  | halting
  | halted
  | woken
  deriving DecidableEq, Repr

/-- The kernel with the cores' idle flags and pending reschedule IPIs. -/
structure State (E : Type) where
  kernel : Kernel.State E
  phase : CoreId → Phase
  idle : CoreId → Bool
  ipi : CoreId → Bool

def isIdle : Main E → Bool
  | .idle _ => true
  | _ => false

def isTick : Main E → Bool
  | .onTimerTick _ => true
  | _ => false

/-- The step was a call of `ready.push`, and not the one of `on_timer_tick`: `spawn`,
`start_child`, `wake_blocked_process_locked` and `block_current_process_locked` all go on to
`notify_idle_cores`. -/
def notifies (s s' : Kernel.State E) (c : CoreId) : Bool :=
  decide (s.sched.pushes < s'.sched.pushes) &&
    !((s.cores c).errands.isEmpty && isTick (s.cores c).main)

def parks (s s' : Kernel.State E) (c : CoreId) : Bool :=
  (s.cores c).errands.isEmpty && isIdle (s.cores c).main && isIdle (s'.cores c).main

/-- The IPI `terminate_process` sends to the core its target runs on. -/
def evicts (s : Kernel.State E) (c : CoreId) : Option CoreId :=
  if (s.cores c).errands.isEmpty then
    match (s.cores c).main with
    | .killEvict core _ _ => some core
    | _ => none
  else none

def State.init (config : BootConfig E) : State E :=
  ⟨Kernel.State.init config, fun _ ↦ .awake, fun _ ↦ false, fun _ ↦ false⟩

inductive Action (E : Type)
  | kernel (a : Kernel.State.Action E)
  | protocol (c : CoreId)
  | interrupt (c : CoreId)
  | acknowledge (c : CoreId)

namespace State

def setPhase (s : State E) (c : CoreId) (phase : Phase) : State E :=
  { s with phase := update s.phase c phase }

def setIdle (s : State E) (c : CoreId) (flag : Bool) : State E :=
  { s with idle := update s.idle c flag }

def setIpi (s : State E) (c : CoreId) (pending : Bool) : State E :=
  { s with ipi := update s.ipi c pending }

/-- The next step of `notify_idle_cores` or `park_until_woken` on core `c`. A check is a read of
the ready queue under the scheduler lock. `sti; hlt` does not halt with an IPI pending. -/
def protocolStep (s : State E) (c : CoreId) : Option (State E) :=
  match s.phase c with
  | .awake => none
  | .notifying next =>
    if h : next < maxCores then
      if s.idle ⟨next, h⟩ then some (s.setPhase c (.sending ⟨next, h⟩))
      else some (s.setPhase c (.notifying (next + 1)))
    else some (s.setPhase c .awake)
  | .sending target => some ((s.setIpi target true).setPhase c (.notifying (target + 1)))
  | .entering =>
    if s.kernel.sched.ready.isEmpty then some (s.setPhase c .flagging)
    else some (s.setPhase c .awake)
  | .flagging => some ((s.setIdle c true).setPhase c .flagged)
  | .flagged =>
    if s.kernel.sched.ready.isEmpty then some (s.setPhase c .halting)
    else some (s.setPhase c .unflagging)
  | .unflagging => some ((s.setIdle c false).setPhase c .awake)
  | .halting =>
    if s.ipi c then some ((s.setIpi c false).setPhase c .woken) else some (s.setPhase c .halted)
  | .halted => if s.ipi c then some ((s.setIpi c false).setPhase c .woken) else none
  | .woken => some ((s.setIdle c false).setPhase c .awake)

def afterKernel (s s' : Kernel.State E) (c : CoreId) : Phase :=
  if notifies s s' c then .notifying 0 else if parks s s' c then .entering else .awake

variable [DecidableEq E]

/-- A kernel step of a core outside the protocol, a step of the protocol, some other interrupt
that ends a `hlt`, or the delivery of a pending IPI to a core that runs with interrupts enabled. -/
def next (s : State E) : Action E → Option (State E)
  | .kernel a =>
    if s.phase a.core = .awake then
      (s.kernel.next a).map fun kernel ↦
        { kernel := kernel
          phase := update s.phase a.core (afterKernel s.kernel kernel a.core)
          idle := s.idle
          ipi := match evicts s.kernel a.core with
            | some core => update s.ipi core true
            | none => s.ipi }
    else none
  | .protocol c => s.protocolStep c
  | .interrupt c => if s.phase c = .halted then some (s.setPhase c .woken) else none
  | .acknowledge c => if s.phase c = .awake then some (s.setIpi c false) else none

end State

section Kernel

variable [DecidableEq E] {s s' : Kernel.State E}

omit [DecidableEq E] in
theorem queue_popped {sched popped : Inner E} {pid : Option Pid}
    (h : sched.pop = (pid, popped)) : popped.queue = sched.pop.2.queue := by rw [h]

theorem empty_of_tick {f : Arch.TrapFrame}
    (hs : s.next a = some s') (herr : (s.cores a.core).errands = [])
    (hmain : (s.cores a.core).main = .onTimerTick f) (hempty : s.sched.queue = []) :
    s'.sched.queue = [] := by
  have hstep := Kernel.State.step_of_next hs
  unfold Kernel.State.step at hstep
  simp only [herr, hmain, Kernel.State.mainStep, Kernel.State.onTimerTick] at hstep
  split at hstep
  · cases hstep
  · rename_i preempted hpre
    have hnil := queue_tick hpre hempty
    split at hstep
    · rename_i pid popped hpop
      unfold Kernel.State.switchTo at hstep
      split at hstep
      · cases hstep
      · rename_i P sched hswitch
        cases hstep
        have hqueue : sched.queue = popped.queue := (queue_switchTo hswitch).2.1
        exact hqueue.trans ((queue_popped hpop).trans hnil)
    · rename_i popped hpop
      cases hstep
      exact (queue_popped hpop).trans hnil

theorem empty_of_next (hs : s.next a = some s')
    (hquiet : notifies s s' a.core = false) (hempty : s.sched.queue = []) :
    s'.sched.queue = [] := by
  by_cases htick : (s.cores a.core).errands = [] ∧ isTick (s.cores a.core).main = true
  · obtain ⟨herr, htick⟩ := htick
    cases hmain : (s.cores a.core).main with
    | onTimerTick f => exact empty_of_tick hs herr hmain hempty
    | _ =>
      rw [hmain] at htick
      cases htick
  · have hturn := (Kernel.State.next_turn hs).requeues.quiet
    have hpushes : ¬ s.sched.pushes < s'.sched.pushes := by
      intro hlt
      have hnot : ((s.cores a.core).errands.isEmpty && isTick (s.cores a.core).main) = true := by
        unfold notifies at hquiet
        rw [decide_eq_true hlt, Bool.true_and, Bool.not_eq_false'] at hquiet
        exact hquiet
      obtain ⟨herr, hmain⟩ := Bool.and_eq_true_iff.mp hnot
      exact htick ⟨List.isEmpty_iff.mp herr, hmain⟩
    have hle := hturn.le
    exact hturn.empty (by omega) hempty

end Kernel

def Phase.Notifying : Phase → Prop
  | .notifying _ | .sending _ => True
  | _ => False

/-- A core in this phase still has to look at the flag of `c`, or is about to send to it. -/
def Phase.Owes (c : CoreId) : Phase → Prop
  | .notifying next => next ≤ c
  | .sending target => target ≤ c
  | _ => False

theorem Phase.Owes.notifying {c : CoreId} {phase : Phase} (h : phase.Owes c) : phase.Notifying := by
  cases phase with
  | notifying | sending => trivial
  | _ => exact h

def Phase.flags : Phase → Bool
  | .flagged | .unflagging | .halting | .halted | .woken => true
  | _ => false

/-- The core found the queue empty after it set its flag, and has not been woken since. -/
def Phase.rests : Phase → Bool
  | .halting | .halted => true
  | _ => false

/-- What the protocol keeps: a resting core misses nothing, since whoever pushed to the queue it
found empty has sent it an IPI or is going to. -/
structure Served (s : State E) : Prop where
  flag : ∀ c, (s.phase c).flags = true → s.idle c = true
  wake : ∀ c, (s.phase c).rests = true → s.kernel.sched.queue ≠ [] →
    s.ipi c = true ∨ ∃ d, (s.phase d).Owes c

namespace Served

variable {s s' : State E} {c : CoreId}

theorem init (config : BootConfig E) : Served (State.init config) where
  flag := fun _ h ↦ nomatch h
  wake := fun _ h _ ↦ nomatch h

/-- One step of core `c`: its flag agrees with its phase, it forgets no core it owes an IPI, and it
comes to rest only over an empty queue; whoever makes the queue nonempty goes on to notify. -/
theorem step (h : Served s) (hphase : ∀ d ≠ c, s'.phase d = s.phase d)
    (hidle : ∀ d ≠ c, s'.idle d = s.idle d)
    (hflag : (s'.phase c).flags = true → s'.idle c = true)
    (hqueue : s.kernel.sched.queue = [] → s'.kernel.sched.queue ≠ [] → s'.phase c = .notifying 0)
    (hipi : ∀ d, (s'.phase d).rests = true → s.ipi d = true → s'.ipi d = true)
    (howes : ∀ d, (s'.phase d).rests = true → (s.phase c).Owes d →
      (s'.phase c).Owes d ∨ s'.ipi d = true)
    (hrests : (s'.phase c).rests = true → s'.kernel.sched.queue ≠ [] → (s.phase c).rests = true) :
    Served s' := by
  refine ⟨fun d hd ↦ ?_, fun d hd hne ↦ ?_⟩
  · by_cases hdc : d = c
    · subst hdc
      exact hflag hd
    · rw [hidle d hdc]
      rw [hphase d hdc] at hd
      exact h.flag d hd
  · by_cases hempty : s.kernel.sched.queue = []
    · refine .inr ⟨c, ?_⟩
      rw [hqueue hempty hne]
      exact Nat.zero_le _
    · have hrested : (s.phase d).rests = true := by
        by_cases hdc : d = c
        · subst hdc
          exact hrests hd hne
        · rw [← hphase d hdc]
          exact hd
      rcases h.wake d hrested hempty with hpending | ⟨e, howed⟩
      · exact .inl (hipi d hd hpending)
      · by_cases hec : e = c
        · subst hec
          exact (howes d hd howed).symm.imp_right fun hnow ↦ ⟨e, hnow⟩
        · refine .inr ⟨e, ?_⟩
          rw [hphase e hec]
          exact howed

theorem move (h : Served s) {phase : Phase} {flag : Bool} (hkernel : s'.kernel = s.kernel)
    (hphase : s'.phase = update s.phase c phase) (hidle : s'.idle = update s.idle c flag)
    (hflag : phase.flags = true → flag = true)
    (hipi : ∀ d, (d = c → phase.rests = true) → s.ipi d = true → s'.ipi d = true)
    (howes : ∀ d, (update s.phase c phase d).rests = true → (s.phase c).Owes d →
      phase.Owes d ∨ s'.ipi d = true)
    (hrests : phase.rests = true → s.kernel.sched.queue ≠ [] → (s.phase c).rests = true) :
    Served s' := by
  have hself : s'.phase c = phase := by rw [hphase, update_self]
  refine h.step (fun d hd ↦ by rw [hphase, update_of_ne hd])
    (fun d hd ↦ by rw [hidle, update_of_ne hd]) (fun hset ↦ ?_) (fun hempty hne ↦ ?_)
    (fun d hd ↦ hipi d fun hdc ↦ ?_) (fun d hd howed ↦ ?_) (fun hset hne ↦ ?_)
  · rw [hidle, update_self]
    rw [hself] at hset
    exact hflag hset
  · rw [hkernel] at hne
    exact absurd hempty hne
  · rw [← hself, ← hdc]
    exact hd
  · rw [hphase] at hd
    rw [hself]
    exact howes d hd howed
  · rw [hself] at hset
    rw [hkernel] at hne
    exact hrests hset hne

theorem own (h : Served s) {old phase : Phase} {flag : Bool} (hold : s.phase c = old)
    (hnone : ¬ old.Notifying) (hkernel : s'.kernel = s.kernel)
    (hphase : s'.phase = update s.phase c phase) (hidle : s'.idle = update s.idle c flag)
    (hflag : phase.flags = true → flag = true)
    (hipi : ∀ d, (d = c → phase.rests = true) → s.ipi d = true → s'.ipi d = true)
    (hrests : phase.rests = true → s.kernel.sched.queue ≠ [] → old.rests = true) : Served s' := by
  subst hold
  exact h.move hkernel hphase hidle hflag hipi (fun d _ howed ↦ (hnone howed.notifying).elim)
    hrests

theorem passes (h : Served s) {next : ℕ} {hnext : next < maxCores}
    (hphase : s.phase c = .notifying next) (hclear : ¬ s.idle ⟨next, hnext⟩ = true) :
    Served (s.setPhase c (.notifying (next + 1))) := by
  refine h.move rfl rfl (update_eq_self c s.idle).symm nofun (fun _ _ hp ↦ hp)
    (fun d hd howed ↦ .inl ?_) nofun
  rw [hphase] at howed
  have hne : (d : ℕ) ≠ next := by
    rintro rfl
    by_cases hdc : d = c
    · rw [hdc, update_self] at hd
      cases hd
    · rw [update_of_ne hdc] at hd
      have hflags : (s.phase d).flags = true := by
        cases hrest : s.phase d with
        | halting | halted => rfl
        | _ =>
          rw [hrest] at hd
          cases hd
      exact hclear (h.flag d hflags)
  have hle : next ≤ d := howed
  show next + 1 ≤ d
  omega

theorem sends (h : Served s) {target : CoreId} (hphase : s.phase c = .sending target) :
    Served ((s.setIpi target true).setPhase c (.notifying (target + 1))) := by
  refine h.move rfl rfl (update_eq_self c s.idle).symm nofun (fun d _ hp ↦ ?_)
    (fun d _ howed ↦ ?_) nofun
  · show update s.ipi target true d = true
    by_cases hd : d = target
    · rw [hd, update_self]
    · rw [update_of_ne hd]
      exact hp
  · rw [hphase] at howed
    have hle : (target : ℕ) ≤ d := howed
    rcases Nat.lt_or_eq_of_le hle with hlt | heq
    · exact .inl hlt
    · refine .inr ?_
      show update s.ipi target true d = true
      rw [← Fin.ext heq, update_self]

theorem protocol (h : Served s) (hs : s.protocolStep c = some s') : Served s' := by
  have hsame : s.idle = update s.idle c (s.idle c) := (update_eq_self c s.idle).symm
  have hset : (s.phase c).flags = true → s.idle c = true := h.flag c
  have htaken : ∀ {phase : Phase}, phase.rests = false →
      ∀ d, (d = c → phase.rests = true) → s.ipi d = true → update s.ipi c false d = true := by
    intro phase hphase d hd hp
    have hdc : d ≠ c := fun hdc ↦ by
      rw [hd hdc] at hphase
      cases hphase
    rw [update_of_ne hdc]
    exact hp
  unfold State.protocolStep at hs
  cases hphase : s.phase c with
  | awake =>
    rw [hphase] at hs
    cases hs
  | notifying next =>
    simp only [hphase] at hs
    split at hs
    · split at hs
      · cases hs
        refine h.move rfl rfl hsame nofun (fun _ _ hp ↦ hp) (fun d _ howed ↦ .inl ?_) nofun
        rw [hphase] at howed
        exact howed
      · rename_i hclear
        cases hs
        exact h.passes hphase hclear
    · rename_i hend
      cases hs
      refine h.move rfl rfl hsame nofun (fun _ _ hp ↦ hp) (fun d _ howed ↦ False.elim ?_) nofun
      rw [hphase] at howed
      exact hend (lt_of_le_of_lt howed d.isLt)
  | sending target =>
    simp only [hphase] at hs
    cases hs
    exact h.sends hphase
  | entering =>
    simp only [hphase] at hs
    split at hs
    · cases hs
      exact h.own hphase id rfl rfl hsame nofun (fun _ _ hp ↦ hp) nofun
    · cases hs
      exact h.own hphase id rfl rfl hsame nofun (fun _ _ hp ↦ hp) nofun
  | flagging =>
    simp only [hphase] at hs
    cases hs
    exact h.own hphase id rfl rfl rfl (fun _ ↦ rfl) (fun _ _ hp ↦ hp) nofun
  | flagged =>
    rw [hphase] at hset
    simp only [hphase] at hs
    split at hs
    · rename_i hempty
      cases hs
      refine h.own hphase id rfl rfl hsame (fun _ ↦ hset rfl) (fun _ _ hp ↦ hp) fun _ hne ↦ ?_
      exact absurd ((s.kernel.sched.ready.isEmpty_iff).mp hempty) hne
    · cases hs
      exact h.own hphase id rfl rfl hsame (fun _ ↦ hset rfl) (fun _ _ hp ↦ hp) nofun
  | unflagging | woken =>
    simp only [hphase] at hs
    cases hs
    exact h.own hphase id rfl rfl rfl nofun (fun _ _ hp ↦ hp) nofun
  | halting =>
    rw [hphase] at hset
    simp only [hphase] at hs
    split at hs
    · cases hs
      exact h.own hphase id rfl rfl hsame (fun _ ↦ hset rfl) (htaken rfl) nofun
    · cases hs
      exact h.own hphase id rfl rfl hsame (fun _ ↦ hset rfl) (fun _ _ hp ↦ hp) fun _ _ ↦ rfl
  | halted =>
    rw [hphase] at hset
    simp only [hphase] at hs
    split at hs
    · cases hs
      exact h.own hphase id rfl rfl hsame (fun _ ↦ hset rfl) (htaken rfl) nofun
    · cases hs

theorem afterKernel_stirs (s s' : Kernel.State E) (c : CoreId) :
    (State.afterKernel s s' c).flags = false ∧ (State.afterKernel s s' c).rests = false := by
  unfold State.afterKernel
  split
  · exact ⟨rfl, rfl⟩
  · split
    · exact ⟨rfl, rfl⟩
    · exact ⟨rfl, rfl⟩

variable [DecidableEq E]

theorem kernel (h : Served s) {kernel : Kernel.State E}
    {ipi : CoreId → Bool} (hawake : s.phase a.core = .awake)
    (hs : s.kernel.next a = some kernel) (hipi : ∀ d, s.ipi d = true → ipi d = true) :
    Served ⟨kernel, update s.phase a.core (State.afterKernel s.kernel kernel a.core), s.idle,
      ipi⟩ := by
  have hstirs := afterKernel_stirs s.kernel kernel a.core
  refine h.step (c := a.core) (fun d hd ↦ update_of_ne hd _ _) (fun _ _ ↦ rfl) (fun hset ↦ ?_)
    (fun hempty hne ↦ ?_) (fun d _ ↦ hipi d) (fun d _ howed ↦ ?_) (fun hset _ ↦ ?_)
  · dsimp only at hset
    rw [update_self, hstirs.1] at hset
    cases hset
  · dsimp only at hne ⊢
    rw [update_self]
    unfold State.afterKernel
    rw [if_pos]
    by_contra hquiet
    exact hne (empty_of_next hs (Bool.eq_false_iff.mpr hquiet) hempty)
  · rw [hawake] at howed
    exact howed.elim
  · dsimp only at hset
    rw [update_self, hstirs.2] at hset
    cases hset

theorem next {a : Action E} (h : Served s) (hs : s.next a = some s') : Served s' := by
  cases a with
  | kernel a =>
    simp only [State.next] at hs
    split at hs
    · rename_i hawake
      obtain ⟨kernel, hkernel, rfl⟩ := Option.map_eq_some_iff.mp hs
      refine h.kernel hawake hkernel fun d hp ↦ ?_
      cases evicts s.kernel a.core with
      | none => exact hp
      | some core =>
        dsimp only
        by_cases hd : d = core
        · rw [hd, update_self]
        · rw [update_of_ne hd]
          exact hp
    · cases hs
  | protocol c => exact h.protocol hs
  | interrupt c =>
    simp only [State.next] at hs
    split at hs
    · rename_i hhalted
      cases hs
      refine h.own hhalted id rfl rfl (update_eq_self c s.idle).symm (fun _ ↦ ?_)
        (fun _ _ hp ↦ hp) nofun
      exact h.flag c (by rw [hhalted]; rfl)
    · cases hs
  | acknowledge c =>
    simp only [State.next] at hs
    split at hs
    · rename_i hawake
      cases hs
      refine h.own hawake id rfl (update_eq_self c s.phase).symm (update_eq_self c s.idle).symm
        (fun hset ↦ h.flag c hset) (fun d hd hp ↦ ?_) (fun hset _ ↦ hawake ▸ hset)
      have hdc : d ≠ c := fun hdc ↦ by
        have hrests := hd hdc
        rw [hawake] at hrests
        cases hrests
      show update s.ipi c false d = true
      rw [update_of_ne hdc]
      exact hp
    · cases hs

end Served

variable [DecidableEq E]

/-- An idle core misses no work: when every push has been notified, a core that halted has an IPI
pending or the ready queue is empty. -/
theorem halted_core_served (config : BootConfig E) (s : State E)
    (h : Reach State.next (fun _ _ ↦ True) (State.init config) s)
    (hnotified : ∀ d, ¬ (s.phase d).Notifying) (c : CoreId) (hhalted : s.phase c = .halted) :
    s.ipi c = true ∨ s.kernel.sched.queue = [] := by
  have hserved : Served s :=
    h.invariant (Served.init config) fun _ _ _ hserved _ hnext ↦ hserved.next hnext
  by_cases hempty : s.kernel.sched.queue = []
  · exact .inr hempty
  · have hrests : (s.phase c).rests = true := by rw [hhalted]; rfl
    rcases hserved.wake c hrests hempty with hpending | ⟨d, howed⟩
    · exact .inl hpending
    · exact (hnotified d howed.notifying).elim

def pairConfig : BootConfig Unit where
  online := fun c ↦ c == 1
  processes := [⟨[]⟩]

def kernelStep (c : CoreId) (choice : Choice Unit) : Action Unit := .kernel ⟨c, choice⟩

def haltThenSpawn : List (Action Unit) :=
  [kernelStep 1 .go, kernelStep 1 .go] ++ List.replicate 4 (.protocol 1) ++
    [kernelStep 0 .go, kernelStep 0 .go, kernelStep 0 (.image 0x400000 7)] ++
    List.replicate 10 (.protocol 0)

theorem halted_core_served_spawn : ∃ s : State Unit,
    Reach State.next (fun _ _ ↦ True) (State.init pairConfig) s ∧
      (∀ d, ¬ (s.phase d).Notifying) ∧ s.phase 1 = .halted ∧ s.kernel.sched.queue ≠ [] ∧
      (s.ipi 1 = true ∨ s.kernel.sched.queue = []) := by
  refine exists_of_run haltThenSpawn (by decide +kernel) fun s hreach
    (hstate : (∀ d, s.phase d = if d = 1 then .halted else .awake) ∧ s.kernel.sched.queue ≠ []) ↦ ?_
  obtain ⟨hphase, hqueue⟩ := hstate
  have hnotified : ∀ d, ¬ (s.phase d).Notifying := by
    intro d
    rw [hphase d]
    split
    · exact id
    · exact id
  exact ⟨hnotified, hphase 1, hqueue,
    halted_core_served pairConfig s hreach hnotified 1 (hphase 1)⟩

end Tarnos.Kernel.Idle
