import Tarnos.Kernel.Fates
import Tarnos.Kernel.Wrap

namespace Tarnos.Kernel

open Abi Arch Kcore Tarnos.Task Foundation.Transition Function Inner SyscallError

variable {E : Type}

def Call.lifecycle : Call → Bool
  | .grant | .processStart | .wait | .kill => true
  | _ => false

/-- The target and the caller of a call that is about to check its target, and its registers. -/
def Main.asks : Main E → Option (Pid × Pid × TrapFrame)
  | .grant target _ _ caller f | .startChild target caller f | .waitForChild target caller f
  | .killCheck target caller f => some (target, caller, f)
  | _ => none

def Main.returns : Main E → Option UInt64
  | .leave f => some f.rax
  | _ => none

namespace State

/-- The target is a child of the caller, in a state in which the call may have it. -/
def Permits (s : State E) : Main E → Prop
  | .grant target _ _ caller _ | .startChild target caller _ =>
    ∃ P, s.sched.view target = .occupied P ∧ P.parent = some caller ∧ P.state = .suspended
  | .waitForChild target caller _ =>
    (∃ P, s.sched.view target = .occupied P ∧ P.parent = some caller) ∨
      ∃ status, s.sched.view target = .zombie caller status
  | .killCheck target caller _ => ∃ P, s.sched.view target = .occupied P ∧ P.parent = some caller
  | _ => True

/-- A call for a target it may not have returns `InvalidTarget` and does nothing else. What comes
before that check only looks: `SYS_GRANT` at its own capability, which it may fail to find. -/
structure Refuses [DecidableEq E] (s : State E) : Prop where
  enters : ∀ a s' call f, s.next a = some s' → (s.cores a.core).errands = [] →
    (s.cores a.core).main = .withCurrent call f → s'.sched = s.sched
  arrives : ∀ a s' call pid f P, s.next a = some s' → (s.cores a.core).errands = [] →
    (s.cores a.core).main = .withProcess call pid f → call.lifecycle = true →
    s.sched.occupiedMut pid = some P → s'.sched = s.sched ∧
      ((s'.cores a.core).main.asks = some (⟨f.rdi⟩, P.pid, f) ∨ call = .grant ∧
        ∃ e, resolveGrant P f = .error e ∧ (s'.cores a.core).main = .leave (f.withRax e.toRax))
  refused : ∀ a s' target caller f, s.next a = some s' → (s.cores a.core).errands = [] →
    (s.cores a.core).main.asks = some (target, caller, f) → ¬ s.Permits (s.cores a.core).main →
    s' = s.goto a.core (.leave (f.withRax invalidTarget.toRax)) []

/-- A process goes only if it ends itself, or its parent kills it, or it is a suspended child of
one that goes so. -/
structure KillsOnly [DecidableEq E] (s : State E) : Prop where
  kills : ∀ c target, (s.cores c).main.kills = some target →
    ∃ caller, s.sched.current c = some caller ∧ ChildOf s.sched.table caller target
  removes : ∀ a s' p P, s.next a = some s' → s.sched.view p = .occupied P →
    ¬ s'.sched.table.Live p → (s.cores a.core).errands = [] ∧
      ∃ q, (p = q ∨ P.parent = some q ∧ P.state = .suspended) ∧
        ((s.sched.current a.core = some q ∧ ∃ status, (s.cores a.core).main = .finalize q status) ∨
          ∃ f, (s.cores a.core).main = .killScan q f)

section Steps

variable {s s' : State E} {a : Action E} {p target caller : Pid} {P : Process E} {f : TrapFrame}
  {call : Call}

theorem startChild_error {e : SyscallError} (h : s.sched.startChild target caller = .error e) :
    e = .invalidTarget := by
  unfold Inner.startChild at h
  split at h
  · cases h
    rfl
  · split at h
    · cases h
      rfl
    · cases h

variable [DecidableEq E]

theorem callOn_lifecycle (h : call.lifecycle = true) :
    (callOn P f call).asks = some (⟨f.rdi⟩, P.pid, f) ∨ call = .grant ∧
      ∃ e, resolveGrant P f = .error e ∧ callOn P f call = .leave (f.withRax e.toRax) := by
  cases call with
  | grant =>
    cases hresolve : resolveGrant P f with
    | error e => exact .inr ⟨rfl, e, rfl, by rw [callOn, hresolve]; rfl⟩
    | ok held => exact .inl (by rw [callOn, hresolve]; rfl)
  | processStart | wait | kill => exact .inl rfl
  | _ => cases h

theorem refused_of_asks (hs : s.next a = some s') (herr : (s.cores a.core).errands = [])
    (hasks : (s.cores a.core).main.asks = some (target, caller, f))
    (hno : ¬ s.Permits (s.cores a.core).main) :
    s' = s.goto a.core (.leave (f.withRax invalidTarget.toRax)) [] := by
  have hstep := step_of_next hs
  unfold step at hstep
  cases hmain : (s.cores a.core).main with
  | grant target dest slot caller f =>
    rw [hmain] at hasks hno
    cases hasks
    simp only [herr, hmain, mainStep, grant] at hstep
    split at hstep
    · cases hstep
      rfl
    · rename_i P hP
      split at hstep
      · cases hstep
        rfl
      · rename_i hchild
        refine absurd ⟨P, occupiedMut_eq_some.mp hP, ?_⟩ hno
        simpa using hchild
  | startChild target caller f =>
    rw [hmain] at hasks hno
    cases hasks
    simp only [herr, hmain, mainStep, startChild] at hstep
    cases hstart : s.sched.startChild target caller with
    | error e =>
      simp only [hstart] at hstep
      cases hstep
      rw [startChild_error hstart]
    | ok sched =>
      obtain ⟨P, hP, hparent, hstate, -⟩ := startChild_ok hstart
      exact absurd ⟨P, hP, hparent, hstate⟩ hno
  | waitForChild target caller f =>
    rw [hmain] at hasks hno
    cases hasks
    have hwait : s.sched.waitOutcome target caller = .invalid := by
      rw [waitOutcome_eq]
      split
      · rename_i parent status hview
        exact if_neg fun hparent ↦ hno (.inr ⟨status, by rw [hview, hparent]⟩)
      · rename_i P hview
        exact if_neg fun hparent ↦ hno (.inl ⟨P, hview, hparent⟩)
      · rfl
    simp only [herr, hmain, mainStep, waitForChild, hwait] at hstep
    cases hstep
    rfl
  | killCheck target caller f =>
    rw [hmain] at hasks hno
    cases hasks
    have hmay : s.sched.mayTerminate target caller = false :=
      Bool.eq_false_iff.mpr fun hmay ↦ hno (mayTerminate_iff.mp hmay)
    simp only [herr, hmain, mainStep, hmay] at hstep
    cases hstep
    rfl
  | _ =>
    rw [hmain] at hasks
    cases hasks

theorem refuses (s : State E) : s.Refuses := by
  refine ⟨fun a s' call f hs herr hmain ↦ ?_, fun a s' call pid f P hs herr hmain hcall hP ↦ ?_,
    fun a s' target caller f hs herr hasks hno ↦ refused_of_asks hs herr hasks hno⟩
  · have hstep := mainStep_of_next hs herr hmain
    simp only [mainStep, withCurrent] at hstep
    split at hstep <;> (cases hstep; rfl)
  · have hstep := mainStep_of_next hs herr hmain
    simp only [mainStep, withProcess, hP] at hstep
    cases hstep
    have hwrites : callWrites call P = P := by
      cases call with
      | setHeapEnd _ _ => cases hcall
      | _ => rfl
    refine ⟨?_, by rw [goto_main]; exact callOn_lifecycle hcall⟩
    rw [hwrites, setProcess_self (occupiedMut_eq_some.mp hP)]
    change (recordResolve _ P f call).sched = s.sched
    unfold recordResolve
    split <;> rfl

variable [Fintype E]

theorem Inv.removes (h : s.Inv False) (hs : s.next a = some s') (hP : s.sched.view p = .occupied P)
    (hgone : ¬ s'.sched.table.Live p) : ∃ q status, s.terminates a.core = some (q, status) ∧
      (p = q ∨ P.parent = some q ∧ P.state = .suspended) := by
  have hfate := h.fate (p := p) (next_turn hs)
  have hlive : ∀ P', s'.sched.view p ≠ .occupied P' := fun P' hP' ↦ hgone ⟨P', hP'⟩
  generalize s'.sched.view p = slot at hfate hlive
  rw [hP] at hfate
  cases hfate with
  | same | rewritten _ | orphaned _ _ _ _ _ => exact absurd rfl (hlive _)
  | ended hends _ => exact ⟨p, _, hends, .inl rfl⟩
  | reaped hends _ hparent hstate _ => exact ⟨_, _, hends, .inr ⟨hparent, hstate⟩⟩

theorem killsOnly_of_inv (h : s.Inv False) : s.KillsOnly := by
  refine ⟨h.scene.cores.kills, fun a s' p P hs hP hgone ↦ ?_⟩
  obtain ⟨q, status, hends, hp⟩ := h.removes hs hP hgone
  obtain ⟨herr, hmain | ⟨f, hmain, -⟩⟩ := terminates_cases hends
  · exact ⟨herr, q, hp, .inl ⟨h.current_of_caller hmain rfl, status, hmain⟩⟩
  · exact ⟨herr, q, hp, .inr ⟨f, hmain⟩⟩

/-- Calls refuse the targets they may not have, in every state. Without a counter wrapping, only
the target of a kill goes, and its suspended children. -/
theorem targets_of_reach (config : BootConfig E) (s : State E) : s.Refuses ∧
    (Reach next State.NoWrap (init config) s → s.KillsOnly) :=
  ⟨refuses s, fun h ↦ killsOnly_of_inv (inv_of_noWrap (fun _ _ hok ↦ hok) h)⟩

end Steps

theorem targets_of_reach_killChild :
    ∃ s, Reach next State.NoWrap (init soloEndpoint) s ∧
      (s.cores 0).main.kills = some twin ∧ s.Refuses ∧ s.KillsOnly := by
  refine exists_of_run (bootSolo ++ spawnOn 0 1 ++ serve 0 sysKill twin.raw 3)
    (by decide +kernel) fun s hreach (hkills : (s.cores 0).main.kills = some twin) ↦ ?_
  obtain ⟨hrefuses, honly⟩ := targets_of_reach soloEndpoint s
  exact ⟨hkills, hrefuses, honly hreach⟩

def grantNothing : List (Action Unit) :=
  bootSolo ++ [⟨0, .trap .syscall { userFrame with rax := sysGrant, rdi := twin.raw, rsi := 5 }⟩] ++
    advance 0 2

/-- `SYS_GRANT` on a pid that nobody has returns `BadCapability`. A kill whose target's slot has been
given to another process finalizes that one. -/
theorem target_misjudged :
    (∃ s, Reach next (fun _ _ ↦ True) (init soloEndpoint) s ∧
      s.sched.occupiedMut twin = none ∧
      (s.cores 0).main.returns = some badCapability.toRax) ∧
    ∃ s s', Reach next (fun _ _ ↦ True) (init soloEndpoint) s ∧
      (s.cores 2).main.kills = some (Pid.new 2 1) ∧ s.next (go 2) = some s' ∧
      (s.sched.occupiedMut (Pid.new 2 2)).map (·.parent) = some (some (Pid.new 0 1)) ∧
      s'.sched.occupiedMut (Pid.new 2 2) = none := by
  constructor
  · refine exists_of_run grantNothing (by decide +kernel) fun s _
      (hholds : (s.sched.occupiedMut twin).isNone = true ∧
        (s.cores 0).main.returns = some badCapability.toRax) ↦ ?_
    exact ⟨Option.isNone_iff_eq_none.mp hholds.1, hholds.2⟩
  · obtain ⟨s, hreach, hkills, hparent, hnext⟩ : ∃ s,
        Reach next (fun _ _ ↦ True) (init soloEndpoint) s ∧
        (s.cores 2).main.kills = some (Pid.new 2 1) ∧
        (s.sched.occupiedMut (Pid.new 2 2)).map (·.parent) = some (some (Pid.new 0 1)) ∧
        (s.next (go 2)).any (fun s' ↦ (s'.sched.occupiedMut (Pid.new 2 2)).isNone) = true :=
      exists_of_runWrapped 1 leaveTraces (killAfterExit.take 72) (by decide +kernel) fun _ h ↦ h
    obtain ⟨s', hs', hnone⟩ := (Option.any_eq_true _ _).mp hnext
    exact ⟨s, s', hreach, hkills, hs', hparent, Option.isNone_iff_eq_none.mp hnone⟩

end State

end Tarnos.Kernel
