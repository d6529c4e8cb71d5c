import Tarnos.Kernel.Records
import Tarnos.Task.Resume

namespace Tarnos.Kernel

open Abi Arch Kcore Tarnos.Task Foundation.Transition Function Inner

variable {E : Type}

namespace State

/-- The frame an action brings into the kernel that a process may later be resumed from: the
registers of a trap, unless the process ends there, or the first frame of a loaded image. -/
def Action.brings (a : Action E) : Option TrapFrame :=
  match a.choice with
  | .trap .fault _ => none
  | .trap _ f => some f
  | .image entry _ => some (TrapFrame.initialUserFrame entry userStackTop)
  | _ => none

/-- The instruction and stack pointers that come with the action are below the limit. -/
def Action.InUserSpace (a : Action E) : Prop :=
  ∀ f, a.brings = some f → f.rip < userAddressLimit ∧ f.rsp < userAddressLimit

instance (a : Action E) : Decidable a.InUserSpace :=
  inferInstanceAs (Decidable (∀ f ∈ a.brings, f.rip < userAddressLimit ∧
    f.rsp < userAddressLimit))

section Steps

variable {s s' : State E} {a : Action E} {c : CoreId}

/-- Every frame the kernel may resume from passes: those of the table, of the traps being served and
of the processes being created. -/
structure Framed (s : State E) : Prop where
  stored : s.sched.Ready
  saves : ∀ c f, (s.cores c).main.saves = some f → Resumable f
  child : ∀ c P, (s.cores c).main.child = some P → Resumable P.trapFrame

theorem InUserSpace.initial {f : TrapFrame} {entry : UInt64} (ha : a.InUserSpace)
    (hf : a.brings = some f) (hinit : f = TrapFrame.initialUserFrame entry userStackTop) :
    Resumable f := by
  obtain ⟨hrip, -⟩ := ha f hf
  subst hinit
  exact Resumable.initialUserFrame hrip

theorem Framed.init (config : BootConfig E) : (State.init config).Framed := by
  refine ⟨fun i P hP ↦ ?_, fun c f hf ↦ ?_, fun c P hP ↦ ?_⟩
  · cases hP
  · simp only [State.init] at hf
    split_ifs at hf <;> cases hf
  · simp only [State.init] at hP
    split_ifs at hP <;> cases hP

variable [DecidableEq E]

theorem brings_of_trap {g f : TrapFrame} (hs : s.next a = some s')
    (herr : (s.cores a.core).errands = []) (hmain : (s.cores a.core).main = .user g)
    (hf : (s'.cores a.core).main.saves = some f) : a.brings = some f ∧ ring3Frame f = true := by
  have hstep := mainStep_of_next hs herr hmain
  simp only [mainStep, trap] at hstep
  split at hstep
  · rename_i kind f' hchoice
    split at hstep
    · rename_i hring
      cases hstep
      rw [setCore_self] at hf
      cases saves_trapMain hf
      refine ⟨?_, hring⟩
      cases kind with
      | fault => cases hf
      | _ => simp only [Action.brings, hchoice]
    · cases hstep
  · cases hstep

theorem Framed.step_panic {choice : Choice E} {reason : Panic} (h : s.Framed)
    (hs : s.step c choice = .panic reason) : reason.ofFrame = false := by
  cases step_fails hs with
  | dispatch hmain hyields hpop hswitch =>
    have hb := hyields.evolves Process.Steady.allows (hmain ▸ h.saves c)
    have hpopped := hb.trans Process.Steady.allows (.pop Process.Steady.allows hpop)
    exact (h.stored.evolves hpopped).switchTo hswitch
  | index | queue | frame | entry | boot => rfl

section

variable (h : s.Framed) (ha : a.InUserSpace) (hs : s.next a = some s')

include h ha hs

theorem Framed.next_stored : s'.sched.Ready := by
  intro i P' hP'
  have hcalls : ∀ call pid f P, (s.cores a.core).main = .withProcess call pid f →
      s.sched.occupiedMut pid = some P → Process.Steady P (callWrites call P) := by
    intro call pid f P _ _
    cases call <;> exact id
  cases next_descent Process.Steady.allows (h.saves a.core) hcalls (fun _ _ _ ↦ id) hs hP' with
  | kept hP hsteady => exact hsteady (h.stored i _ hP)
  | spawned hmain => exact h.child a.core P' (by rw [hmain]; rfl)
  | @booted pid boot rest frame entry herr hmain hchoice hnew =>
    subst hnew
    refine InUserSpace.initial ha ?_ rfl
    simp only [Action.brings, hchoice, BootProcess.process, Process.new]

theorem Framed.next_saves (d : CoreId) (f : TrapFrame) (hf : (s'.cores d).main.saves = some f) :
    Resumable f := by
  by_cases hd : d = a.core
  · subst hd
    cases (next_turn hs).serves hf with
    | trapped herr hmain =>
      obtain ⟨hbrings, hring⟩ := brings_of_trap hs herr hmain hf
      obtain ⟨hrip, hrsp⟩ := ha f hbrings
      obtain ⟨hcs, hss⟩ := Bool.and_eq_true_iff.mp hring
      exact ⟨of_decide_eq_true hcs, hrip, of_decide_eq_true hss, hrsp⟩
    | errand _ hmain => exact h.saves a.core f (hmain ▸ hf)
    | serves _ hold _ _ => exact h.saves a.core f hold
  · rw [(next_turn hs).others hd] at hf
    exact h.saves d f hf

theorem Framed.next_child (d : CoreId) (P : Process E) (hP : (s'.cores d).main.child = some P) :
    Resumable P.trapFrame := by
  by_cases hd : d = a.core
  · subst hd
    rcases (next_turn hs).child hP with ⟨-, hsame⟩ | ⟨herr, caller, child, f, hmain⟩
    · exact h.child a.core P (hsame ▸ hP)
    · obtain ⟨-, entry, frame, hchoice, rfl⟩ := child_of_load hs herr hmain hP
      refine InUserSpace.initial ha ?_ rfl
      simp only [Action.brings, hchoice, Process.new]
  · rw [(next_turn hs).others hd] at hP
    exact h.child d P hP

theorem Framed.next : s'.Framed :=
  ⟨h.next_stored ha hs, h.next_saves ha hs, h.next_child ha hs⟩

end

/-- In every run whose traps and images stay below the limit, every process in the table passes the
assertions of `switch_to`, and no step of any core ends in one of them. -/
theorem resumes_of_reach (config : BootConfig E) (s : State E)
    (h : Reach next (fun _ a ↦ a.InUserSpace) (init config) s) :
    (∀ i P, s.sched.processes i = .occupied P → frameAssertions P.trapFrame = .ok ()) ∧
      ∀ c choice reason, s.step c choice = .panic reason → reason.ofFrame = false := by
  have hframed : s.Framed := h.invariant (I := fun t : State E ↦ t.Framed) (Framed.init config)
    fun t a u ht ha hs ↦ ht.next ha hs
  exact ⟨fun i P hP ↦ frameAssertions_eq_ok.mpr (hframed.stored i P hP),
    fun c choice reason hs ↦ hframed.step_panic hs⟩

end Steps

def yieldWith (rsp : UInt64) : TrapFrame := { userFrame with rax := sysYield, rsp := rsp }

theorem resumes_of_reach_yield :
    ∃ s, Reach next (fun _ a ↦ a.InUserSpace) (init soloEndpoint) s ∧
      (s.cores 0).main.saves = some (yieldWith userStackTop) ∧
      ∀ c choice reason, s.step c choice = .panic reason → reason.ofFrame = false := by
  refine exists_of_run (bootSolo ++ [⟨0, .trap .syscall (yieldWith userStackTop)⟩])
    (by decide +kernel) fun s hreach
    (hsaves : (s.cores 0).main.saves = some (yieldWith userStackTop)) ↦ ?_
  exact ⟨hsaves, (resumes_of_reach soloEndpoint s hreach).2⟩

/-- A process that yields with its stack pointer in the kernel's half stops the kernel when it is
dispatched again, and so does an image whose header puts the entry there. -/
theorem frame_panics :
    (∃ s, Reach next (fun _ _ ↦ True) (init soloEndpoint) s ∧
      (s.cores 0).main.saves = some (yieldWith 0x8000_0000_0000_0000) ∧
      s.step 0 .go = .panic .frameRsp) ∧
    ∃ s, Reach next (fun _ _ ↦ True) (init soloEndpoint) s ∧
      s.step 0 .go = .panic .frameRip := by
  constructor
  · refine exists_of_run (bootSolo ++ [⟨0, .trap .syscall (yieldWith 0x8000_0000_0000_0000)⟩])
      (by decide +kernel) fun s _
      (hholds : (s.cores 0).main.saves = some (yieldWith 0x8000_0000_0000_0000) ∧
        (s.step 0 .go).panics .frameRsp = true) ↦ ?_
    exact ⟨hholds.1, Outcome.eq_of_panics hholds.2⟩
  · refine exists_of_run (advance 0 2 ++ [⟨0, .image 0xffff_8000_0000_0000 0⟩] ++ advance 0 2)
      (by decide +kernel) fun s _ (hpanics : (s.step 0 .go).panics .frameRip = true) ↦ ?_
    exact Outcome.eq_of_panics hpanics

end State

end Tarnos.Kernel
