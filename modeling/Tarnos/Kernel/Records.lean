import Tarnos.Kernel.Spawning

namespace Tarnos.Kernel

open Abi Arch Kcore Tarnos.Task Function Inner

variable {E : Type} {sched : Inner E}

namespace State

/-- Where the record `P'` of slot `i` comes from: it was there before the step of core `a.core` and
changed as `R` allows, or the step wrote it. -/
inductive Descent (R : Process E → Process E → Prop) (s : State E) (a : Action E)
    (i : Fin maxProcesses) (P' : Process E) : Prop
  | kept {P : Process E} (hP : s.sched.processes i = .occupied P) (h : R P P')
  | spawned {f : TrapFrame} (hmain : (s.cores a.core).main = .spawnSuspended P' f)
  | booted {pid : Pid} {boot : BootProcess E} {rest : List (BootProcess E)} {frame : ℕ}
      {entry : UInt64} (herr : (s.cores a.core).errands = [])
      (hmain : (s.cores a.core).main = .bootSpawn pid boot rest)
      (hchoice : a.choice = .image entry frame) (hP' : P' = boot.process pid frame entry)

section Steps

variable {s s' b : State E} {a : Action E} {c : CoreId} {m : Main E}
  {R : Process E → Process E → Prop} {frames : TrapFrame → Prop} {i : Fin maxProcesses}
  {P' : Process E}

theorem Yields.evolves (hR : Process.Allows R frames) (h : s.Yields c m b)
    (hf : ∀ f, m.saves = some f → frames f) : s.sched.Evolves R b.sched := by
  cases h with
  | tick hpre => exact .preemptCurrent hR (hf _ rfl) hpre
  | block hblock => exact .blockCurrentProcessLocked hR (hf _ rfl) hblock
  | wait _ hblock =>
    exact .trans hR (.waitForChild hR _ _) (.blockCurrentProcessLocked hR (hf _ rfl) hblock)
  | evict => exact .of_processes hR rfl rfl
  | next | idle => exact .refl hR _

theorem Descent.of_evolves (h : s.sched.Evolves R sched) (hP' : sched.processes i = .occupied P') :
    s.Descent R a i P' := by
  obtain ⟨P, hP, hchange⟩ := h.occupied i P' hP'
  exact .kept hP hchange

theorem Descent.of_same (hR : Process.Allows R frames) (h : sched = s.sched)
    (hP' : sched.processes i = .occupied P') : s.Descent R a i P' :=
  .kept (h ▸ hP') (hR.refl P')

theorem Descent.of_write (hR : Process.Allows R frames) {k : Fin maxProcesses} {slot : Slot E}
    (ht : sched.processes = update s.sched.processes k slot)
    (hslot : ∀ P, slot = .occupied P → s.Descent R a k P) (hP' : sched.processes i = .occupied P') :
    s.Descent R a i P' := by
  rw [ht] at hP'
  by_cases hi : i = k
  · subst hi
    rw [update_self] at hP'
    exact hslot P' hP'
  · rw [update_of_ne hi] at hP'
    exact .kept hP' (hR.refl P')

theorem Descent.of_allocate (hR : Process.Allows R frames)
    (hP' : (s.sched.allocatePid s.stackBusy).2.processes i = .occupied P') : s.Descent R a i P' := by
  unfold Inner.allocatePid at hP'
  split at hP'
  · exact .of_same hR rfl hP'
  · exact .of_write hR rfl (fun P hP ↦ by cases hP) hP'

theorem Descent.of_release (hR : Process.Allows R frames) {p : Pid}
    (hP' : (s.sched.releaseReservation p).processes i = .occupied P') : s.Descent R a i P' := by
  unfold releaseReservation at hP'
  split at hP'
  · exact .of_same hR rfl hP'
  · split at hP'
    · exact .of_same hR rfl hP'
    · split at hP'
      · exact .of_write hR rfl (fun P hP ↦ by cases hP) hP'
      · exact .of_same hR rfl hP'

variable [DecidableEq E]

theorem Descent.of_boot (hR : Process.Allows R frames) {pid : Pid} {boot : BootProcess E}
    {rest : List (BootProcess E)} (hs : s.next a = some s')
    (herr : (s.cores a.core).errands = [])
    (hmain : (s.cores a.core).main = .bootSpawn pid boot rest)
    (hP' : s'.sched.processes i = .occupied P') : s.Descent R a i P' := by
  obtain ⟨entry, frame, sched, hchoice, hspawn, hsched⟩ := bootSpawn_of_next herr hmain hs
  rw [hsched] at hP'
  unfold spawn at hspawn
  split at hspawn
  · cases hspawn
  · cases hspawn
    refine .of_write hR rfl (fun P hP ↦ ?_) hP'
    exact .booted herr hmain hchoice (Slot.occupied.inj hP).symm

/-- Every record after a step comes from one before it, if `R` also allows what the calls and the
grants write, or is new. -/
theorem next_descent (hR : Process.Allows R frames)
    (hsaves : ∀ f, (s.cores a.core).main.saves = some f → frames f)
    (hcalls : ∀ call pid f P, (s.cores a.core).main = .withProcess call pid f →
      s.sched.occupiedMut pid = some P → R P (callWrites call P))
    (hgrants : ∀ P dest slot, R P { P with capTable := P.capTable.insert dest slot })
    (hs : s.next a = some s') (hP' : s'.sched.processes i = .occupied P') : s.Descent R a i P' := by
  cases next_turn hs with
  | bootSpawn herr hmain => exact .of_boot hR hs herr hmain hP'
  | spawn _ hmain hspawn =>
    unfold Inner.spawnSuspended at hspawn
    split at hspawn
    · cases hspawn
    · cases hspawn
      refine .of_write hR rfl (fun P hP ↦ ?_) hP'
      cases hP
      exact .spawned hmain
  | pollSend _ _ htrade | pollRecv _ _ htrade | wakeReceiver _ _ htrade
  | takeWaitingReceiver _ _ htrade | trySend _ _ _ htrade | tryRecv _ _ _ htrade =>
    exact .of_same hR htrade.sched hP'
  | wake => exact .of_evolves (.wake hR _ _) hP'
  | bootAllocate | allocate => exact .of_allocate hR hP'
  | release => exact .of_release hR hP'
  | @record call pid f P _ hmain hP =>
    have hrecord := (recordResolve_fields (f := f)
      (s := s.withSched (s.sched.setProcess pid (callWrites call P))) P call).2.2.1
    have hevolves := Inner.Evolves.setProcess hR (Inner.occupiedMut_eq_some.mp hP)
      (congrArg Inner.processes hrecord) (congrArg Inner.generations hrecord)
      (hcalls call pid f P hmain hP)
    exact .of_evolves hevolves hP'
  | grant _ _ hP =>
    exact .of_evolves
      (.setProcess hR (Inner.occupiedMut_eq_some.mp hP) rfl rfl (hgrants _ _ _)) hP'
  | start _ _ hstart => exact .of_evolves (.startChild hR hstart) hP'
  | collect => exact .of_evolves (.waitForChild hR _ _) hP'
  | kill | exit => exact .of_evolves (.finalize hR _ _) hP'
  | dispatch _ hmain hyields hpop hswitch =>
    have hb := hyields.evolves hR (hmain ▸ hsaves)
    exact .of_evolves (.trans hR (.trans hR hb (.pop hR hpop)) (.switchTo hR hswitch)) hP'
  | abandon _ hmain hyields hpop =>
    have hb := hyields.evolves hR (hmain ▸ hsaves)
    exact .of_evolves (.trans hR hb (.pop hR hpop)) hP'
  | resumeTick _ hmain hpre hpop =>
    have hb := (Yields.tick hpre).evolves hR (hmain ▸ hsaves)
    exact .of_evolves (.trans hR hb (.pop hR hpop)) hP'
  | rest _ _ hpop => exact .of_evolves (.pop hR hpop) hP'
  | _ => exact .of_same hR rfl hP'

end Steps

end State

end Tarnos.Kernel
