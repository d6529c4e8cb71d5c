import Tarnos.Kernel.Spaces

namespace Tarnos.Kernel

open Abi Arch Kcore Tarnos.Task Foundation.Transition Function Inner

variable {E : Type}

/-- The points of the kernel that a spawn passes which cannot load its image. -/
def Main.spawning : Main E → Bool
  | .user _ | .withCurrent _ _ | .withProcess _ _ _ | .allocatePid _ _ | .fromElf _ _ _
  | .releaseReservation _ _ | .leave _ => true
  | _ => false

namespace State

def regen (s : State E) (k : Fin maxProcesses) (generation : UInt32) : State E :=
  s.withSched { s.sched with generations := update s.sched.generations k generation }

/-- The registers of a process whose last call was a spawn that could not load its image. -/
def failedSpawn : TrapFrame :=
  { userFrame with rax := sysSpawn }.withRax SyscallError.spawnFailed.toRax

/-- The process on core 0 runs user code after such a spawn, and `k` is the slot the next spawn
gets. -/
structure Spawner (s : State E) (k : Fin maxProcesses) : Prop where
  main : (s.cores 0).main = .user failedSpawn
  errands : (s.cores 0).errands = []
  stack : (s.cores 0).stack = none
  current : ∃ p P, s.sched.current 0 = some p ∧ s.sched.occupiedMut p = some P
  free : s.sched.freeSlot s.stackBusy = some k

def inKernel (s : State E) (sched : Inner E) (main : Main E) (stack : Option Pid) : State E :=
  (s.withSched sched).setCore 0 { s.cores 0 with main := main, errands := [], stack := stack }

variable {s : State E} {k : Fin maxProcesses} {sched sched' : Inner E} {m m' : Main E}
  {stack stack' : Option Pid} {choice : Choice E} {generation : UInt32}

theorem inKernel_goto : ((s.inKernel sched m stack).withSched sched').goto 0 m' [] =
    s.inKernel sched' m' stack := by
  simp [inKernel, goto, withSched, setCore]

theorem releaseReservation_allocate {busy : Fin maxProcesses → Bool}
    (h : sched.freeSlot busy = some k) :
    (sched.allocatePid busy).2.releaseReservation (sched.allocatePid busy).1 =
      { sched with generations := update sched.generations k (sched.generations k + 1) } := by
  have hgen : (Pid.new k (sched.generations k + 1)).generation = sched.generations k + 1 :=
    Pid.generation_new (lt_trans k.isLt (by decide)) _
  have hempty := (Inner.freeSlot_some h).1
  simp only [Inner.allocatePid, h, Inner.releaseReservation, Pid.slot_new, update_self, hgen, ne_eq,
    not_true, if_false, Inner.setSlot, update_idem]
  rw [← hempty, update_eq_self]

theorem regen_self : s.regen k (s.sched.generations k) = s := by
  simp [regen, withSched]

theorem regen_regen {generation' : UInt32} :
    (s.regen k generation).regen k generation' = s.regen k generation' := by
  simp [regen, withSched]

theorem regen_generation : (s.regen k generation).sched.generations k = generation := by
  simp [regen, withSched]

theorem Spawner.regen (h : s.Spawner k) (generation : UInt32) : (s.regen k generation).Spawner k := by
  obtain ⟨p, P, hp, hP⟩ := h.current
  refine ⟨h.main, h.errands, h.stack, ⟨p, P, hp, ?_⟩, h.free⟩
  -- the caller has another slot, whose generation is as before
  have hview := occupiedMut_eq_some.mp hP
  have hne : s.sched.view p ≠ .empty := by rw [hview]; simp
  obtain ⟨i, hslot, hpid⟩ := slot_of_view hne
  have hik : i ≠ k := by
    rintro rfl
    rw [hpid, view_pidAt] at hne
    exact hne (freeSlot_some h.free).1
  unfold occupiedMut at hP ⊢
  rw [hslot] at hP ⊢
  simpa [State.regen, withSched, hik] using hP

def spawns (s : State E) (k : Fin maxProcesses) : Bool :=
  (match (s.cores 0).main with
    | .user f => decide (f = failedSpawn)
    | _ => false) &&
  (s.cores 0).errands.isEmpty && (s.cores 0).stack.isNone &&
  ((s.sched.current 0).bind s.sched.occupiedMut).isSome &&
  decide (s.sched.freeSlot s.stackBusy = some k)

theorem Spawner.of_spawns (h : s.spawns k = true) : s.Spawner k := by
  simp only [spawns, Bool.and_eq_true, List.isEmpty_iff, Option.isNone_iff_eq_none,
    decide_eq_true_eq, Option.isSome_iff_exists, Option.bind_eq_some_iff] at h
  obtain ⟨⟨⟨⟨hmain, herrands⟩, hstack⟩, P, p, hp, hP⟩, hfree⟩ := h
  refine ⟨?_, herrands, hstack, ⟨p, P, hp, hP⟩, hfree⟩
  split at hmain
  · next f hf => rw [hf, of_decide_eq_true hmain]
  · cases hmain

variable [DecidableEq E]

theorem next_inKernel (h : (s.inKernel sched m stack).mainStep 0 m choice =
    .next (s.inKernel sched' m' stack')) :
    (s.inKernel sched m stack).next ⟨0, choice⟩ = some (s.inKernel sched' m' stack') := by
  have herr : ((s.inKernel sched m stack).cores 0).errands = [] := by simp [inKernel, setCore]
  have hmain : ((s.inKernel sched m stack).cores 0).main = m := by simp [inKernel, setCore]
  simp only [next, step, herr, hmain, h, Outcome.toOption]

/-- A core without errands takes a step of a spawn that fails to load its image. -/
def Failing (s : State E) (a : Action E) : Prop :=
  (s.cores a.core).errands = [] ∧ (s.cores a.core).main.spawning = true

theorem Spawner.reach (h : s.Spawner k) : Reach next State.Failing s
    (s.regen k (s.sched.generations k + 1)) := by
  obtain ⟨p, P, hp, hP⟩ := h.current
  have hcore : ∀ sched, s.inKernel sched (.user failedSpawn) none = s.withSched sched := by
    intro sched
    unfold inKernel
    rw [← h.main, ← h.errands, ← h.stack]
    exact congrArg (fun cores ↦ { s.withSched sched with cores := cores }) (update_eq_self 0 s.cores)
  have hstart : s = s.inKernel s.sched (.user failedSpawn) none := (hcore s.sched).symm
  have hend : s.regen k (s.sched.generations k + 1) = s.inKernel
      ((s.sched.allocatePid s.stackBusy).2.releaseReservation (s.sched.allocatePid s.stackBusy).1)
        (.user failedSpawn) none := by
    rw [hcore, releaseReservation_allocate h.free]
    rfl
  let f : TrapFrame := { userFrame with rax := sysSpawn }
  let child := (s.sched.allocatePid s.stackBusy).1
  let reserved := (s.sched.allocatePid s.stackBusy).2
  let onStack := (s.cores 0).rsp0
  have hfailing : ∀ {sched : Inner E} {m : Main E} {stack : Option Pid} {choice : Choice E},
      m.spawning = true → (s.inKernel sched m stack).Failing ⟨0, choice⟩ := by
    intro sched m stack choice hm
    exact ⟨by simp [inKernel, setCore], by simpa [inKernel, setCore] using hm⟩
  have hreach : Reach next State.Failing (s.inKernel s.sched (.user failedSpawn) none)
      (s.inKernel (reserved.releaseReservation child) (.user failedSpawn) none) := by
    have h₁ : (s.inKernel s.sched (.user failedSpawn) none).next ⟨0, .trap .syscall f⟩ =
        some (s.inKernel s.sched (.withCurrent .spawn f) onStack) := by
      refine next_inKernel ?_
      have hring : ring3Frame f = true := by decide
      simp only [mainStep, trap, hring, if_true]
      simp [inKernel, setCore, withSched, trapMain, onStack, syscallDispatch, f, sysSpawn, sysYield,
        sysSend, sysRecv, sysExit]
    have h₂ : (s.inKernel s.sched (.withCurrent .spawn f) onStack).next (go 0) =
        some (s.inKernel s.sched (.withProcess .spawn p f) onStack) := by
      refine next_inKernel ?_
      simp only [mainStep, withCurrent]
      rw [show (s.inKernel s.sched (.withCurrent .spawn f) onStack).sched.current 0 = some p from hp]
      exact congrArg Outcome.next (inKernel_goto)
    have h₃ : (s.inKernel s.sched (.withProcess .spawn p f) onStack).next (go 0) =
        some (s.inKernel s.sched (.allocatePid P.pid f) onStack) := by
      refine next_inKernel ?_
      simp only [mainStep, withProcess]
      rw [show (s.inKernel s.sched (.withProcess .spawn p f) onStack).sched.occupiedMut p = some P
        from hP]
      simp only [callWrites, recordResolve]
      rw [show (s.inKernel s.sched (.withProcess .spawn p f) onStack).sched.setProcess p P = s.sched
        from setProcess_self (occupiedMut_eq_some.mp hP)]
      exact congrArg Outcome.next (inKernel_goto)
    have h₄ : (s.inKernel s.sched (.allocatePid P.pid f) onStack).next (go 0) =
        some (s.inKernel reserved (.fromElf P.pid child f) onStack) :=
      next_inKernel (congrArg Outcome.next (inKernel_goto))
    have h₅ : (s.inKernel reserved (.fromElf P.pid child f) onStack).next ⟨0, .refuse⟩ =
        some (s.inKernel reserved (.releaseReservation child f) onStack) :=
      next_inKernel (congrArg Outcome.next (inKernel_goto))
    have h₆ : (s.inKernel reserved (.releaseReservation child f) onStack).next (go 0) =
        some (s.inKernel (reserved.releaseReservation child) (.leave failedSpawn) onStack) :=
      next_inKernel (congrArg Outcome.next inKernel_goto)
    have h₇ : (s.inKernel (reserved.releaseReservation child) (.leave failedSpawn) onStack).next
        (go 0) = some (s.inKernel (reserved.releaseReservation child) (.user failedSpawn) none) := by
      refine next_inKernel ?_
      simp [mainStep, inKernel, setCore, withSched]
    have hallocated := (((Reach.one (hfailing rfl) h₁).step (hfailing rfl) h₂).step
      (hfailing rfl) h₃).step (hfailing rfl) h₄
    exact ((hallocated.step (hfailing rfl) h₅).step (hfailing rfl) h₆).step (hfailing rfl) h₇
  rw [hend]
  rwa [← hstart] at hreach

theorem Spawner.fails (h : s.Spawner k) (generation : UInt32) :
    Reach next State.Failing s (s.regen k generation) := by
  have hstep : ∀ n : ℕ, Reach next State.Failing
      (s.regen k (s.sched.generations k + UInt32.ofNat n))
      (s.regen k (s.sched.generations k + UInt32.ofNat (n + 1))) := by
    intro n
    have hreach := (h.regen (s.sched.generations k + UInt32.ofNat n)).reach
    rw [regen_generation, regen_regen, UInt32.add_assoc] at hreach
    rwa [UInt32.ofNat_add]
  have hall := Reach.iterate hstep (generation - s.sched.generations k).toNat
  have hstart : s.sched.generations k + UInt32.ofNat 0 = s.sched.generations k := UInt32.add_zero _
  have hend : s.sched.generations k +
      UInt32.ofNat (generation - s.sched.generations k).toNat = generation := by
    rw [UInt32.ofNat_toNat, UInt32.add_comm, UInt32.sub_add_cancel]
  rwa [hstart, regen_self, hend] at hall

theorem Spawner.wrap (h : s.Spawner k) (generation : UInt32) :
    Reach next (fun _ _ ↦ True) s (s.regen k generation) :=
  (h.fails generation).mono fun _ _ _ ↦ trivial

/-- Execute `before`, wrap the counter of slot `k` to 0, and go on with `after`. -/
def wrapFrom (s : State E) (k : Fin maxProcesses) (before after : List (Action E)) :
    Option (State E) :=
  (run next s before).bind fun t ↦
    if t.spawns k then run next (t.regen k 0) after else none

theorem wrapFrom_reach {t : State E} {before after : List (Action E)}
    (h : s.wrapFrom k before after = some t) : Reach next (fun _ _ ↦ True) s t := by
  obtain ⟨u, hu, hafter⟩ := Option.bind_eq_some_iff.mp h
  split at hafter
  · next hspawns =>
    exact (run_reach hu).trans ((Spawner.of_spawns hspawns).wrap 0 |>.trans (run_reach hafter))
  · cases hafter

def runWrapped (config : BootConfig E) (k : Fin maxProcesses) (before after : List (Action E)) :
    Option (State E) :=
  (init config).wrapFrom k before after

theorem runWrapped_reach {config : BootConfig E} {before after : List (Action E)}
    (h : runWrapped config k before after = some s) : Reach next (fun _ _ ↦ True) (init config) s :=
  wrapFrom_reach h

theorem exists_of_runWrapped {config : BootConfig E} {goal P : State E → Prop} [DecidablePred goal]
    (k : Fin maxProcesses) (before after : List (Action E))
    (h : (runWrapped config k before after).any (fun t ↦ decide (goal t)) = true)
    (hgoal : ∀ t, goal t → P t) : ∃ t, Reach next (fun _ _ ↦ True) (init config) t ∧ P t := by
  obtain ⟨t, ht, hholds⟩ := (Option.any_eq_true _ _).mp h
  exact ⟨t, runWrapped_reach ht, hgoal t (of_decide_eq_true hholds)⟩

/-- Boot with one process, which may send to and receive from the only endpoint. -/
def soloEndpoint : BootConfig Unit :=
  ⟨fun _ ↦ true, [⟨[(⟨0⟩, ⟨.endpoint (), Rights.send.union Rights.recv⟩)]⟩]⟩

/-- The pid of the first process in slot 1, and of the first one after its counter has wrapped. -/
def twin : Pid := Pid.new 1 1

def grantTo (child : Pid) (rights : UInt64) : List (Action Unit) :=
  ⟨0, .trap .syscall { userFrame with rax := sysGrant, rdi := child.raw, r10 := rights }⟩ ::
    advance 0 4

/-- A process on core 0 and its child on core 1, which may receive. -/
def bothRun : List (Action Unit) :=
  bootSolo ++ spawnOn 0 1 ++ grantTo twin 2 ++ startOn 0 twin ++ advance 1 3

/-- A child registers as the receiver of the endpoint on core 1 and is about to block when its
parent asks core 1 to evict it. It is then killed and collected, but the endpoint and the request
to core 1 still name it. -/
def leaveTraces : List (Action Unit) :=
  bothRun ++ serve 1 sysRecv 0 3 ++ serve 0 sysKill twin.raw 5 ++ [go 1] ++ advance 0 5 ++
    serve 0 sysWait twin.raw 4 ++ serve 0 sysSpawn 0 3 ++ [⟨0, .refuse⟩] ++ advance 0 2

/-- The twin runs on core 1, which takes the old request for its own. -/
def evictTwin : List (Action Unit) :=
  spawnAndStart 1 twin ++ advance 1 3 ++ [⟨1, .trap .ipi userFrame⟩, go 1]

/-- No core runs the twin and no killer waits for it, but it stays `Running`. -/
def lost (s : State Unit) : Bool :=
  (match s.sched.processes 1 with
    | .occupied P => decide (P.pid = twin ∧ P.state = .running)
    | _ => false) &&
  decide (∀ c, s.sched.current c ≠ some twin ∧ (s.cores c).main.kills ≠ some twin)

theorem consistency_lost : ∃ s, Reach next (fun _ _ ↦ True) (init soloEndpoint) s ∧
    ¬ s.Consistent := by
  refine exists_of_runWrapped 1 leaveTraces evictTwin (by decide +kernel) fun s
    (hlost : lost s = true) hcons ↦ ?_
  obtain ⟨hslot, hcores⟩ := Bool.and_eq_true_iff.mp hlost
  have hcores := of_decide_eq_true hcores
  split at hslot
  · next P hP =>
    obtain ⟨hpid, hstate⟩ := of_decide_eq_true hslot
    have hrunning := (hcons.running 1 P hP hstate).2
    rw [hpid] at hrunning
    rcases hrunning with ⟨c, hc, -⟩ | ⟨-, c, hc⟩
    · exact (hcores c).1 hc
    · exact (hcores c).2 hc
  · cases hslot

/-- The twin, on core 2, waits for a child of its own on core 3. The message that the old
registration claims wakes it, and it goes on to kill the child, which exits first; another process
gets the child's slot, and core 3 runs it. The twin then finalizes that process. -/
def killAfterExit : List (Action Unit) :=
  spawnAndStart 1 twin ++ advance 2 3 ++ spawnOn 2 2 ++ startOn 2 (Pid.new 2 1) ++ advance 3 3 ++
    serve 2 sysWait (Pid.new 2 1).raw 3 ++ serve 0 sysSend 0 7 ++ advance 2 3 ++
    serve 2 sysKill (Pid.new 2 1).raw 3 ++ serve 3 sysExit 0 6 ++ spawnAndStart 3 (Pid.new 2 2) ++
    advance 3 4 ++ advance 2 3

/-- Core 3 ends up on a freed address space. A core that boots is on none of the kernel's own. -/
theorem cr3_dangling :
    (∃ s, Reach next (fun _ _ ↦ True) (init soloEndpoint) s ∧
      (s.cores 3).cr3 = .process 3 ∧ 3 ∉ s.spaces) ∧
    ((init soloEndpoint).cores 0).cr3 = .boot :=
  ⟨exists_of_runWrapped 1 leaveTraces killAfterExit (by decide +kernel) fun _ hfreed ↦ hfreed, rfl⟩

end State

end Tarnos.Kernel
