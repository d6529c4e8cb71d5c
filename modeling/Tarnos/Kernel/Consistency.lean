import Tarnos.Foundation.Transition
import Tarnos.Kernel.Preserve

namespace Tarnos.Kernel

open Abi Arch Kcore Tarnos.Task Foundation.Transition Function Inner

variable {E : Type}

namespace State

section Start

theorem init_core (config : BootConfig E) (c : CoreId) :
    ((init config).cores c).main.attached = false ∧ ((init config).cores c).main.Plain ∧
      ∀ p, errandsTokens p ((init config).cores c).errands = 0 := by
  simp only [init]
  split_ifs <;> exact ⟨rfl, ⟨rfl, rfl, rfl, rfl, rfl⟩, fun p ↦ by simp [errandTokens]⟩

variable [Fintype E]

theorem tokens_init (config : BootConfig E) (p : Pid) : (init config).tokens p = 0 := by
  change ∑ e : E, slotTokens p .empty + ∑ c, coreTokens p ((init config).cores c) = 0
  simp only [slotTokens, Finset.sum_const_zero, Nat.zero_add]
  exact Finset.sum_eq_zero fun c _ ↦ ((init_core config c).2.2 p)

theorem Inv.init (strict : Prop) (config : BootConfig E) : (State.init config).Inv strict := by
  have hview : ∀ p, (State.init config).scene.table.view p = .empty := Inner.view_init
  have hcurrent : ∀ c, (State.init config).scene.table.current c = none := fun _ ↦ rfl
  have hqueue : (State.init config).scene.table.queue = [] :=
    RingBuffer.toList_new (α := Pid) (N := maxProcesses)
  have htokens : ∀ p, (State.init config).scene.tokens p = 0 := tokens_init config
  have hplain : ∀ c, ((State.init config).scene.main c).Plain := fun c ↦ (init_core config c).2.1
  refine ⟨⟨rfl, ?_⟩, ⟨?_, ?_, ?_, ?_⟩⟩
  · simp [State.init, Inner.init, Inner.queue]
  · constructor
    all_goals simp [hview, hcurrent, hqueue]
  · constructor
    case attached =>
      intro c
      rw [hcurrent]
      exact (init_core config c).1
    all_goals simp [hview, (hplain _).caller, (hplain _).child, (hplain _).reserves, (hplain _).kills]
  · refine ⟨fun p P hP ↦ ?_, fun d hd ↦ absurd rfl hd⟩
    rw [hview] at hP
    cases hP
  · refine ⟨fun p hp ↦ ?_, fun p P hP ↦ ?_⟩
    · rw [htokens] at hp
      omega
    · rw [hview] at hP
      cases hP

variable [DecidableEq E]

theorem inv_of_reach {strict : Prop} {config : BootConfig E} {s : State E}
    {ok : State E → Action E → Prop} (hwrap : ∀ s a, ok s a → s.NoWrap a)
    (hkeeps : strict → ∀ s a, ok s a → s.Keeps a)
    (h : Reach next ok (init config) s) : s.Inv strict :=
  h.invariant (Inv.init strict config) fun t a _ ht hok hnext ↦
    ht.next (hwrap t a hok) (fun hs ↦ hkeeps hs t a hok) hnext

theorem inv_of_noWrap {config : BootConfig E} {s : State E} {ok : State E → Action E → Prop}
    (hwrap : ∀ s a, ok s a → s.NoWrap a) (h : Reach next ok (init config) s) : s.Inv False :=
  inv_of_reach hwrap False.elim h

end Start

variable {s : State E} {c : CoreId} {strict : Prop}

/-- The assertions of `switch_to` about the table: double dispatch, generation, occupancy and
stored pid. -/
def Panic.ofTable : Panic → Prop
  | .doubleDispatch | .staleGeneration | .noSuchProcess | .storedPid => True
  | _ => False

section Panics

variable {reason : Panic} {p : Pid} {choice : Choice E} {m : Main E}

theorem dispatch_panic {sched popped : Inner E} (ht : (sched.setCurrent c none).table.Sound)
    (hpop : sched.pop = (some p, popped)) (h : popped.switchTo c p = .error reason) :
    ¬ Panic.ofTable reason := by
  obtain ⟨rest, hqueue, rfl⟩ := pop_some hpop
  have hmem : p ∈ (sched.setCurrent c none).table.queue := by
    change p ∈ sched.queue
    rw [hqueue]
    exact List.mem_cons_self
  obtain ⟨P, hP, hready⟩ := (ht.queued p).mp hmem
  have hother : ∀ d, d ≠ c → sched.pop.2.current d ≠ some p := by
    intro d hd
    have hnot := ht.not_current hP (by rw [hready]; simp) d
    rw [table_setCurrent, Table.setCurrent_current, if_neg hd] at hnot
    exact hnot
  rcases switchTo_error (s := sched.pop.2) hP (ht.stored p P hP) hother h with
    rfl | rfl | rfl | rfl <;> exact id

variable [Fintype E]

theorem Inv.sound_of_yields {b : State E} (h : s.Inv strict) (hmain : (s.cores c).main = m)
    (hyields : s.Yields c m b) : (b.sched.setCurrent c none).table.Sound :=
  (h.yields hmain hyields).2.2.2.sound

variable [DecidableEq E]

theorem Inv.step_panic (h : s.Inv strict) (hs : s.step c choice = .panic reason) :
    ¬ Panic.ofTable reason := by
  cases step_fails hs with
  | dispatch hmain hyields hpop hswitch =>
    exact dispatch_panic (h.sound_of_yields hmain hyields) hpop hswitch
  | _ => exact id

end Panics

variable [DecidableEq E]

/-- Table, queue and cores agree. -/
structure Consistent (s : State E) : Prop where
  ready : ∀ i P, s.sched.processes i = .occupied P → P.state = .ready →
    s.sched.queue.count P.pid = 1 ∧ ∀ c, s.sched.current c ≠ some P.pid
  running : ∀ i P, s.sched.processes i = .occupied P → P.state = .running →
    P.pid ∉ s.sched.queue ∧ ((∃! c, s.sched.current c = some P.pid) ∨
      (∀ c, s.sched.current c ≠ some P.pid) ∧ ∃ c, (s.cores c).main.kills = some P.pid)
  waiting : ∀ i P, s.sched.processes i = .occupied P → P.state = .blocked ∨ P.state = .suspended →
    P.pid ∉ s.sched.queue ∧ ∀ c, s.sched.current c ≠ some P.pid
  queued : ∀ p ∈ s.sched.queue, ∃ i P, p.slot = some i ∧ s.sched.generations i = p.generation ∧
    s.sched.processes i = .occupied P ∧ P.pid = p
  -- no `ready.push` has failed, and what was popped or still waits entered in this order
  pushes : s.sched.history.refused = []
  order : (s.sched.history.popped ++ s.sched.queue).Sublist s.sched.history.entered
  assertions : ∀ c choice reason, s.step c choice = .panic reason → ¬ Panic.ofTable reason

variable [Fintype E]

theorem Inv.consistent (h : s.Inv strict) : s.Consistent := by
  have hsound := h.scene.sound
  have hslot : ∀ i P, s.sched.processes i = .occupied P →
      s.sched.table.view P.pid = .occupied P := by
    intro i P hP
    have hview : s.sched.table.view (s.sched.pidAt i) = .occupied P := by
      rw [table_view, view_pidAt, hP]
    rw [hsound.stored _ P hview]
    exact hview
  refine ⟨?_, ?_, ?_, ?_, h.honest.1, h.honest.2, fun c choice reason hs ↦ h.step_panic hs⟩
  · intro i P hP hready
    have hview := hslot i P hP
    refine ⟨?_, hsound.not_current hview (by rw [hready]; simp)⟩
    exact List.count_eq_one_of_mem hsound.nodup ((hsound.queued P.pid).mpr ⟨P, hview, hready⟩)
  · intro i P hP hrun
    have hview := hslot i P hP
    refine ⟨hsound.not_queued hview (by rw [hrun]; simp), ?_⟩
    by_cases hcur : ∃ c, s.sched.current c = some P.pid
    · obtain ⟨c, hc⟩ := hcur
      exact .inl ⟨c, hc, fun d hd ↦ hsound.injective d c P.pid hd hc⟩
    · push Not at hcur
      rcases h.scene.evictions.evicted P.pid P hview hrun with ⟨c, hc⟩ | hkiller
      · exact absurd hc (hcur c)
      · exact .inr ⟨hcur, hkiller⟩
  · intro i P hP hst
    have hview := hslot i P hP
    have hnready : P.state ≠ .ready := by rcases hst with hst | hst <;> rw [hst] <;> simp
    have hnrun : P.state ≠ .running := by rcases hst with hst | hst <;> rw [hst] <;> simp
    exact ⟨hsound.not_queued hview hnready, hsound.not_current hview hnrun⟩
  · intro p hp
    obtain ⟨P, hP, -⟩ := (hsound.queued p).mp hp
    have hne : s.sched.view p ≠ .empty := by
      rw [← table_view, show s.sched.table.view p = .occupied P from hP]
      simp
    obtain ⟨i, hi, hpid⟩ := slot_of_view hne
    refine ⟨i, P, hi, (eq_pidAt_iff.mp hpid).2, ?_, hsound.stored p P hP⟩
    rw [← view_pidAt, ← hpid]
    exact hP

instance (s : State E) (a : Action E) : Decidable (s.NoWrap a) :=
  inferInstanceAs (Decidable (_ → _))

def solo : BootConfig Unit := ⟨fun _ ↦ true, [⟨[]⟩]⟩

def userFrame : TrapFrame := { cs := userCodeSelector, ss := userDataSelector }

def go (c : CoreId) : Action E := ⟨c, .go⟩

def syscall (c : CoreId) (number : UInt64) (rdi : UInt64) : Action E :=
  ⟨c, .trap .syscall { userFrame with rax := number, rdi := rdi }⟩

def advance (c : CoreId) (n : ℕ) : List (Action E) := List.replicate n (go c)

/-- A system call and the next `n` steps of its core. -/
def serve (c : CoreId) (number rdi : UInt64) (n : ℕ) : List (Action E) :=
  syscall c number rdi :: advance c n

def bootSolo : List (Action E) := advance 0 2 ++ [⟨0, .image 0 0⟩] ++ advance 0 4

def spawnOn (c : CoreId) (frame : ℕ) : List (Action E) :=
  serve c sysSpawn 0 3 ++ [⟨c, .image 0 frame⟩] ++ advance c 2

def startOn (c : CoreId) (child : Pid) : List (Action E) := serve c sysProcessStart child.raw 4

def spawnAndStart (frame : ℕ) (child : Pid) : List (Action E) := spawnOn 0 frame ++ startOn 0 child

/-- A process on core 0 and its child on core 1. -/
def childRuns : List (Action E) := bootSolo ++ spawnAndStart 1 (Pid.new 1 1) ++ advance 1 3

def trappedApart : List (Action Unit) :=
  childRuns ++ [⟨1, .trap .timer userFrame⟩, ⟨0, .trap .timer userFrame⟩]

theorem consistent_of_noWrap (config : BootConfig E) (s : State E)
    (h : Reach next State.NoWrap (init config) s) : s.Consistent :=
  (inv_of_noWrap (fun _ _ hok ↦ hok) h).consistent

theorem consistent_of_noWrap_trappedApart :
    ∃ s, Reach next State.NoWrap (init solo) s ∧
      s.sched.current 0 = some (Pid.new 0 1) ∧ s.sched.current 1 = some (Pid.new 1 1) ∧
      s.Consistent := by
  refine exists_of_run trappedApart (by decide +kernel) fun s hreach
    (hcurrent : s.sched.current 0 = some (Pid.new 0 1) ∧ s.sched.current 1 = some (Pid.new 1 1)) ↦ ?_
  exact ⟨hcurrent.1, hcurrent.2, consistent_of_noWrap solo s hreach⟩

end State

end Tarnos.Kernel
