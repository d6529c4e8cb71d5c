import Tarnos.Kernel.Calls
import Tarnos.Kernel.Confinement

namespace Tarnos.Kernel

open Abi Arch Kcore Tarnos.Task Foundation.Transition Function

variable {E : Type}

def Call.number : Call → UInt64
  | .send => sysSend
  | .recv => sysRecv
  | .spawn => sysSpawn
  | .grant => sysGrant
  | .processStart => sysProcessStart
  | .wait => sysWait
  | .kill => sysKill
  | .sbrk | .setHeapEnd _ _ => sysSbrk
  | .blockRead => sysBlockRead
  | .fileRead => sysFileRead

/-- What a core does for its process `P` is what the registers of the trap ask for. -/
def Main.Aims (m : Main E) (P : Process E) : Prop :=
  match m with
  | .withCurrent call f | .withProcess call _ f => f.rax = call.number
  | .trySend e message _ f => f.rax = sysSend ∧
      resolveEndpoint P ⟨f.rdi.toUInt32⟩ .send = .ok e ∧ message = sendMessage f
  | .tryRecv e _ f => f.rax = sysRecv ∧ resolveEndpoint P ⟨f.rdi.toUInt32⟩ .recv = .ok e
  | .allocatePid _ f | .fromElf _ _ f | .releaseReservation _ f | .spawnSuspended _ f =>
    f.rax = sysSpawn
  | .grant target _ _ _ f => f.rax = sysGrant ∧ target = ⟨f.rdi⟩
  | .startChild target _ f => f.rax = sysProcessStart ∧ target = ⟨f.rdi⟩
  | .waitForChild target _ f => f.rax = sysWait ∧ target = ⟨f.rdi⟩
  | .killCheck target _ f | .killScan target f | .killEvict _ target f | .killSpin _ target f =>
    f.rax = sysKill ∧ target = ⟨f.rdi⟩
  | .growHeap _ _ f => f.rax = sysSbrk
  | _ => True

theorem resolveEndpoint_congr {P P' : Process E} (h : P'.capTable = P.capTable) (cap : CapIndex)
    (required : Rights) : resolveEndpoint P' cap required = resolveEndpoint P cap required := by
  unfold resolveEndpoint
  rw [h]

theorem Main.Aims.congr {m : Main E} {P P' : Process E} (h : m.Aims P)
    (hcaps : P'.capTable = P.capTable) : m.Aims P' := by
  cases m with
  | trySend e message pid f =>
    obtain ⟨hrax, hresolve, hmessage⟩ := h
    exact ⟨hrax, (resolveEndpoint_congr hcaps _ _).trans hresolve, hmessage⟩
  | tryRecv e pid f =>
    obtain ⟨hrax, hresolve⟩ := h
    exact ⟨hrax, (resolveEndpoint_congr hcaps _ _).trans hresolve⟩
  | _ => exact h

theorem Main.aims_of_saves {m : Main E} {P : Process E} (h : ∀ f, m.saves = some f → m.Aims P) :
    m.Aims P := by
  cases m with
  | boot _ | bootSpawn _ _ _ | user _ | exitCurrent _ | markStackBusy _ _ | finalize _ _
  | switchNext _ _ | leave _ | idle _ | halted => trivial
  | _ => exact h _ rfl

theorem aims_syscallDispatch (f : TrapFrame) (P : Process E) : (syscallDispatch f : Main E).Aims P := by
  have pick : ∀ {q : Prop} [Decidable q] {m m' : Main E}, (q → m.Aims P) → m'.Aims P →
      (if q then m else m').Aims P := by
    intro q _ m m' hm hm'
    by_cases hq : q
    · rw [if_pos hq]
      exact hm hq
    · rwa [if_neg hq]
  unfold syscallDispatch
  refine pick (fun _ ↦ trivial) (pick id (pick id (pick (fun _ ↦ trivial) (pick id (pick id
    (pick id (pick id (pick id (pick id (pick (fun h ↦ pick (fun _ ↦ trivial) h)
      (pick id trivial)))))))))))

theorem aims_trapMain (kind : Trap) (f : TrapFrame) (P : Process E) :
    (State.trapMain kind f : Main E).Aims P := by
  cases kind with
  | syscall => exact aims_syscallDispatch f P
  | _ => trivial

theorem aims_callOn [DecidableEq E] {P : Process E} {f : TrapFrame} {call : Call}
    (h : f.rax = call.number) : (callOn P f call).Aims P := by
  have hor : ∀ {α : Type} {result : Except SyscallError α} {k : α → Main E},
      (∀ x, result = .ok x → (k x).Aims P) → (orLeave f result k).Aims P := by
    intro α result k hk
    cases result with
    | error e => trivial
    | ok x => exact hk x rfl
  cases call with
  | send => exact hor fun e he ↦ ⟨h, he, rfl⟩
  | recv => exact hor fun e he ↦ ⟨h, he⟩
  | grant => exact hor fun _ _ ↦ ⟨h, rfl⟩
  | sbrk => exact hor fun _ _ ↦ h
  | blockRead | fileRead => exact hor fun _ _ ↦ trivial
  | spawn => exact h
  | processStart | wait | kill => exact ⟨h, rfl⟩
  | setHeapEnd oldEnd newEnd => trivial

namespace State

def Aims (s : State E) : Prop :=
  ∀ c p P, s.sched.current c = some p → s.sched.view p = .occupied P → (s.cores c).main.Aims P

section Steps

variable {s s' : State E} {a : Action E} {c : CoreId} {p : Pid} {P : Process E} {strict : Prop}

theorem Stay.aims {m m' : Main E} (h : s.Stay c m m') (hm : m.Aims P) : m'.Aims P := by
  cases h with
  | caller _ | noImage | killAllowed _ | killOwned _ | killSeen _ | heapMapped => exact hm
  | _ => trivial

variable [DecidableEq E] [Fintype E]

theorem Turn.aims (hturn : s.Turn c s') (h : s.Inv strict) (hc : s.sched.current c = some p)
    (hP : s.sched.view p = .occupied P) (hm : (s.cores c).main.Aims P) : (s'.cores c).main.Aims P := by
  by_cases herr' : (s.cores c).errands ≠ []
  · rw [hturn.main_of_errands herr']
    exact hm
  push Not at herr'
  cases hturn with
  | tasks herr _ | wake herr _ | orphans herr | dropBox herr | clearStackBusy herr | pollSend herr _
  | pollRecv herr _ | wakeReceiver herr _ | takeWaitingReceiver herr _ => cases herr'.symm.trans herr
  | stay _ hmain hstay =>
    rw [goto_main]
    exact hstay.aims (hmain ▸ hm)
  | trap _ _ _ =>
    rw [setCore_self]
    exact aims_trapMain _ _ P
  | record _ hmain hP' =>
    have hpid := (h.current_of_caller hmain rfl).symm.trans hc
    rw [hmain] at hm
    cases hpid
    rw [Inner.occupiedMut_eq_some, hP] at hP'
    cases hP'
    rw [goto_main]
    exact aims_callOn hm
  | trySend _ _ _ htrade | tryRecv _ _ _ htrade =>
    exact htrade.main (motive := (Main.Aims · P)) hm (fun _ ↦ trivial) (fun _ _ _ _ _ _ ↦ trivial)
      (fun _ ↦ trivial) fun _ ↦ trivial
  | allocate _ hmain | load _ hmain _ _ | request _ hmain | withdraw _ hmain =>
    rw [hmain] at hm
    rw [goto_main]
    exact hm
  | dispatch _ _ _ _ _ _ | abandon _ _ _ _ _ =>
    simp [State.dispatch, State.abandon, Main.Aims]
  | bootDone _ _ | leave _ _ =>
    rw [setCore_self]
    trivial
  | rest _ _ _ hnew _ =>
    rw [goto_main]
    rcases hnew with rfl | rfl <;> trivial
  | _ =>
    rw [goto_main]
    trivial

theorem Aims.next (haims : s.Aims) (h : s.Inv False) (hhoused : s.Housed) (hwrap : s.NoWrap a)
    (hs : s.next a = some s') : s'.Aims := by
  intro d p P' hd hP'
  refine Main.aims_of_saves fun f hf ↦ ?_
  have hturn := next_turn hs
  have heff := h.effect hwrap hs
  have hold : s.sched.current d = some p := by
    by_cases hdc : d = a.core
    · subst hdc
      exact (heff.current_saves hf).symm.trans hd
    · exact (heff.seating h).current_other hdc hd
  obtain ⟨P, hP, hrun⟩ := h.scene.sound.running d p hold
  have hcaps := ((hhoused.disciplined hs).settled p P P' hP hP' (by rw [hrun]; simp)).1
  refine Main.Aims.congr ?_ hcaps
  have haim := haims d p P hold hP
  by_cases hdc : d = a.core
  · subst hdc
    exact hturn.aims h hold hP haim
  · rw [hturn.others hdc]
    exact haim

theorem aims_of_reach {config : BootConfig E}
    (h : Reach next State.NoWrap (init config) s) : s.Aims := by
  have hinv : ∀ t, Reach next State.NoWrap (init config) t → t.Inv False ∧ t.Housed :=
    fun t ht ↦ ⟨inv_of_noWrap (fun _ _ hok ↦ hok) ht, (lawful_of_reach ht).1⟩
  refine Reach.invariant_over hinv (fun c p P hc ↦ ?_)
    (fun t a u ht haims hwrap hs ↦ Aims.next haims ht.1 ht.2 hwrap hs) h
  cases hc

end Steps

end State

end Tarnos.Kernel
