import Tarnos.Kernel.Course
import Tarnos.Task.Pushes

namespace Tarnos.Kernel.State

open Foundation.Transition Abi Tarnos.Task Inner Pid

variable {E : Type} {s t u b s' : State E} {c : CoreId} {m : Main E} {p : Pid}

inductive Requeues (s : State E) (c : CoreId) (s' : State E) : Prop
  | append (h : s.sched.Appends s'.sched)
  | pop {q : Pid} (h : s.sched.Pops q s'.sched) (hcurrent : s'.sched.current c = some q)
  | cull (h : s.sched.Culls s'.sched)

theorem Requeues.of_sched (h : s'.sched = s.sched) : s.Requeues c s' :=
  .append (h ▸ .refl _)

theorem Requeues.quiet (h : s.Requeues c s') : s.sched.Quiet s'.sched := by
  cases h with
  | append h | pop h | cull h => exact h.quiet

theorem appends_yields (h : s.Yields c m b) : s.sched.Appends b.sched := by
  cases h with
  | tick hpre => exact appends_preemptCurrent hpre
  | block hblock => exact appends_blockCurrentProcessLocked hblock
  | wait _ hblock =>
    exact (appends_waitForChild _ _ _).trans (appends_blockCurrentProcessLocked hblock)
  | evict => exact appends_setCurrent _ _ _
  | next | idle => exact .refl _

def place (s : State E) (p : Pid) : ℕ := s.sched.queue.idxOf p

/-- Between `s` and `t` the processes `others` were popped, `p` was not, and `p` is that much nearer
to the front. -/
structure MovesUp (s : State E) (p : Pid) (others : List Pid) (t : State E) : Prop where
  popped : t.sched.history.popped = s.sched.history.popped ++ others
  spared : p ∉ others
  waits : p ∈ t.sched.queue
  place : t.place p + others.length ≤ s.place p

theorem MovesUp.refl (h : p ∈ s.sched.queue) : s.MovesUp p [] s :=
  ⟨(List.append_nil _).symm, List.not_mem_nil, h, le_rfl⟩

theorem MovesUp.trans {others others' : List Pid} (h : s.MovesUp p others t)
    (h' : t.MovesUp p others' u) : s.MovesUp p (others ++ others') u := by
  have hplace := h.place
  have hplace' := h'.place
  refine ⟨by rw [h'.popped, h.popped, List.append_assoc], ?_, h'.waits, ?_⟩
  · rw [List.mem_append]
    exact not_or.mpr ⟨h.spared, h'.spared⟩
  · rw [List.length_append]
    omega

theorem place_lt (h : p ∈ s.sched.queue) : s.place p < maxProcesses :=
  (List.idxOf_lt_length_iff.mpr h).trans_le s.sched.ready.length_le

theorem isLive_slot (h : s.isLive p = true) : ∃ i, p.slot = some i ∧ s.sched.occupied i = true := by
  obtain ⟨P, hP⟩ := Option.isSome_iff_exists.mp h
  rw [occupiedMut_eq_some] at hP
  obtain ⟨i, hslot, rfl, -⟩ := slot_of_eq hP
  rw [view_pidAt] at hP
  exact ⟨i, hslot, Slot.isOccupied_iff.mpr ⟨P, hP⟩⟩

def Elects (s : State E) (p : Pid) (c : CoreId) (s' : State E) : Prop :=
  s'.sched.history.popped = s.sched.history.popped ++ [p] ∧ s'.sched.current c = some p

/-- One step takes the waiting process itself, or ends it, or lets it keep its place behind whoever
the step takes. -/
theorem Requeues.waiting (h : s.Requeues c s') (hp : p ∈ s.sched.queue) :
    s.Elects p c s' ∨ s'.isLive p = false ∨ ∃ others, s.MovesUp p others s' := by
  cases h with
  | append h =>
    obtain ⟨joined, hqueue, -⟩ := h.queue
    refine .inr (.inr ⟨[], by rw [h.popped, List.append_nil], List.not_mem_nil, ?_, ?_⟩)
    · rw [hqueue]
      exact List.mem_append_left _ hp
    · rw [place, place, hqueue, List.idxOf_append_of_mem hp]
      exact le_rfl
  | @pop q h hcurrent =>
    obtain ⟨joined, hqueue, -⟩ := h.queue
    by_cases hq : q = p
    · subst hq
      exact .inl ⟨h.popped, hcurrent⟩
    · have hmem : p ∈ q :: s'.sched.queue := hqueue ▸ List.mem_append_left _ hp
      have hplace : s.place p = s'.place p + 1 := by
        have hjoined : (s.sched.queue ++ joined).idxOf p = s.sched.queue.idxOf p :=
          List.idxOf_append_of_mem hp
        rw [place, place, ← hjoined, hqueue, List.idxOf_cons_ne _ hq]
      refine .inr (.inr ⟨[q], h.popped, ?_, ?_, hplace.ge⟩)
      · rw [List.mem_singleton]
        exact Ne.symm hq
      · exact (List.mem_cons.mp hmem).resolve_left (Ne.symm hq)
  | cull h =>
    by_cases hlive : s'.isLive p = true
    · obtain ⟨i, hslot, hocc⟩ := isLive_slot hlive
      obtain ⟨hmem, hplace⟩ := h.place p i hslot hocc hp
      exact .inr (.inr ⟨[], by rw [h.popped, List.append_nil], List.not_mem_nil, hmem, hplace⟩)
    · exact .inr (.inl (Bool.eq_false_iff.mpr hlive))

variable [DecidableEq E]

theorem Turn.requeues (h : s.Turn c s') : s.Requeues c s' := by
  cases h with
  | pollSend _ _ htrade | pollRecv _ _ htrade | wakeReceiver _ _ htrade
  | takeWaitingReceiver _ _ htrade | trySend _ _ _ htrade | tryRecv _ _ _ htrade =>
    exact .of_sched htrade.sched
  | wake => exact .append (appends_wakeBlockedProcessLocked _ _ _)
  | bootAllocate | allocate => exact .append (appends_allocatePid _ _)
  | bootSpawn _ _ _ hspawn => exact .append (appends_spawn hspawn)
  | @record call pid f P =>
    have hsched := (recordResolve_fields (f := f) (s := s.withSched
      (s.sched.setProcess pid (callWrites call P))) P call).2.2.1
    refine .append ?_
    change s.sched.Appends ((s.withSched (s.sched.setProcess pid (callWrites call P))).recordResolve
      P f call).sched
    rw [hsched]
    exact appends_setProcess _ _ _
  | release => exact .append (appends_releaseReservation _ _)
  | spawn _ _ hspawn => exact .append (appends_spawnSuspended hspawn)
  | grant => exact .append (appends_setProcess _ _ _)
  | start _ _ hstart => exact .append (appends_startChild hstart)
  | collect => exact .append (appends_waitForChild _ _ _)
  | kill | exit => exact .cull (culls_finalize _ _ _)
  | dispatch _ _ hyields hpop hswitch =>
    obtain ⟨hhistory, hqueue, hcurrent⟩ := queue_switchTo hswitch
    exact .pop (((appends_yields hyields).pops hpop).of_eq hhistory hqueue) hcurrent
  | abandon _ _ hyields hpop => exact .append ((appends_yields hyields).pop_none hpop)
  | resumeTick _ _ hpre hpop =>
    exact .append ((appends_preemptCurrent hpre).pop_none hpop)
  | rest _ _ hpop => exact .append ((Inner.Appends.refl _).pop_none hpop)
  | tasks | orphans | dropBox | clearStackBusy | stay | bootDone | trap | leave | ignoreIpi
  | sendReturn | recvReturn | load | spawnFail | request | withdraw | mark =>
    exact .of_sched rfl

def PassesOver (p : Pid) (s : State E) (a : Action E) : Prop :=
  ∀ s' ∈ s.next a, s'.sched.history.popped ≠ s.sched.history.popped ++ [p] ∧ s'.isLive p = true

/-- While a process waits in the ready queue at most fifteen others are popped; nothing moves it back
or drops it, and the step that ends its wait dispatches or terminates it. -/
theorem bounded_waiting (hp : p ∈ s.sched.queue) (h : Reach next (State.PassesOver p) s t) :
    ∃ others, s.MovesUp p others t ∧ others.length ≤ maxProcesses - 1 ∧
      ∀ a t', t.next a = some t' →
        t.Elects p a.core t' ∨ t'.isLive p = false ∨ ∃ others', t.MovesUp p others' t' := by
  have hrun : ∃ others, s.MovesUp p others t := by
    induction h with
    | refl => exact ⟨[], .refl hp⟩
    | step _ hpasses hnext ih =>
      obtain ⟨others, hmoves⟩ := ih
      obtain ⟨hpopped, hlive⟩ := hpasses _ hnext
      rcases (next_turn hnext).requeues.waiting hmoves.waits with htaken | hdead | ⟨others', hstep⟩
      · exact absurd htaken.1 hpopped
      · rw [hlive] at hdead
        cases hdead
      · exact ⟨others ++ others', hmoves.trans hstep⟩
  obtain ⟨others, hmoves⟩ := hrun
  refine ⟨others, hmoves, ?_, fun a t' hnext ↦ (next_turn hnext).requeues.waiting hmoves.waits⟩
  have hplace := hmoves.place
  have hlt := place_lt hp
  omega

instance (p : Pid) (s : State E) (a : Action E) : Decidable (PassesOver p s a) :=
  inferInstanceAs (Decidable (∀ s' ∈ s.next a, _))

def twoWaiting : List (Action Unit) :=
  bootSolo ++ spawnAndStart 1 (new 1 1) ++ spawnAndStart 2 (new 2 1)

theorem bounded_waiting_tick :
    ∃ s t : State Unit, Reach next (fun _ _ ↦ True) (init solo) s ∧
      s.place (new 2 1) = 1 ∧ Reach next (State.PassesOver (new 2 1)) s t ∧
      t.place (new 2 1) = 0 ∧
      ∃ others, s.MovesUp (new 2 1) others t ∧ others.length ≤ maxProcesses - 1 ∧
        ∀ a t', t.next a = some t' → t.Elects (new 2 1) a.core t' ∨
          t'.isLive (new 2 1) = false ∨ ∃ others', t.MovesUp (new 2 1) others' t' := by
  have hrun : ((run next (init solo) twoWaiting).bind fun s ↦
      (run (guarded next fun s a ↦ decide (State.PassesOver (new 2 1) s a)) s
        [⟨0, .trap .timer userFrame⟩, go 0]).map fun t ↦
          (s.sched.queue, t.sched.queue)) =
        some ([new 1 1, new 2 1], [new 2 1, new 0 1]) := by decide +kernel
  obtain ⟨s, hs, hrest⟩ := Option.bind_eq_some_iff.mp hrun
  obtain ⟨t, ht, hqueues⟩ := Option.map_eq_some_iff.mp hrest
  obtain ⟨hqueue, hqueue'⟩ := Prod.mk.inj hqueues
  have hpasses : Reach next (State.PassesOver (new 2 1)) s t :=
    run_guarded_reach (fun _ _ h ↦ of_decide_eq_true h) ht
  refine ⟨s, t, run_reach hs, ?_, hpasses, ?_, bounded_waiting ?_ hpasses⟩
  · rw [place, hqueue]
    decide +kernel
  · rw [place, hqueue']
    decide +kernel
  · rw [hqueue]
    decide +kernel

end Tarnos.Kernel.State
