import Tarnos.Task.Table

namespace Tarnos.Task.Inner

open Abi Arch Kcore Function

variable {E : Type} {s : Inner E} {p q : Pid} {i : Fin maxProcesses} {P : Process E}
  {busy : Fin maxProcesses → Bool} {sched : Inner E} {target caller : Pid} {c : CoreId}

/-- No pid was refused so far, and those popped and those still queued entered in that order. -/
def Honest (s : Inner E) : Prop :=
  s.history.refused = [] ∧ (s.history.popped ++ s.queue).Sublist s.history.entered

theorem Honest.congr {t : Inner E} (h : s.Honest) (hqueue : t.queue = s.queue)
    (hhist : t.history = s.history) : t.Honest := by
  unfold Honest
  rw [hqueue, hhist]
  exact h

theorem Honest.push (h : s.Honest) (hroom : s.queue.length < maxProcesses) (p : Pid) :
    (s.push p).Honest := by
  obtain ⟨hrefused, hsub⟩ := h
  unfold Honest
  rw [history_push hroom, queue_push hroom]
  refine ⟨hrefused, ?_⟩
  rw [← List.append_assoc]
  exact hsub.append (List.Sublist.refl [p])

theorem Honest.pop (h : s.Honest) : s.pop.2.Honest := by
  obtain ⟨hrefused, hsub⟩ := h
  cases hqueue : s.queue with
  | nil =>
    obtain ⟨-, hqueue', hhist⟩ := pop_nil hqueue
    exact Honest.congr ⟨hrefused, hsub⟩ (hqueue'.trans hqueue.symm) hhist
  | cons p rest =>
    obtain ⟨-, hqueue', hhist⟩ := pop_cons hqueue
    unfold Honest
    rw [hqueue', hhist]
    rw [hqueue] at hsub
    refine ⟨hrefused, ?_⟩
    simpa using hsub

theorem Honest.removeFromReadyQueue (h : s.Honest) (target : Pid) :
    (s.removeFromReadyQueue target).Honest := by
  obtain ⟨hrefused, hsub⟩ := h
  refine ⟨hrefused, ?_⟩
  rw [queue_removeFromReadyQueue]
  exact ((List.Sublist.refl _).append List.filter_sublist).trans hsub

theorem freeSlot_some (h : s.freeSlot busy = some i) : s.processes i = .empty ∧ busy i = false := by
  have hfound := List.find?_some h
  simp only [Bool.and_eq_true, Bool.not_eq_true'] at hfound
  refine ⟨?_, hfound.2⟩
  cases hslot : s.processes i with
  | empty => rfl
  | _ => rw [hslot] at hfound; exact absurd hfound.1 (by simp [Slot.isEmpty])

theorem allocatePid_full (h : s.freeSlot busy = none) :
    s.allocatePid busy = (Pid.new maxProcesses 0, s) := by
  simp [allocatePid, h]

def freshPid (s : Inner E) (i : Fin maxProcesses) : Pid := Pid.new i (s.generations i + 1)

theorem freshPid_slot (s : Inner E) (i : Fin maxProcesses) : (s.freshPid i).slot = some i :=
  Pid.slot_new i _

theorem freshPid_generation (s : Inner E) (i : Fin maxProcesses) :
    (s.freshPid i).generation = s.generations i + 1 :=
  Pid.generation_new (lt_trans i.isLt (by decide)) _

theorem freshPid_ne_pidAt (s : Inner E) (i j : Fin maxProcesses) : s.freshPid i ≠ s.pidAt j := by
  intro h
  obtain ⟨hslot, hgen⟩ := eq_pidAt_iff.mp h
  rw [freshPid_slot] at hslot
  cases hslot
  rw [freshPid_generation] at hgen
  exact absurd hgen (by simp)

theorem view_freshPid (s : Inner E) (i : Fin maxProcesses) : s.view (s.freshPid i) = .empty := by
  rcases s.view_cases (s.freshPid i) with ⟨j, hj⟩ | ⟨hempty, -⟩
  · exact absurd hj (s.freshPid_ne_pidAt i j)
  · exact hempty

theorem allocatePid_fst (h : s.freeSlot busy = some i) : (s.allocatePid busy).1 = s.freshPid i := by
  simp [allocatePid, h, freshPid]

theorem view_allocatePid (h : s.freeSlot busy = some i) (q : Pid) :
    (s.allocatePid busy).2.view q = if q = s.freshPid i then .reserved else s.view q := by
  have hempty := (freeSlot_some h).1
  simp only [allocatePid, h]
  unfold view
  cases hslot : q.slot with
  | none =>
    have hne : q ≠ s.freshPid i := by
      rintro rfl
      rw [freshPid_slot] at hslot
      cases hslot
    simp [hne]
  | some j =>
    by_cases hij : j = i
    · subst hij
      have hfresh : q = s.freshPid j ↔ s.generations j + 1 = q.generation := by
        constructor
        · rintro rfl
          exact (s.freshPid_generation j).symm
        · intro hgen
          apply Pid.eq_of_index_generation
          · rw [Pid.slot_eq_some.mp hslot, Pid.slot_eq_some.mp (s.freshPid_slot j)]
          · rw [freshPid_generation, hgen]
      simp only [update_self, hfresh, hempty, ite_self]
    · have hne : q ≠ s.freshPid i := by
        rintro rfl
        rw [freshPid_slot] at hslot
        exact hij (Option.some.inj hslot).symm
      simp [update_of_ne hij, hne]

theorem generation_succ (hwrap : (s.generations i).toNat + 1 < 2 ^ 32) :
    (s.generations i + 1).toNat = (s.generations i).toNat + 1 := by
  rw [UInt32.toNat_add]
  exact Nat.mod_eq_of_lt hwrap

theorem not_issued_freshPid (hwrap : (s.generations i).toNat + 1 < 2 ^ 32) :
    ¬ s.issued (s.freshPid i) := by
  rintro ⟨j, hslot, hle⟩
  rw [freshPid_slot] at hslot
  cases hslot
  rw [freshPid_generation, UInt32.le_iff_toNat_le, generation_succ hwrap] at hle
  omega

theorem issued_allocatePid (h : s.freeSlot busy = some i)
    (hwrap : (s.generations i).toNat + 1 < 2 ^ 32) (q : Pid) :
    (s.allocatePid busy).2.issued q ↔ q = s.freshPid i ∨ s.issued q := by
  have hgens : (s.allocatePid busy).2.generations = update s.generations i (s.generations i + 1) := by
    simp [allocatePid, h]
  have hsucc := generation_succ hwrap
  constructor
  · rintro ⟨j, hslot, hle⟩
    rw [hgens] at hle
    by_cases hij : j = i
    · subst hij
      rw [update_self, UInt32.le_iff_toNat_le, hsucc] at hle
      rcases Nat.lt_or_ge (s.generations j).toNat q.generation.toNat with hlt | hge
      · left
        apply Pid.eq_of_index_generation
        · rw [Pid.slot_eq_some.mp hslot, Pid.slot_eq_some.mp (s.freshPid_slot j)]
        · rw [freshPid_generation]
          apply UInt32.toNat_inj.mp
          omega
      · exact .inr ⟨j, hslot, hge⟩
    · rw [update_of_ne hij] at hle
      exact .inr ⟨j, hslot, hle⟩
  · rintro (rfl | ⟨j, hslot, hle⟩)
    · refine ⟨i, s.freshPid_slot i, ?_⟩
      rw [hgens, update_self, freshPid_generation]
      exact UInt32.le_refl _
    · refine ⟨j, hslot, ?_⟩
      rw [hgens]
      by_cases hij : j = i
      · subst hij
        rw [update_self, UInt32.le_iff_toNat_le, hsucc]
        exact Nat.le_succ_of_le hle
      · rwa [update_of_ne hij]

theorem table_allocatePid (h : s.freeSlot busy = some i)
    (hwrap : (s.generations i).toNat + 1 < 2 ^ 32) :
    (s.allocatePid busy).2.table = (s.table.set (s.freshPid i) .reserved).issue (s.freshPid i) := by
  refine Table.ext (funext fun q ↦ ?_) ?_ ?_ (funext fun q ↦ propext ?_)
  · rw [Table.issue_view, Table.set_view]
    exact view_allocatePid h q
  · simp [allocatePid, h, table, queue]
  · simp [allocatePid, h, table]
  · rw [Table.issue_issued, Table.set_issued]
    exact issued_allocatePid h hwrap q

theorem releaseReservation_reserved (h : s.view p = .reserved) :
    (s.releaseReservation p).table = s.table.set p .empty ∧
      (s.Honest → (s.releaseReservation p).Honest) := by
  obtain ⟨i, hslot, hpid, hproc⟩ := slot_of_eq h (by simp)
  have hgen := (eq_pidAt_iff.mp hpid).2
  have heq : s.releaseReservation p = s.setSlot i .empty := by
    simp [releaseReservation, hslot, hgen, hproc]
  rw [heq, table_setSlot, ← hpid]
  exact ⟨rfl, fun hhonest ↦ hhonest.congr rfl rfl⟩

theorem releaseReservation_full (h : p.slot = none) : s.releaseReservation p = s := by
  simp [releaseReservation, h]

theorem spawnSuspended_reserved (h : s.view P.pid = .reserved) :
    ∃ sched, s.spawnSuspended P = .ok sched ∧ sched.table = s.table.set P.pid (.occupied P) ∧
      (s.Honest → sched.Honest) := by
  obtain ⟨i, hslot, hpid, -⟩ := slot_of_eq h (by simp)
  refine ⟨s.setSlot i (.occupied P), by simp [spawnSuspended, hslot], ?_, fun h ↦ h.congr rfl rfl⟩
  rw [table_setSlot, ← hpid]

theorem spawnSuspended_full (h : P.pid.slot = none) :
    s.spawnSuspended P = .error .resourceExhausted := by
  simp [spawnSuspended, h]

theorem spawn_reserved (h : s.view P.pid = .reserved) (hroom : s.queue.length < maxProcesses) :
    ∃ sched, s.spawn P = .ok sched ∧
      sched.table = (s.table.set P.pid (.occupied P)).enqueue P.pid ∧
      (s.Honest → sched.Honest) := by
  obtain ⟨i, hslot, hpid, -⟩ := slot_of_eq h (by simp)
  have hroom' : (s.setSlot i (.occupied P)).queue.length < maxProcesses := hroom
  refine ⟨(s.setSlot i (.occupied P)).push P.pid, by simp [spawn, hslot], ?_, ?_⟩
  · rw [table_push hroom', table_setSlot, ← hpid]
  · intro hhonest
    exact (hhonest.congr rfl rfl).push hroom' P.pid

theorem spawn_full (h : P.pid.slot = none) : s.spawn P = .error .resourceExhausted := by
  simp [spawn, h]

theorem slot_of_spawn (h : s.spawn P = .ok sched) : ∃ i, P.pid.slot = some i := by
  refine Option.isSome_iff_exists.mp (Option.isSome_iff_ne_none.mpr fun hnone ↦ ?_)
  rw [spawn_full hnone] at h
  cases h

theorem view_spawn (h : s.spawn P = .ok sched) (hview : s.view P.pid ≠ .empty) (q : Pid) :
    sched.view q = if q = P.pid then .occupied P else s.view q := by
  obtain ⟨i, hslot, hpid⟩ := slot_of_view hview
  simp only [spawn, hslot] at h
  cases h
  rw [view_push, view_setSlot, ← hpid]

theorem startChild_ok (h : s.startChild target caller = .ok sched) :
    ∃ P, s.view target = .occupied P ∧ P.parent = some caller ∧ P.state = .suspended ∧
      sched = (s.setProcess target { P with state := .ready }).push target := by
  unfold startChild at h
  cases hocc : s.occupiedMut target with
  | none =>
    rw [hocc] at h
    cases h
  | some P =>
    rw [hocc] at h
    simp only [ne_eq] at h
    split at h
    · cases h
    · rename_i hcheck
      push Not at hcheck
      cases h
      exact ⟨P, occupiedMut_eq_some.mp hocc, hcheck.1, hcheck.2, rfl⟩

theorem table_setProcess_push (h : s.view p = .occupied P) (P' : Process E)
    (hroom : s.queue.length < maxProcesses) :
    ((s.setProcess p P').push p).table = (s.table.set p (.occupied P')).enqueue p ∧
      (s.Honest → ((s.setProcess p P').push p).Honest) := by
  have hqueue := s.queue_setProcess p P'
  have hroom' : (s.setProcess p P').queue.length < maxProcesses := by rwa [hqueue]
  constructor
  · rw [table_push hroom', table_setProcess h]
  · intro hhonest
    exact (hhonest.congr hqueue (setProcess_fields h P').2.2.2).push hroom' p

theorem wakeBlockedProcessLocked_cases (s : Inner E) (p : Pid) (result : WakeResult) :
    ((∀ P, s.view p ≠ .occupied P) ∧ s.wakeBlockedProcessLocked p result = s) ∨
    (∃ P, s.view p = .occupied P ∧ P.state ≠ .blocked ∧
      s.wakeBlockedProcessLocked p result = s.setProcess p { P with pendingWake := some result }) ∨
    (∃ P, s.view p = .occupied P ∧ P.state = .blocked ∧
      s.wakeBlockedProcessLocked p result = (s.setProcess p (applyWakeResult P result)).push p) := by
  unfold wakeBlockedProcessLocked
  cases hocc : s.occupiedMut p with
  | none => exact .inl ⟨occupiedMut_eq_none.mp hocc, rfl⟩
  | some P =>
    have hview := occupiedMut_eq_some.mp hocc
    by_cases hblocked : P.state = .blocked
    · refine .inr (.inr ⟨P, hview, hblocked, ?_⟩)
      simp [hblocked]
    · refine .inr (.inl ⟨P, hview, hblocked, ?_⟩)
      simp [hblocked]

def wakenRecord (P : Process E) (result : WakeResult) : Process E :=
  if P.state = .blocked then applyWakeResult P result else { P with pendingWake := some result }

theorem view_wakeBlockedProcessLocked (h : s.view p = .occupied P) (result : WakeResult) :
    (s.wakeBlockedProcessLocked p result).view p = .occupied (wakenRecord P result) := by
  unfold wakenRecord
  rcases s.wakeBlockedProcessLocked_cases p result with
    ⟨hnone, -⟩ | ⟨P₀, hP₀, hstate, heq⟩ | ⟨P₀, hP₀, hstate, heq⟩
  · exact absurd h (hnone P)
  · rw [h] at hP₀
    cases hP₀
    rw [heq, if_neg hstate, view_setProcess h, if_pos rfl]
  · rw [h] at hP₀
    cases hP₀
    rw [heq, if_pos hstate, view_push, view_setProcess h, if_pos rfl]

theorem preemptCurrent_running (hcur : s.current c = some p)
    (hview : s.view p = .occupied P) (f : TrapFrame) :
    s.preemptCurrent c f =
      .ok ((s.setProcess p { P with trapFrame := f, state := .ready }).push p) := by
  obtain ⟨i, hslot, hpid, hproc⟩ := slot_of_eq hview (by simp)
  simp [preemptCurrent, hcur, hslot, hproc, setProcess]

/-- The record of a process that blocks: a result that came before completes its call. -/
def blockedRecord (P : Process E) (f : TrapFrame) : Process E :=
  match P.pendingWake with
  | none => { P with trapFrame := f, state := .blocked }
  | some pending =>
    applyWakeResult { P with trapFrame := f, state := .blocked, pendingWake := none } pending

theorem blockedRecord_of_none (h : P.pendingWake = none) (f : TrapFrame) :
    blockedRecord P f = { P with trapFrame := f, state := .blocked } := by
  unfold blockedRecord
  split
  · rfl
  · rename_i hsome
    cases h.symm.trans hsome

theorem blockedRecord_fields (P : Process E) (f : TrapFrame) :
    (blockedRecord P f).pid = P.pid ∧ (blockedRecord P f).addressSpace = P.addressSpace ∧
      (blockedRecord P f).parent = P.parent ∧ (blockedRecord P f).waitWaiter = P.waitWaiter ∧
      (blockedRecord P f).state ≠ .suspended := by
  unfold blockedRecord
  split <;> simp

def joins (p : Pid) (P : Process E) : List Pid := if P.pendingWake.isSome then [p] else []

theorem joins_of_none (h : P.pendingWake = none) (p : Pid) : joins p P = [] := by
  simp [joins, h]

theorem blockCurrentProcessLocked_running (hcur : s.current c = some p)
    (hview : s.view p = .occupied P) (hroom : s.queue.length < maxProcesses) (f : TrapFrame) :
    ∃ sched, s.blockCurrentProcessLocked c f = .ok sched ∧
      sched.table = s.table.letGo c p (blockedRecord P f) (joins p P) ∧
      (s.Honest → sched.Honest) := by
  obtain ⟨i, hslot, hpid, hproc⟩ := slot_of_eq hview (by simp)
  have hroom' : (s.setSlot i (.occupied (blockedRecord P f))).queue.length < maxProcesses := hroom
  cases hpending : P.pendingWake with
  | none =>
    refine ⟨(s.setSlot i (.occupied (blockedRecord P f))).setCurrent c none, ?_, ?_,
      fun h ↦ h.congr rfl rfl⟩
    · simp [blockCurrentProcessLocked, hcur, hslot, hproc, hpending, blockedRecord]
    · rw [table_setCurrent, table_setSlot, ← hpid]
      simp [joins, hpending, Table.letGo, Table.set, Table.setCurrent]
  | some pending =>
    refine ⟨((s.setSlot i (.occupied (blockedRecord P f))).push p).setCurrent c none, ?_, ?_,
      fun h ↦ ?_⟩
    · simp [blockCurrentProcessLocked, hcur, hslot, hproc, hpending, blockedRecord]
    · rw [table_setCurrent, table_push hroom', table_setSlot, ← hpid, joins, hpending]
      rfl
    · have hset : (s.setSlot i (.occupied (blockedRecord P f))).Honest := h.congr rfl rfl
      exact (hset.push hroom' p).congr rfl rfl

theorem switchTo_ok (h : s.switchTo c p = .ok (P, sched)) :
    ∃ P₀, s.view p = .occupied P₀ ∧ P = { P₀ with state := .running } ∧ P₀.pid = p ∧
      (∀ d, d ≠ c → s.current d ≠ some p) ∧
      sched = (s.setCurrent c (some p)).setProcess p P := by
  unfold switchTo at h
  split at h
  · cases h
  · rename_i hother
    push Not at hother
    cases hslot : p.slot with
    | none =>
      rw [hslot] at h
      cases h
    | some i =>
      rw [hslot] at h
      simp only at h
      split at h
      · cases h
      · rename_i hgen
        rw [ne_eq, not_not] at hgen
        cases hproc : s.processes i with
        | occupied P₀ =>
          rw [hproc] at h
          simp only at h
          split at h
          · cases h
          · rename_i hstored
            rw [ne_eq, not_not] at hstored
            split at h
            · cases h
            · cases h
              refine ⟨P₀, ?_, rfl, hstored, fun d hd ↦ hother d hd, ?_⟩
              · simp [view, hslot, hgen, hproc]
              · simp [setProcess, hslot]
        | _ =>
          rw [hproc] at h
          cases h

theorem switchTo_error {reason : Panic} (hview : s.view p = .occupied P) (hstored : P.pid = p)
    (hother : ∀ d, d ≠ c → s.current d ≠ some p) (h : s.switchTo c p = .error reason) :
    reason = .frameCs ∨ reason = .frameRip ∨ reason = .frameSs ∨ reason = .frameRsp := by
  obtain ⟨i, hslot, hpid, hproc⟩ := slot_of_eq hview (by simp)
  have hgen := (eq_pidAt_iff.mp hpid).2
  have hnot : ¬ ∃ d, d ≠ c ∧ s.current d = some p := fun ⟨d, hd, hcur⟩ ↦ hother d hd hcur
  unfold switchTo at h
  simp only [hnot, if_false, hslot, hgen, ne_eq, not_true, hproc, hstored] at h
  unfold frameAssertions at h
  split at h
  · rename_i panic hassert
    cases h
    repeat' split at hassert
    all_goals first
      | (cases hassert; simp)
      | cases hassert
  · cases h

theorem waitOutcome_eq (s : Inner E) (target caller : Pid) :
    s.waitOutcome target caller = match s.view target with
      | .zombie parent status => if parent = caller then .alreadyDone status else .invalid
      | .occupied P => if P.parent = some caller then .mustBlock else .invalid
      | _ => .invalid := by
  unfold waitOutcome view
  cases target.slot with
  | none => rfl
  | some i =>
    by_cases hgen : s.generations i = target.generation
    · cases hslot : s.processes i <;> simp [hgen, hslot]
    · simp [hgen]

theorem waitOutcome_done_iff {status : ExitStatus} :
    s.waitOutcome target caller = .alreadyDone status ↔ s.view target = .zombie caller status := by
  rw [waitOutcome_eq]
  cases s.view target with
  | zombie parent st => by_cases hpar : parent = caller <;> simp [hpar]
  | occupied P => by_cases hpar : P.parent = some caller <;> simp [hpar]
  | empty | reserved => simp

theorem waitOutcome_block_iff :
    s.waitOutcome target caller = .mustBlock ↔
      ∃ P, s.view target = .occupied P ∧ P.parent = some caller := by
  rw [waitOutcome_eq]
  cases s.view target with
  | zombie parent st => by_cases hpar : parent = caller <;> simp [hpar]
  | occupied P => by_cases hpar : P.parent = some caller <;> simp [hpar]
  | empty | reserved => simp

theorem waitForChild_done {status : ExitStatus}
    (h : s.waitOutcome target caller = .alreadyDone status) :
    s.view target = .zombie caller status ∧
      (s.waitForChild target caller).table = s.table.set target .empty ∧
      (s.Honest → (s.waitForChild target caller).Honest) := by
  have hview := waitOutcome_done_iff.mp h
  obtain ⟨i, hslot, hpid, -⟩ := slot_of_eq hview (by simp)
  have heq : s.waitForChild target caller = s.setSlot i .empty := by
    simp [waitForChild, h, hslot]
  refine ⟨hview, ?_, fun hhonest ↦ ?_⟩
  · rw [heq, table_setSlot, ← hpid]
  · rw [heq]
    exact hhonest.congr rfl rfl

theorem waitForChild_block (h : s.waitOutcome target caller = .mustBlock) :
    ∃ P, s.view target = .occupied P ∧ P.parent = some caller ∧
      s.waitForChild target caller = s.setProcess target { P with waitWaiter := some caller } := by
  obtain ⟨P, hview, hpar⟩ := waitOutcome_block_iff.mp h
  obtain ⟨i, hslot, hpid, hproc⟩ := slot_of_eq hview (by simp)
  exact ⟨P, hview, hpar, by simp [waitForChild, h, hslot, hproc, setProcess]⟩

theorem mayTerminate_iff : s.mayTerminate target caller = true ↔
      ∃ P, s.view target = .occupied P ∧ P.parent = some caller := by
  unfold mayTerminate
  cases hocc : s.occupiedMut target with
  | none =>
    have hnone := occupiedMut_eq_none.mp hocc
    constructor
    · intro h
      cases h
    · rintro ⟨P, hP, -⟩
      exact absurd hP (hnone P)
  | some P =>
    have hview := occupiedMut_eq_some.mp hocc
    simp only [decide_eq_true_eq]
    constructor
    · intro hpar
      exact ⟨P, hview, hpar⟩
    · rintro ⟨P', hP', hpar⟩
      rw [hview] at hP'
      cases hP'
      exact hpar

theorem owningCore_some (h : s.owningCore target = some c) : s.current c = some target := by
  simpa using List.find?_some h

theorem owningCore_none (h : s.owningCore target = none) (c : CoreId) :
    s.current c ≠ some target := by
  have hall := List.find?_eq_none.mp h c (List.mem_finRange c)
  simpa using hall

theorem table_dispatch {sched' : Inner E} (hpop : s.pop = (some p, sched))
    (hswitch : sched.switchTo c p = .ok (P, sched')) :
    ∃ P₀ rest, s.queue = p :: rest ∧ s.view p = .occupied P₀ ∧ P = { P₀ with state := .running } ∧
      P₀.pid = p ∧ sched'.table = s.table.dispatch c p P₀ ∧ (s.Honest → sched'.Honest) := by
  obtain ⟨rest, hqueue, hsched⟩ := pop_some hpop
  obtain ⟨P₀, hview, hP, hpid, -, heq⟩ := switchTo_ok hswitch
  have hview' : s.view p = .occupied P₀ := by rw [← hview, hsched, view_pop]
  obtain ⟨-, hrest, -⟩ := pop_cons hqueue
  have hset : ((sched.setCurrent c (some p)).setProcess p P).table =
      (sched.setCurrent c (some p)).table.set p (.occupied P) :=
    table_setProcess (s := sched.setCurrent c (some p)) hview P
  refine ⟨P₀, rest, hqueue, hview', hP, hpid, ?_, fun hhonest ↦ ?_⟩
  · rw [heq, hset, hsched]
    refine Table.ext (funext fun q ↦ ?_) ?_ ?_ ?_
    · rw [Table.set_view, Table.dispatch_view, hP]
      rfl
    · rw [Table.dispatch_queue, table_queue, hqueue]
      exact hrest
    · rfl
    · rfl
  · have hpopped : sched.Honest := by
      rw [hsched]
      exact hhonest.pop
    obtain ⟨hready, -, -, hhist⟩ :=
      setProcess_fields (s := sched.setCurrent c (some p)) (p := p) hview P
    rw [heq]
    refine hpopped.congr ?_ hhist
    unfold queue
    rw [hready]
    rfl

theorem table_pop_none (h : s.pop = (none, sched)) :
    sched.table = s.table ∧ (s.Honest → sched.Honest) := by
  obtain ⟨hqueue, rfl⟩ := pop_none h
  obtain ⟨-, hnil, -⟩ := pop_nil hqueue
  refine ⟨Table.ext rfl ?_ rfl rfl, Honest.pop⟩
  rw [table_queue, table_queue, hqueue, hnil]

theorem finalize_absent (h : ∀ P, s.view p ≠ .occupied P) (hne : s.view p ≠ .empty)
    (status : ExitStatus) : s.finalize p status = (s, []) := by
  obtain ⟨i, hslot, hpid⟩ := slot_of_view hne
  have hproc : ∀ P, s.processes i ≠ .occupied P := by
    intro P hP
    exact h P (by rw [hpid, view_pidAt, hP])
  unfold finalize finalizeFuel takeAndFinalizeSlot
  cases hcase : s.processes i with
  | occupied P => exact absurd hcase (hproc P)
  | _ => simp [hslot, hcase]

end Tarnos.Task.Inner
