import Tarnos.Foundation.Pool
import Tarnos.Kernel.Pending
import Tarnos.Task.Occupied

namespace Tarnos.Kernel

open Abi Arch Kcore Tarnos.Task Foundation Foundation.Transition Inner
  Function

variable {E : Type} {slots : ProcessSlots}

def processSlotCount : ℕ := maxProcesses * 2

/-- `PROCESS_SLOT_FREE`, with the slot of every box: those in the table by index, those taken out of
it by the core that has to drop them. -/
abbrev ProcessSlots := Pool (Fin maxProcesses) CoreId processSlotCount

/-- Whether the core may be about to put a process into the table or to take one out. -/
def Main.restocks : Main E → Bool
  | .bootSpawn _ _ _ | .spawnSuspended _ _ | .finalize _ _ | .killScan _ _ => true
  | _ => false

namespace State

/-- The index at which the step puts a process it has given to `ProcessBox::new`. -/
def boxes (s : State E) (a : Action E) : Option (Fin maxProcesses) :=
  match (s.cores a.core).errands, (s.cores a.core).main with
  | [], .bootSpawn pid _ _ => pid.slot
  | [], .spawnSuspended process _ => process.pid.slot
  | _, _ => none

def takesOut (s : State E) (a : Action E) : List (Process E) :=
  match (s.cores a.core).errands, (s.cores a.core).main with
  | [], .finalize pid status => (s.sched.finalize pid status).2
  | [], .killScan target _ =>
    match s.sched.owningCore target with
    | none => (s.sched.finalize target .killed).2
    | some _ => []
  | _, _ => []

/-- What the step does to the pool; nothing if it ends in `alloc_process_slot`'s panic. The record of
a spawn that failed was in no box, and no other box waits on its core then. -/
def follow (s : State E) (a : Action E) (slots : ProcessSlots) : Option ProcessSlots :=
  match s.boxes a, (s.cores a.core).errands with
  | some i, _ => slots.place i
  | none, .dropBox _ :: _ => some (slots.drop a.core)
  | none, _ => some (slots.take a.core ((s.takesOut a).filterMap fun process ↦ process.pid.slot))

def boxedNext [DecidableEq E] (y : State E × ProcessSlots) (a : Action E) :
    Option (State E × ProcessSlots) :=
  (y.1.next a).bind fun s' ↦ (y.1.follow a y.2).map fun slots ↦ (s', slots)

section Steps

variable {s s' b : State E} {a : Action E} {i : Fin maxProcesses} {m : Main E}

theorem Housed.slotted (h : s.Housed) : s.sched.Slotted := by
  intro i P hP
  rw [h.stored (s.sched.pidAt i) P (by rw [view_pidAt, hP])]
  exact s.sched.pidAt_slot i

inductive Stocks (s : State E) (a : Action E) (s' : State E) : Prop
  | boxed {i : Fin maxProcesses} (hboxes : s.boxes a = some i)
      (hreserved : s.sched.processes i = .reserved)
      (hoccupied : s'.sched.occupied = update s.sched.occupied i true)
  | taken (hboxes : s.boxes a = none) (hextracts : s.sched.Extracts s'.sched
      ((s.takesOut a).filterMap fun process ↦ process.pid.slot))

theorem Stocks.same (hboxes : s.boxes a = none) (htakes : s.takesOut a = [])
    (hoccupied : s'.sched.occupied = s.sched.occupied) : s.Stocks a s' := by
  refine .taken hboxes ?_
  rw [htakes]
  exact .of_same hoccupied

theorem unmoved_of_main (herr : (s.cores a.core).errands = [])
    (hmain : (s.cores a.core).main.restocks = false) : s.boxes a = none ∧ s.takesOut a = [] := by
  unfold boxes takesOut
  rw [herr]
  generalize (s.cores a.core).main = m at hmain
  cases m <;> first | exact ⟨rfl, rfl⟩ | cases hmain

theorem Yields.occupied (hyields : s.Yields a.core m b) :
    m.restocks = false ∧ b.sched.occupied = s.sched.occupied := by
  cases hyields with
  | tick hpre => exact ⟨rfl, occupied_preemptCurrent hpre⟩
  | block hblock => exact ⟨rfl, occupied_blockCurrentProcessLocked hblock⟩
  | wait _ hblock =>
    exact ⟨rfl, (occupied_blockCurrentProcessLocked hblock).trans
      (occupied_waitForChild _ _ _)⟩
  | _ => exact ⟨rfl, rfl⟩

theorem occupied_pop {sched popped : Inner E} {front : Option Pid}
    (h : sched.pop = (front, popped)) : popped.occupied = sched.occupied := by
  rw [← show sched.pop.2 = popped from congrArg Prod.snd h]
  rfl

/-- The pool has a box for each process in the table, and each core has boxes for what it still
drops at most. -/
structure Pooled (s : State E) (slots : ProcessSlots) : Prop where
  exact : slots.Exact
  placed : ∀ i, (slots.placed i).isSome = s.sched.occupied i
  waiting : ∀ c, (slots.waiting c).length ≤ (s.cores c).pendingDrops.length

theorem pooled_init (config : BootConfig E) : (init config).Pooled Pool.empty :=
  ⟨.empty, fun _ ↦ rfl, fun _ ↦ Nat.zero_le _⟩

theorem Pooled.boxed {slots slots' : ProcessSlots} (hpooled : s.Pooled slots)
    (hothers : ∀ d, d ≠ a.core → s'.cores d = s.cores d)
    (hnone : (s.cores a.core).pendingDrops = []) (hreserved : s.sched.processes i = .reserved)
    (hoccupied : s'.sched.occupied = update s.sched.occupied i true)
    (hplace : slots.place i = some slots') : s'.Pooled slots' := by
  have hfree : slots.placed i = none := by
    have hnone : (slots.placed i).isSome = false := by
      rw [hpooled.placed]
      simp only [occupied, hreserved]
      rfl
    simpa using hnone
  have hexact := hpooled.exact.place hfree hplace
  obtain ⟨k, -, rfl⟩ := Pool.place_eq_some hplace
  refine ⟨hexact, fun j ↦ ?_, fun d ↦ ?_⟩
  · rw [hoccupied]
    by_cases hj : j = i
    · subst hj
      simp
    · simp [hj, hpooled.placed j]
  · by_cases hd : d = a.core
    · subst hd
      have hold := hpooled.waiting a.core
      rw [hnone] at hold
      exact hold.trans (Nat.zero_le _)
    · rw [hothers d hd]
      exact hpooled.waiting d

theorem Pooled.taken {indices : List (Fin maxProcesses)}
    (hpooled : s.Pooled slots) (hothers : ∀ d, d ≠ a.core → s'.cores d = s.cores d)
    (hextracts : s.sched.Extracts s'.sched indices)
    (hwaiting : (slots.waiting a.core).length + indices.length ≤
      (s'.cores a.core).pendingDrops.length) : s'.Pooled (slots.take a.core indices) := by
  refine ⟨hpooled.exact.take hextracts.nodup a.core, fun j ↦ ?_, fun d ↦ ?_⟩
  · rw [hextracts.rest, ← hpooled.placed j]
    change (Pool.vacate slots.placed indices j).isSome = _
    unfold Pool.vacate
    by_cases hj : j ∈ indices
    · simp [hj]
    · simp [hj]
  · change (update slots.waiting a.core
      (slots.waiting a.core ++ indices.filterMap slots.placed) d).length ≤ _
    by_cases hd : d = a.core
    · subst hd
      rw [update_self, List.length_append]
      have hle := List.length_filterMap_le slots.placed indices
      omega
    · rw [update_of_ne hd, hothers d hd]
      exact hpooled.waiting d

theorem Pooled.dropped (hpooled : s.Pooled slots)
    (hothers : ∀ d, d ≠ a.core → s'.cores d = s.cores d)
    (hoccupied : s'.sched.occupied = s.sched.occupied)
    (hlength : (s.cores a.core).pendingDrops.length = (s'.cores a.core).pendingDrops.length + 1) :
    s'.Pooled (slots.drop a.core) := by
  have hold := hpooled.waiting a.core
  refine ⟨hpooled.exact.drop a.core, fun j ↦ ?_, fun d ↦ ?_⟩
  · rw [hoccupied, ← hpooled.placed j]
    unfold Pool.drop
    split <;> rfl
  · unfold Pool.drop
    by_cases hd : d = a.core
    · subst hd
      split
      · rename_i hnone
        rw [hnone]
        exact Nat.zero_le _
      · rename_i k rest hwaiting
        rw [hwaiting, List.length_cons] at hold
        simp only [update_self]
        omega
    · rw [hothers d hd]
      have hother := hpooled.waiting d
      split
      · exact hother
      · simpa only [update_of_ne hd] using hother

theorem Pooled.placed_le (hpooled : s.Pooled slots) (hreserved : s.sched.processes i = .reserved) :
    (∑ j, if (slots.placed j).isSome then 1 else 0) + s.derelictCount + 1 ≤ maxProcesses := by
  have hslot : ∀ j, (if (slots.placed j).isSome then 1 else 0) + (if s.derelict j then 1 else 0) +
      (if j = i then 1 else 0) ≤ 1 := by
    intro j
    rw [hpooled.placed]
    by_cases hj : j = i
    · subst hj
      simp [occupied, derelict, hreserved, Slot.isOccupied]
    · cases hC : s.sched.processes j with
      | zombie q status =>
        simp only [occupied, derelict, hC, Slot.isOccupied, Bool.false_eq_true, hj, if_false]
        split <;> omega
      | _ => simp [occupied, derelict, hC, Slot.isOccupied, hj]
  have hsum := Finset.sum_le_sum fun j (_ : j ∈ Finset.univ) ↦ hslot j
  rw [Finset.sum_add_distrib, Finset.sum_add_distrib, Finset.sum_ite_eq' Finset.univ i] at hsum
  simpa [derelictCount] using hsum

theorem Pooled.waiting_le {c : CoreId} (hpooled : s.Pooled slots)
    (hladen : s.Laden) (hnone : (s.cores c).pendingDrops = []) :
    (∑ d, (slots.waiting d).length) + 2 ≤ s.derelictCount + 2 * maxCores := by
  have hcore : ∀ d, (slots.waiting d).length + (if d = c then 2 else 0) ≤
      ((s.cores d).pendingDrops.length - 2) + 2 := by
    intro d
    have hle := hpooled.waiting d
    by_cases hd : d = c
    · subst hd
      rw [hnone, List.length_nil] at hle
      rw [if_pos rfl]
      omega
    · rw [if_neg hd]
      omega
  have hsum := Finset.sum_le_sum fun d (_ : d ∈ Finset.univ) ↦ hcore d
  rw [Finset.sum_add_distrib, Finset.sum_add_distrib, Finset.sum_ite_eq' Finset.univ c] at hsum
  unfold Laden at hladen
  simp only [Finset.mem_univ, if_true, Finset.sum_const, Finset.card_univ, Fintype.card_fin,
    smul_eq_mul] at hsum
  omega

theorem Stocks.of_errand {errand : Errand E} {rest : List (Errand E)}
    (herr : (s.cores a.core).errands = errand :: rest)
    (hoccupied : s'.sched.occupied = s.sched.occupied) : s.Stocks a s' := by
  refine .same ?_ ?_ hoccupied
  · simp only [boxes, herr]
  · simp only [takesOut, herr]

theorem Stocks.of_main (herr : (s.cores a.core).errands = []) (hmain : (s.cores a.core).main = m)
    (hm : m.restocks = false) (hoccupied : s'.sched.occupied = s.sched.occupied) :
    s.Stocks a s' := by
  obtain ⟨hboxes, htakes⟩ := unmoved_of_main herr (hmain ▸ hm)
  exact .same hboxes htakes hoccupied

theorem Housed.reserved_of_boxes (hhoused : s.Housed) (hboxes : s.boxes a = some i) :
    (s.cores a.core).errands = [] ∧ (s.cores a.core).pendingDrops = [] ∧
      s.sched.processes i = .reserved := by
  have hfound : (s.cores a.core).errands = [] ∧ (s.cores a.core).main.leftovers = [] ∧
      ∃ p, (s.cores a.core).main.reserves = some p ∧ p.slot = some i := by
    unfold boxes at hboxes
    split at hboxes
    · rename_i pid boot rest herr hmain
      rw [hmain]
      exact ⟨herr, rfl, pid, unplaced_eq hboxes, hboxes⟩
    · rename_i P f herr hmain
      rw [hmain]
      exact ⟨herr, rfl, P.pid, unplaced_eq hboxes, hboxes⟩
    · cases hboxes
  obtain ⟨herr, hleft, p, hreserves, hslot⟩ := hfound
  have hview := hhoused.reserved a.core p hreserves
  obtain ⟨j, hj, hpid, -⟩ := slot_of_eq hview
  cases hslot.symm.trans hj
  refine ⟨herr, ?_, ?_⟩
  · rw [pendingDrops_idle herr, hleft]
  · rw [← view_pidAt, ← hpid, hview]

section

variable [DecidableEq E]

theorem pendingDrops_of_takesOut (hs : s.next a = some s') (htakes : s.takesOut a ≠ []) :
    (s.cores a.core).errands = [] ∧ (s.cores a.core).pendingDrops = [] ∧
      (s'.cores a.core).pendingDrops = s.takesOut a := by
  have hstep := step_of_next hs
  unfold step at hstep
  unfold takesOut at htakes ⊢
  split at htakes
  · rename_i pid status herr hmain
    simp only [herr, hmain, mainStep] at hstep
    cases hstep
    refine ⟨herr, ?_, ?_⟩
    · rw [pendingDrops_idle herr, hmain]
      rfl
    · rw [pendingDrops_goto]
      exact List.append_nil _
  · rename_i target f herr hmain
    split at htakes
    · rename_i howner
      simp only [herr, hmain, mainStep, killScan, howner] at hstep
      split at hstep
      · cases hstep
      · cases hstep
        refine ⟨herr, ?_, ?_⟩
        · rw [pendingDrops_idle herr, hmain]
          rfl
        · rw [pendingDrops_goto, List.filterMap_cons_none rfl, box_dropBox]
          rfl
    · exact absurd rfl htakes
  · exact absurd rfl htakes

end

theorem Stocks.of_reserved {P : Process E} (hhoused : s.Housed) (hboxes : s.boxes a = some i)
    (hoccupied : s'.sched.occupied = (s.sched.setSlot i (.occupied P)).occupied) :
    s.Stocks a s' := by
  refine .boxed hboxes (hhoused.reserved_of_boxes hboxes).2.2 ?_
  rw [hoccupied, occupied_setSlot]
  rfl

theorem Pooled.room (hpooled : s.Pooled slots) (hladen : s.Laden)
    (hhoused : s.Housed) (hboxes : s.boxes a = some i) : slots.size + 1 ≤ processSlotCount := by
  obtain ⟨-, hnone, hreserved⟩ := hhoused.reserved_of_boxes hboxes
  have hplaced := hpooled.placed_le hreserved
  have hwaiting := hpooled.waiting_le hladen hnone
  have hcores : maxCores = 8 := rfl
  have hprocesses : maxProcesses = 16 := rfl
  have hcount : processSlotCount = 32 := rfl
  unfold Pool.size
  omega

variable [DecidableEq E]

theorem Turn.stocks (h : s.Turn a.core s') (hhoused : s.Housed) : s.Stocks a s' := by
  cases h with
  | tasks herr | orphans herr | dropBox herr | clearStackBusy herr => exact .of_errand herr rfl
  | pollSend herr _ htrade | pollRecv herr _ htrade | wakeReceiver herr _ htrade
  | takeWaitingReceiver herr _ htrade => exact .of_errand herr (by rw [htrade.sched])
  | wake herr => exact .of_errand herr (Inner.occupied_wake _ _ _)
  | stay herr hmain hstay =>
    cases hstay with
    | killOwned howner =>
      exact .same (by simp only [boxes, herr, hmain]) (by simp only [takesOut, herr, hmain, howner]) rfl
    | _ => exact .of_main herr hmain rfl rfl
  | trySend herr hmain _ htrade | tryRecv herr hmain _ htrade =>
    exact .of_main herr hmain rfl (by rw [htrade.sched])
  | bootAllocate herr hmain | allocate herr hmain =>
    exact .of_main herr hmain rfl (Inner.occupied_allocatePid _ _)
  | @bootSpawn pid boot rest entry frame sched herr hmain _ hspawn =>
    unfold Inner.spawn at hspawn
    split at hspawn
    · cases hspawn
    · rename_i i hslot
      cases hspawn
      refine .of_reserved hhoused ?_
        (show _ = (s.sched.setSlot i (.occupied (boot.process pid frame entry))).occupied from rfl)
      simp only [boxes, herr, hmain]
      exact hslot
  | @spawn P f sched herr hmain hspawn =>
    unfold Inner.spawnSuspended at hspawn
    split at hspawn
    · cases hspawn
    · rename_i i hslot
      cases hspawn
      refine .of_reserved hhoused ?_
        (show _ = (s.sched.setSlot i (.occupied P)).occupied from rfl)
      simp only [boxes, herr, hmain]
      exact hslot
  | @spawnFail P f e herr hmain hspawn =>
    unfold Inner.spawnSuspended at hspawn
    split at hspawn
    · rename_i hslot
      refine .same ?_ (by simp only [takesOut, herr, hmain]) rfl
      simp only [boxes, herr, hmain]
      exact hslot
    · cases hspawn
  | @record call pid f P herr hmain hP =>
    refine .of_main herr hmain rfl ?_
    have hsched := (recordResolve_fields (f := f)
      (s := s.withSched (s.sched.setProcess pid (callWrites call P))) P call).2.2.1
    change (((s.withSched (s.sched.setProcess pid (callWrites call P))).recordResolve P f
      call).sched).occupied = _
    rw [hsched]
    exact Inner.occupied_setProcess (Inner.occupiedMut_eq_some.mp hP) _
  | release herr hmain =>
    exact .of_main herr hmain rfl (Inner.occupied_releaseReservation _ _)
  | grant herr hmain hP =>
    exact .of_main herr hmain rfl (Inner.occupied_setProcess (Inner.occupiedMut_eq_some.mp hP) _)
  | start herr hmain hstart =>
    exact .of_main herr hmain rfl (Inner.occupied_startChild hstart)
  | collect herr hmain =>
    exact .of_main herr hmain rfl (Inner.occupied_waitForChild _ _ _)
  | kill herr hmain howner =>
    refine .taken (by simp only [boxes, herr, hmain]) ?_
    simp only [takesOut, herr, hmain, howner]
    exact Inner.extracts_finalize hhoused.slotted _ _
  | exit herr hmain =>
    refine .taken (by simp only [boxes, herr, hmain]) ?_
    simp only [takesOut, herr, hmain]
    exact Inner.extracts_finalize hhoused.slotted _ _
  | dispatch herr hmain hyields hpop hswitch =>
    obtain ⟨hm, hocc⟩ := hyields.occupied
    exact .of_main herr hmain hm
      ((Inner.occupied_switchTo hswitch).trans ((occupied_pop hpop).trans hocc))
  | abandon herr hmain hyields hpop =>
    obtain ⟨hm, hocc⟩ := hyields.occupied
    exact .of_main herr hmain hm ((occupied_pop hpop).trans hocc)
  | resumeTick herr hmain hpre hpop =>
    exact .of_main herr hmain rfl ((occupied_pop hpop).trans (Inner.occupied_preemptCurrent hpre))
  | rest herr hmain hpop =>
    exact .of_main herr hmain rfl (occupied_pop hpop)
  | bootDone herr hmain | trap herr hmain | leave herr hmain | ignoreIpi herr hmain
  | sendReturn herr hmain | recvReturn herr hmain | load herr hmain | request herr hmain
  | withdraw herr hmain | mark herr hmain =>
    exact .of_main herr hmain rfl rfl

theorem Pooled.next {slots slots' : ProcessSlots} (hpooled : s.Pooled slots) (hhoused : s.Housed)
    (hdrops : s.Drops a.core s') (hs : s.next a = some s')
    (hfollow : s.follow a slots = some slots') : s'.Pooled slots' := by
  have hothers : ∀ d, d ≠ a.core → s'.cores d = s.cores d := fun d hd ↦ (next_turn hs).others hd
  cases (next_turn hs).stocks hhoused with
  | boxed hboxes hreserved hoccupied =>
    have hnone := (hhoused.reserved_of_boxes hboxes).2.1
    simp only [follow, hboxes] at hfollow
    exact hpooled.boxed hothers hnone hreserved hoccupied hfollow
  | taken hboxes hextracts =>
    by_cases htakes : s.takesOut a = []
    · have hoccupied : s'.sched.occupied = s.sched.occupied := by
        funext i
        rw [hextracts.rest i, htakes]
        simp
      have hstay : slots' = slots.take a.core [] →
          (s.cores a.core).pendingDrops.length ≤ (s'.cores a.core).pendingDrops.length →
            s'.Pooled slots' := by
        rintro rfl hkeeps
        exact hpooled.taken hothers (.of_same hoccupied) ((hpooled.waiting a.core).trans hkeeps)
      cases hdrops with
      | @errand errand rest herr hlength =>
        simp only [follow, hboxes, herr, htakes, List.filterMap_nil] at hfollow
        cases errand with
        | dropBox P =>
          cases hfollow
          exact hpooled.dropped hothers hoccupied hlength
        | _ =>
          cases hfollow
          exact hstay rfl (le_of_eq hlength)
      | carried herr hkeeps =>
        simp only [follow, hboxes, herr, htakes, List.filterMap_nil] at hfollow
        cases hfollow
        exact hstay rfl hkeeps
      | ended hends _ _ hold =>
        have herr := (terminates_cases hends).1
        simp only [follow, hboxes, herr, htakes, List.filterMap_nil] at hfollow
        cases hfollow
        exact hstay rfl (by rw [hold]; exact Nat.zero_le _)
    · obtain ⟨herr, hold, hnew⟩ := pendingDrops_of_takesOut hs htakes
      simp only [follow, hboxes, herr] at hfollow
      cases hfollow
      refine hpooled.taken hothers hextracts ?_
      have hempty := hpooled.waiting a.core
      rw [hold, List.length_nil] at hempty
      have hle := List.length_filterMap_le (fun process : Process E ↦ process.pid.slot) (s.takesOut a)
      rw [hnew]
      omega

end Steps

section Runs

variable [DecidableEq E] {config : BootConfig E} {x y : State E × ProcessSlots} {a : Action E}

theorem boxedNext_eq_some (h : boxedNext x a = some y) :
    x.1.next a = some y.1 ∧ x.1.follow a x.2 = some y.2 := by
  obtain ⟨s', hs, h⟩ := Option.bind_eq_some_iff.mp h
  obtain ⟨slots, hfollow, rfl⟩ := Option.map_eq_some_iff.mp h
  exact ⟨hs, hfollow⟩

theorem forget_boxes (h : Reach boxedNext (fun z a ↦ z.1.NoWrap a) x y) :
    Reach next State.NoWrap x.1 y.1 := by
  induction h with
  | refl => exact .refl
  | step _ hok hnext ih => exact ih.step hok (boxedNext_eq_some hnext).1

theorem boxed_of_failing {s t : State E} (h : Reach next State.Failing s t)
    (slots : ProcessSlots) : Reach boxedNext (fun _ _ ↦ True) (s, slots) (t, slots) := by
  induction h with
  | refl => exact .refl
  | @step t u a _ hok hnext ih =>
    obtain ⟨herr, hspawning⟩ := hok
    have hmain : (t.cores a.core).main.restocks = false := by
      generalize (t.cores a.core).main = m at hspawning
      cases m <;> first | rfl | cases hspawning
    obtain ⟨hboxes, htakes⟩ := unmoved_of_main herr hmain
    have hfollow : t.follow a slots = some slots := by
      simp only [follow, hboxes, herr, htakes, List.filterMap_nil, Pool.take_nil]
    have hboxed : boxedNext (t, slots) a = some (u, slots) := by
      simp only [boxedNext, hnext, hfollow, Option.bind_some, Option.map_some]
    exact ih.step trivial hboxed

variable [Fintype E]

theorem pooled_of_reach
    (h : Reach boxedNext (fun z a ↦ z.1.NoWrap a) (init config, Pool.empty) y) :
    y.1.Pooled y.2 ∧ y.1.Laden := by
  induction h with
  | refl => exact ⟨pooled_init config, laden_init config⟩
  | @step z u a hreach hok hnext ih =>
    obtain ⟨hs, hfollow⟩ := boxedNext_eq_some hnext
    have hrun := forget_boxes hreach
    have hinv := inv_of_noWrap (fun _ _ h ↦ h) hrun
    have hhoused := (lawful_of_reach hrun).1
    have hdrops := (hinv.effect hok hs).drops
    exact ⟨ih.1.next hhoused hdrops hs hfollow, ih.2.next hinv hok hs⟩

/-- Without a wrapped generation counter the pool has a slot left whenever a process is boxed, and
no two boxes share one. -/
theorem boxes_fit (config : BootConfig E) (y : State E × ProcessSlots)
    (h : Reach boxedNext (fun z a ↦ z.1.NoWrap a) (init config, Pool.empty) y) :
    (∀ a i, y.1.boxes a = some i → y.2.size + 1 ≤ processSlotCount ∧ y.2.alloc ≠ none) ∧
      ∀ k, y.2.holders k ≤ 1 := by
  obtain ⟨hpooled, hladen⟩ := pooled_of_reach h
  have hhoused := (lawful_of_reach (forget_boxes h)).1
  refine ⟨fun a i hboxes ↦ ?_, hpooled.exact.single⟩
  have hroom := hpooled.room hladen hhoused hboxes
  refine ⟨hroom, fun hnone ↦ ?_⟩
  have hfull := hpooled.exact.alloc_eq_none_iff.mp hnone
  omega

end Runs

def pair : BootConfig Unit := ⟨fun _ ↦ true, [⟨[]⟩, ⟨[]⟩]⟩

def bootPair : List (Action Unit) :=
  advance 0 2 ++ [⟨0, .image 0 0⟩, go 0, ⟨0, .image 0 1⟩] ++ advance 0 4 ++ advance 1 3

def spawnMany (c : CoreId) (frame count : ℕ) : List (Action Unit) :=
  (List.range count).flatMap fun k ↦ spawnOn c (frame + k)

def exitUndropped (c : CoreId) : List (Action Unit) := serve c sysExit 0 6

def visit (c : CoreId) (frame : ℕ) (child : Pid) : List (Action Unit) :=
  spawnAndStart frame child ++ advance c 3 ++ exitUndropped c ++ serve 0 sysWait child.raw 4

theorem boxes_fit_spawn :
    ∃ y, Reach boxedNext (fun z a ↦ z.1.NoWrap a) (init pair, Pool.empty) y ∧
      y.1.boxes (go 0) = some 2 ∧ y.2.size = 2 ∧ y.2.alloc ≠ none := by
  refine exists_of_run (bootPair ++ (spawnOn 0 2).take 5) (by decide +kernel) fun y hreach
    (hholds : y.1.boxes (go 0) = some 2 ∧ y.2.size = 2) ↦ ?_
  exact ⟨hholds.1, hholds.2, ((boxes_fit pair y hreach).1 _ _ hholds.1).2⟩

/-- The process on core 1 exits with fourteen suspended children and its core stops with fifteen
boxes. Once the generation of its slot has wrapped, a process with its pid exits and reaps the
fourteen slots, and they are filled again. -/
theorem boxes_exhausted :
    ∃ y i, Reach boxedNext (fun _ _ ↦ True) (init pair, Pool.empty) y ∧
      y.1.boxes (go 0) = some i ∧ y.2.size = processSlotCount ∧ y.2.alloc = none := by
  have hrun : (run boxedNext (init pair, Pool.empty) (bootPair ++ spawnMany 1 2 14 ++
      exitUndropped 1 ++ serve 0 sysSpawn 0 3 ++ [⟨0, .refuse⟩] ++ advance 0 2)).map
      (fun x ↦ x.1.spawns 1 && decide ((run boxedNext (x.1.regen 1 0, x.2)
        (visit 2 20 (Pid.new 1 1) ++ visit 3 21 (Pid.new 1 2) ++ visit 4 22 (Pid.new 1 3) ++
          visit 5 23 (Pid.new 1 4) ++ visit 6 24 (Pid.new 1 5) ++ visit 7 25 (Pid.new 1 6) ++
          spawnMany 0 30 10 ++ (spawnOn 0 50).take 5)).map (fun y ↦
            decide (y.1.boxes (go 0) = some 11 ∧ y.2.size = processSlotCount ∧ y.2.alloc = none)) =
              some true)) = some true := by
    decide +kernel
  obtain ⟨x, hx, hholds⟩ := Option.map_eq_some_iff.mp hrun
  obtain ⟨hspawns, hafter⟩ := Bool.and_eq_true_iff.mp hholds
  obtain ⟨y, hy, hholds⟩ := Option.map_eq_some_iff.mp (of_decide_eq_true hafter)
  obtain ⟨hboxes, hsize, halloc⟩ := of_decide_eq_true hholds
  have hwrap := boxed_of_failing ((Spawner.of_spawns hspawns).fails 0) x.2
  exact ⟨y, 11, ((run_reach hx).trans hwrap).trans (run_reach hy), hboxes, hsize, halloc⟩

end State

end Tarnos.Kernel
