import Tarnos.Kernel.Statuses

namespace Tarnos.Kernel

open Abi Arch Kcore Tarnos.Task Foundation Foundation.Transition Inner
  Function

variable {E : Type}

def Core.pendingDrops (core : Core E) : List (Process E) :=
  core.main.leftovers ++ core.errands.filterMap Errand.box

theorem Main.leftovers_boxes (m : Main E) :
    m.leftovers.length ≤ m.boxes.length ∧ m.boxes.length ≤ max m.leftovers.length 1 := by
  cases m <;> simp [Main.leftovers, Main.boxes]

namespace State

inductive Drops (s : State E) (c : CoreId) (s' : State E) : Prop
  | errand {errand : Errand E} {rest : List (Errand E)}
      (herr : (s.cores c).errands = errand :: rest)
      (hlength : (s.cores c).pendingDrops.length =
        (s'.cores c).pendingDrops.length + errand.box.toList.length)
  | carried (herr : (s.cores c).errands = [])
      (hkeeps : (s.cores c).pendingDrops.length ≤ (s'.cores c).pendingDrops.length)
      (hgrows : (s'.cores c).pendingDrops.length ≤ max (s.cores c).pendingDrops.length 1)
  | ended {p : Pid} {P : Process E} {status : ExitStatus} (hends : s.terminates c = some (p, status))
      (hP : s.sched.view p = .occupied P)
      (htable : s'.sched.table = s.sched.table.finalize p P status)
      (hold : (s.cores c).pendingDrops = [])
      (hnew : (s'.cores c).pendingDrops = s.sched.orphanBoxes p ++ [P])

section Steps

variable {s s' b : State E} {c : CoreId} {a : Action E} {m : Main E}
  {errands : List (Errand E)} {p : Pid} {P : Process E} {status : ExitStatus} {i : Fin maxProcesses}

theorem pendingDrops_idle (herr : (s.cores c).errands = []) :
    (s.cores c).pendingDrops = (s.cores c).main.leftovers := by
  unfold Core.pendingDrops
  rw [herr, List.filterMap_nil, List.append_nil]

theorem pendingDrops_goto :
    ((b.goto c m errands).cores c).pendingDrops = m.leftovers ++ errands.filterMap Errand.box := by
  unfold Core.pendingDrops
  rw [goto_main, goto_errands]

/-- The slot holds a zombie whose parent is gone: nobody will collect it. -/
def derelict (s : State E) (i : Fin maxProcesses) : Bool :=
  match s.sched.processes i with
  | .zombie parent _ => !s.isLive parent
  | _ => false

def derelictCount (s : State E) : ℕ := ∑ i, if s.derelict i then 1 else 0

/-- Beyond two boxes a core has to drop, every box has left a derelict slot. -/
def Laden (s : State E) : Prop :=
  ∑ c, ((s.cores c).pendingDrops.length - 2) ≤ s.derelictCount

theorem laden_init (config : BootConfig E) : (init config).Laden := by
  have hnone : ∀ c, ((init config).cores c).pendingDrops = [] := by
    intro c
    simp only [init, Core.pendingDrops]
    split
    · rfl
    · split <;> rfl
  unfold Laden
  simp [hnone]

theorem Drops.none (herr : (s.cores c).errands = []) (hold : (s.cores c).main.leftovers = [])
    (hnew : (s'.cores c).pendingDrops = []) : s.Drops c s' := by
  refine .carried herr ?_ ?_
  · rw [pendingDrops_idle herr, hold]
    exact Nat.zero_le _
  · rw [hnew]
    exact Nat.zero_le _

theorem Drops.of_boxes (herr : (s.cores c).errands = [])
    (hnew : (s'.cores c).pendingDrops = (s.cores c).main.boxes) : s.Drops c s' := by
  obtain ⟨hle, hge⟩ := (s.cores c).main.leftovers_boxes
  refine .carried herr ?_ ?_
  · rw [pendingDrops_idle herr, hnew]
    exact hle
  · rw [pendingDrops_idle herr, hnew]
    exact hge

theorem derelict_iff : s.derelict i = true ↔
    ∃ q status, s.sched.processes i = .zombie q status ∧ ¬ s.sched.table.Live q := by
  unfold derelict
  cases hslot : s.sched.processes i with
  | zombie q status =>
    have hlive : (!s.isLive q) = true ↔ ¬ s.sched.table.Live q := by
      rw [Bool.not_eq_true', ← Bool.not_eq_true, isLive_iff]
      rfl
    refine hlive.trans ⟨fun h ↦ ⟨q, status, rfl, h⟩, ?_⟩
    rintro ⟨_, _, heq, h⟩
    cases heq
    exact h
  | _ => simp

section

variable [Fintype E]

theorem Inv.waited_child (h : s.Inv False) (hP : s.sched.view p = .occupied P) :
    ∃ k, ∀ i C, s.sched.processes i = .occupied C → C.parent = some p → C.waitWaiter ≠ none →
      i = k := by
  have hwaits : ∀ i C, s.sched.processes i = .occupied C → C.parent = some p →
      C.waitWaiter ≠ none → s.sched.table.Waits p (s.sched.pidAt i) := by
    intro i C hC hparent hwaiter
    have hview : s.sched.view (s.sched.pidAt i) = .occupied C := by rw [view_pidAt, hC]
    obtain ⟨w, hw⟩ := Option.ne_none_iff_exists'.mp hwaiter
    refine ⟨C, hview, ?_⟩
    obtain ⟨hw', -⟩ | ⟨hnone, -⟩ := h.scene.sound.waiter _ C w hview hw
    · rw [hw, ← hparent, hw']
    · cases hnone.symm.trans hparent
  by_cases hsome : ∃ k C, s.sched.processes k = .occupied C ∧ C.parent = some p ∧ C.waitWaiter ≠ none
  · obtain ⟨k, K, hK, hparent, hwaiter⟩ := hsome
    refine ⟨k, fun i C hC hparent' hwaiter' ↦ s.sched.pidAt_injective ?_⟩
    exact h.waits_unique hP (hwaits k K hK hparent hwaiter) (hwaits i C hC hparent' hwaiter')
  · exact ⟨⟨0, by decide⟩, fun i C hC hparent hwaiter ↦ absurd ⟨i, C, hC, hparent, hwaiter⟩ hsome⟩

end

variable [DecidableEq E]

theorem Effect.drops (heff : s.Effect c s') : s.Drops c s' := by
  cases heff with
  | @errand errand rest more b herr _ _ _ _ _ hmore =>
    refine .errand herr ?_
    rw [pendingDrops_goto, List.filterMap_append, box_light hmore, List.nil_append]
    unfold Core.pendingDrops
    rw [herr, List.filterMap_cons]
    cases hbox : errand.box with
    | none => rfl
    | some P =>
      simp only [List.length_append, List.length_cons, Option.toList_some, List.length_nil]
      omega
  | light herr hold hnew _ _ _ _ _ _ _ _ herrands =>
    refine .none herr (leftovers_light hold) ?_
    rw [pendingDrops_goto, leftovers_light hnew, box_light herrands, List.nil_append]
  | trap herr hmain hnew =>
    refine .none herr (by rw [hmain]; rfl) ?_
    rw [setCore_self]
    exact congrArg (· ++ []) (leftovers_light hnew)
  | leave herr hmain | bootDone herr hmain =>
    refine .none herr (by rw [hmain]; rfl) ?_
    rw [setCore_self]
    rfl
  | reserve herr _ _ hold hnew =>
    refine .none herr (leftovers_light hold) ?_
    rw [pendingDrops_goto, leftovers_light hnew]
    rfl
  | load herr hmain | spawn herr hmain | bootSpawn herr hmain | mark herr hmain =>
    refine .none herr (by rw [hmain]; rfl) ?_
    rw [pendingDrops_goto]
    rfl
  | @spawnFail P f g herr hmain =>
    refine .of_boxes herr ?_
    rw [pendingDrops_goto, hmain]
    rfl
  | @exit p P status errands b herr hmain _ hP _ htable _ _ herrands =>
    refine .ended (terminates_exit herr hmain) hP htable ?_ ?_
    · rw [pendingDrops_idle herr, hmain]
      rfl
    · rw [pendingDrops_goto, box_light herrands, List.append_nil]
      rfl
  | @kill target q T f g b dying herr hmain hT _ hcur _ htable =>
    have howner : s.sched.owningCore target = none := by
      cases howner : s.sched.owningCore target with
      | none => rfl
      | some core => exact absurd (owningCore_some howner) (hcur core)
    refine .ended (terminates_kill herr hmain howner) hT htable ?_ ?_
    · rw [pendingDrops_idle herr, hmain]
      rfl
    · rw [pendingDrops_goto, List.filterMap_cons_none rfl, box_dropBox]
      rfl
  | dispatch herr _ _ _ _ _ _ hmid =>
    refine .of_boxes herr ?_
    unfold Core.pendingDrops
    rw [State.dispatch, setCore_self, List.filterMap_append, List.filterMap_append, box_dropBox,
      box_light hmid, box_outgoing, List.append_nil, List.append_nil]
    rfl
  | abandon herr _ _ hmid =>
    refine .of_boxes herr ?_
    unfold Core.pendingDrops
    rw [State.abandon, setCore_self, List.filterMap_append, List.filterMap_append, box_dropBox,
      box_light hmid, box_outgoing, List.append_nil, List.nil_append]
    rfl

variable [Fintype E]

section

variable (h : s.Inv False) (hwrap : s.NoWrap a) (hs : s.next a = some s')

include h hwrap hs

theorem Inv.derelict_stays (hi : s.derelict i = true) : s'.derelict i = true := by
  obtain ⟨q, status, hzombie, hdead⟩ := derelict_iff.mp hi
  have hview : s.sched.view (s.sched.pidAt i) = .zombie q status := by
    rw [view_pidAt, hzombie]
  have hknown := (h.scene.sound.zombie _ q status hview).1
  have hgone := (h.dead_stays hwrap hs ⟨hknown, hdead⟩).2
  have hfate := h.fate (next_turn hs) (p := s.sched.pidAt i)
  rw [hview] at hfate
  generalize hview' : s'.sched.view (s.sched.pidAt i) = slot at hfate
  cases hfate with
  | same =>
    have hne : s'.sched.view (s.sched.pidAt i) ≠ .empty := by
      rw [hview']
      simp
    obtain ⟨j, hslot, hpid⟩ := slot_of_view hne
    cases (s.sched.pidAt_slot i).symm.trans hslot
    rw [hpid, view_pidAt] at hview'
    exact derelict_iff.mpr ⟨q, status, hview', hgone⟩
  | collected _ hmain =>
    obtain ⟨Q, hQ, -⟩ := h.scene.sound.running _ _ (h.current_of_caller hmain rfl)
    exact absurd ⟨Q, hQ⟩ hdead
  | cleared _ hQ => exact absurd ⟨_, hQ⟩ hdead

theorem Inv.derelict_ended (hends : s.terminates a.core = some (p, status))
    (hP : s.sched.view p = .occupied P)
    (htable : s'.sched.table = s.sched.table.finalize p P status) {C : Process E}
    (hC : s.sched.processes i = .occupied C) (hparent : C.parent = some p)
    (hstate : C.state = .suspended) (hwaiter : C.waitWaiter = none) : s'.derelict i = true := by
  have hsound : s.sched.table.Sound := h.scene.sound
  have hview : s.sched.view (s.sched.pidAt i) = .occupied C := by rw [view_pidAt, hC]
  have hne : s.sched.pidAt i ≠ p := fun heq ↦ (hsound.parent _ C p hview hparent).1 heq.symm
  have hunwoken : P.waitWaiter ≠ some (s.sched.pidAt i) := by
    intro hwait
    cases hstate.symm.trans (hsound.waiter_blocked hP hwait hview)
  have hissued : s'.sched.issued = s.sched.issued := by
    rw [← table_issued, htable, Table.finalize_issued, table_issued]
  have hslot : s'.sched.processes i = .zombie p .killed := by
    rw [processes_of_table hissued, ← table_view, htable,
      Table.finalize_view hsound hP, if_neg hne, table_view, hview]
    simp [Table.wokenSlot, hunwoken, Table.reapedSlot, hparent, hstate, hwaiter]
  exact derelict_iff.mpr ⟨p, .killed, hslot, (h.dead_after hwrap hs hends hP).2⟩

theorem Inv.derelictCount_le : s.derelictCount ≤ s'.derelictCount := by
  refine Finset.sum_le_sum fun i _ ↦ ?_
  split
  · rename_i hi
    rw [if_pos (h.derelict_stays hwrap hs hi)]
  · exact Nat.zero_le _

theorem Inv.derelictCount_ended (hends : s.terminates a.core = some (p, status))
    (hP : s.sched.view p = .occupied P)
    (htable : s'.sched.table = s.sched.table.finalize p P status) :
    s.derelictCount + (s.sched.orphanBoxes p).length ≤ s'.derelictCount + 1 := by
  obtain ⟨k, hk⟩ := h.waited_child hP
  have hslot : ∀ i, (if s.derelict i then 1 else 0) +
      (orphanBox p (s.sched.processes i)).length ≤
        (if s'.derelict i then 1 else 0) + if i = k then 1 else 0 := by
    intro i
    cases hC : s.sched.processes i with
    | occupied C =>
      have hnot : s.derelict i = false := by simp only [derelict, hC]
      rw [hnot]
      by_cases horphan : C.parent = some p ∧ C.state = .suspended
      · simp only [orphanBox, if_pos horphan, List.length_singleton]
        cases hwaiter : C.waitWaiter with
        | none =>
          rw [if_pos (h.derelict_ended hwrap hs hends hP htable hC horphan.1 horphan.2 hwaiter)]
          simp
        | some w =>
          rw [if_pos (hk i C hC horphan.1 (by rw [hwaiter]; simp))]
          simp
      · simp [orphanBox, horphan]
    | zombie q st =>
      have hkeep := h.derelict_stays (i := i) hwrap hs
      simp only [orphanBox, List.length_nil, Nat.add_zero]
      split
      · rename_i hi
        rw [if_pos (hkeep hi)]
        exact Nat.le_add_right _ _
      · exact Nat.zero_le _
    | _ =>
      have hnot : s.derelict i = false := by simp only [derelict, hC]
      simp [hnot, orphanBox]
  have hboxes : (s.sched.orphanBoxes p).length =
      ∑ i, (orphanBox p (s.sched.processes i)).length := by
    rw [orphanBoxes, List.length_flatMap, Fin.sum_univ_def]
  have hsum := Finset.sum_le_sum fun i (_ : i ∈ Finset.univ) ↦ hslot i
  rw [Finset.sum_add_distrib, Finset.sum_add_distrib, Finset.sum_ite_eq' Finset.univ k] at hsum
  rw [hboxes]
  unfold derelictCount
  simpa using hsum

end

theorem Laden.next (hladen : s.Laden) (h : s.Inv False) (hwrap : s.NoWrap a)
    (hs : s.next a = some s') : s'.Laden := by
  have hcores : s'.cores = update s.cores a.core (s'.cores a.core) := by
    funext d
    by_cases hd : d = a.core
    · rw [hd, update_self]
    · rw [update_of_ne hd, (next_turn hs).others hd]
  have hsum := Sums.sum_comp_update (fun core : Core E ↦ core.pendingDrops.length - 2) s.cores a.core
    (s'.cores a.core)
  rw [← hcores] at hsum
  have hcount := h.derelictCount_le hwrap hs
  unfold Laden at hladen ⊢
  cases (h.effect hwrap hs).drops with
  | errand _ hlength | carried _ _ hgrows => omega
  | ended hends hP htable hold hnew =>
    have hended := h.derelictCount_ended hwrap hs hends hP htable
    rw [hold, hnew, List.length_append, List.length_singleton] at hsum
    simp only [List.length_nil] at hsum
    omega

end Steps

end State

end Tarnos.Kernel
