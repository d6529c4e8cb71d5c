import Mathlib.Data.Fintype.Card
import Tarnos.Task.Kept

namespace Tarnos.Task

open Abi Arch Kcore Function

variable {E : Type}

def Slot.isOccupied : Slot E → Bool
  | .occupied _ => true
  | _ => false

theorem Slot.isOccupied_iff {slot : Slot E} : slot.isOccupied = true ↔ ∃ P, slot = .occupied P := by
  cases slot <;> simp [isOccupied]

namespace Inner

variable {s t u : Inner E} {i : Fin maxProcesses} {l l' : List (Fin maxProcesses)} {p : Pid}
  {P : Process E} {c : CoreId} {take : Pid → ExitStatus → Finalizing E → Finalizing E}
  {acc : Finalizing E}

def occupied (s : Inner E) (i : Fin maxProcesses) : Bool := (s.processes i).isOccupied

theorem occupied_setSlot (s : Inner E) (i : Fin maxProcesses) (slot : Slot E) :
    (s.setSlot i slot).occupied = update s.occupied i slot.isOccupied := by
  funext j
  by_cases hj : j = i
  · subst hj
    simp [occupied, setSlot]
  · simp [occupied, setSlot, hj]

theorem occupied_setSlot_same (slot : Slot E)
    (h : (s.processes i).isOccupied = slot.isOccupied) :
    (s.setSlot i slot).occupied = s.occupied := by
  rw [occupied_setSlot, ← h]
  exact update_eq_self i s.occupied

theorem occupied_setProcess (h : s.view p = .occupied P) (P' : Process E) :
    (s.setProcess p P').occupied = s.occupied := by
  obtain ⟨i, rfl, heq⟩ := setProcess_eq h P'
  rw [heq]
  refine occupied_setSlot_same _ ?_
  rw [← view_pidAt, h]
  rfl

theorem occupied_wake (s : Inner E) (p : Pid) (result : WakeResult) :
    (s.wakeBlockedProcessLocked p result).occupied = s.occupied := by
  rcases s.wakeBlockedProcessLocked_cases p result with
    ⟨-, heq⟩ | ⟨P, hP, -, heq⟩ | ⟨P, hP, -, heq⟩
  · rw [heq]
  · rw [heq]
    exact occupied_setProcess hP _
  · rw [heq]
    exact occupied_setProcess hP _

theorem occupied_startChild {target caller : Pid} (h : s.startChild target caller = .ok t) :
    t.occupied = s.occupied := by
  obtain ⟨P, hP, -, -, rfl⟩ := startChild_ok h
  exact occupied_setProcess hP _

theorem occupied_preemptCurrent {f : TrapFrame} (h : s.preemptCurrent c f = .ok t) :
    t.occupied = s.occupied := by
  unfold preemptCurrent at h
  split at h
  · cases h
    rfl
  · split at h
    · cases h
    · split at h
      · rename_i P hP
        cases h
        exact occupied_setSlot_same _ (by rw [hP]; rfl)
      · cases h
        rfl

theorem occupied_blockCurrentProcessLocked {f : TrapFrame}
    (h : s.blockCurrentProcessLocked c f = .ok t) : t.occupied = s.occupied := by
  unfold blockCurrentProcessLocked at h
  split at h
  · cases h
    rfl
  · split at h
    · cases h
    · split at h
      · rename_i P hP
        split at h
        · cases h
          exact occupied_setSlot_same _ (by rw [hP]; rfl)
        · cases h
          exact occupied_setSlot_same _ (by rw [hP]; rfl)
      · cases h
        rfl

theorem occupied_waitForChild (s : Inner E) (target caller : Pid) :
    (s.waitForChild target caller).occupied = s.occupied := by
  unfold waitForChild
  split
  · rename_i status i hwait hslot
    refine occupied_setSlot_same _ ?_
    cases hi : s.processes i with
    | occupied P =>
      simp only [waitOutcome, hslot, hi] at hwait
      split_ifs at hwait
    | _ => rfl
  · split
    · rename_i P hP
      exact occupied_setSlot_same _ (by rw [hP]; rfl)
    · rfl
  · rfl

theorem occupied_switchTo (h : s.switchTo c p = .ok (P, t)) : t.occupied = s.occupied := by
  obtain ⟨P₀, hP₀, -, -, -, rfl⟩ := switchTo_ok h
  exact occupied_setProcess (s := s.setCurrent c (some p)) hP₀ P

theorem occupied_allocatePid (s : Inner E) (busy : Fin maxProcesses → Bool) :
    (s.allocatePid busy).2.occupied = s.occupied := by
  unfold allocatePid
  split
  · rfl
  · rename_i i hfree
    exact occupied_setSlot_same .reserved (by rw [(freeSlot_some hfree).1]; rfl)

theorem occupied_releaseReservation (s : Inner E) (p : Pid) :
    (s.releaseReservation p).occupied = s.occupied := by
  unfold releaseReservation
  split
  · rfl
  · split
    · rfl
    · split
      · rename_i hi
        exact occupied_setSlot_same _ (by rw [hi]; rfl)
      · rfl

def Slotted (s : Inner E) : Prop := ∀ i P, s.processes i = .occupied P → P.pid.slot = some i

theorem Slotted.kept (h : s.Slotted) (ht : s.Kept t) : t.Slotted := by
  intro i P' hP'
  obtain ⟨P, hP, hbecame⟩ := ht.evolves.occupied i P' hP'
  rw [hbecame.pid]
  exact h i P hP

/-- The processes at `indices` have been taken out of the table. -/
structure Extracts (s t : Inner E) (indices : List (Fin maxProcesses)) : Prop where
  nodup : indices.Nodup
  occupied : ∀ i ∈ indices, s.occupied i = true
  rest : ∀ i, t.occupied i = (s.occupied i && !decide (i ∈ indices))

theorem Extracts.of_same (h : t.occupied = s.occupied) : s.Extracts t [] := by
  refine ⟨List.nodup_nil, fun i hi ↦ (by cases hi), fun i ↦ ?_⟩
  rw [h]
  simp

theorem Extracts.trans (h : s.Extracts t l) (h' : t.Extracts u l') : s.Extracts u (l ++ l') := by
  refine ⟨List.nodup_append.mpr ⟨h.nodup, h'.nodup, ?_⟩, fun i hi ↦ ?_, fun i ↦ ?_⟩
  · rintro i hi j hj rfl
    have hocc := h'.occupied i hj
    rw [h.rest i] at hocc
    simp [hi] at hocc
  · rcases List.mem_append.mp hi with hi | hi
    · exact h.occupied i hi
    · have hocc := h'.occupied i hi
      rw [h.rest i] at hocc
      exact (Bool.and_eq_true_iff.mp hocc).1
  · rw [h'.rest, h.rest]
    by_cases hi : i ∈ l <;> by_cases hi' : i ∈ l' <;> simp [hi, hi']

theorem Extracts.perm (h : s.Extracts t l) (hperm : l.Perm l') : s.Extracts t l' := by
  refine ⟨hperm.nodup_iff.mp h.nodup, fun i hi ↦ h.occupied i (hperm.mem_iff.mpr hi), fun i ↦ ?_⟩
  rw [h.rest, decide_eq_decide.mpr hperm.mem_iff]

/-- A termination moves processes from the table to the boxes it collects. -/
def Takes (acc acc' : Finalizing E) : Prop :=
  ∃ new, acc'.2 = acc.2 ++ new ∧ acc.1.Extracts acc'.1 (new.filterMap fun P ↦ P.pid.slot)

theorem Takes.of_same {acc' : Finalizing E} (hocc : acc'.1.occupied = acc.1.occupied)
    (hboxes : acc'.2 = acc.2) : Takes acc acc' :=
  ⟨[], by rw [hboxes, List.append_nil], .of_same hocc⟩

theorem Takes.trans {acc' acc'' : Finalizing E} (h : Takes acc acc') (h' : Takes acc' acc'') :
    Takes acc acc'' := by
  obtain ⟨new, hboxes, hextracts⟩ := h
  obtain ⟨new', hboxes', hextracts'⟩ := h'
  refine ⟨new ++ new', by rw [hboxes', hboxes, List.append_assoc], ?_⟩
  rw [List.filterMap_append]
  exact hextracts.trans hextracts'

theorem Takes.reapSlot
    (htake : ∀ pid status (acc : Finalizing E), acc.1.Slotted → Takes acc (take pid status acc))
    (exiting : Pid) (hs : acc.1.Slotted) (i : Fin maxProcesses) :
    Takes acc (reapSlot take exiting acc i) := by
  unfold Inner.reapSlot
  split
  · rename_i C hC
    split
    · split
      · exact htake _ _ acc hs
      · exact .of_same (occupied_setSlot_same _ (by rw [hC]; rfl)) rfl
    · exact .of_same rfl rfl
  · rename_i hzombie
    split
    · exact .of_same (occupied_setSlot_same _ (by rw [hzombie]; rfl)) rfl
    · exact .of_same rfl rfl
  · exact .of_same rfl rfl

theorem Takes.reapChildrenOf
    (htake : ∀ pid status (acc : Finalizing E), acc.1.Slotted → Takes acc (take pid status acc))
    (hkept : ∀ pid status (acc : Finalizing E),
      acc.1.Evolves Process.Became (take pid status acc).1)
    (exiting : Pid) (acc : Finalizing E) (hs : acc.1.Slotted) :
    Takes acc (reapChildrenOf take exiting acc) := by
  unfold Inner.reapChildrenOf
  generalize List.finRange maxProcesses = indices
  induction indices generalizing acc with
  | nil => exact .of_same rfl rfl
  | cons i rest ih =>
    rw [List.foldl_cons]
    have hround := Evolves.reapSlot Process.Became.allows hkept exiting acc i
    exact (Takes.reapSlot htake exiting hs i).trans (ih _ (hs.kept hround.kept))

theorem occupied_notifyParent (h : s.processes i = .empty) (P : Process E) (status : ExitStatus) :
    (s.notifyParent i P status).occupied = s.occupied := by
  unfold notifyParent
  split
  · exact occupied_wake s _ _
  · split
    · exact occupied_setSlot_same _ (by rw [h]; rfl)
    · rfl

theorem Takes.takeAndFinalizeSlot (fuel : ℕ) (pid : Pid) (status : ExitStatus)
    (acc : Finalizing E) (hs : acc.1.Slotted) :
    Takes acc (takeAndFinalizeSlot fuel pid status acc) := by
  induction fuel generalizing pid status acc with
  | zero => exact .of_same rfl rfl
  | succ fuel ih =>
    unfold Inner.takeAndFinalizeSlot
    split
    · exact .of_same rfl rfl
    · rename_i i _
      split
      · rename_i P hP
        generalize htaken :
          ((acc.1.setSlot i .empty).removeFromReadyQueue pid).clearCurrent pid = taken
        have hocc : taken.occupied = update acc.1.occupied i false := by
          subst htaken
          exact occupied_setSlot acc.1 i .empty
        have hempty : taken.processes i = .empty := by
          subst htaken
          exact update_self ..
        have hvacate : acc.1.Extracts taken [i] := by
          refine ⟨List.nodup_singleton i, fun j hj ↦ ?_, fun j ↦ ?_⟩
          · rw [List.mem_singleton.mp hj]
            exact Slot.isOccupied_iff.mpr ⟨P, hP⟩
          · rw [hocc]
            by_cases hj : j = i
            · subst hj
              simp
            · simp [hj]
        have hkept : acc.1.Evolves Process.Became (taken.notifyParent i P status) := by
          subst htaken
          exact .taken Process.Became.allows hP pid status
        obtain ⟨new, hboxes, hextracts⟩ := Takes.reapChildrenOf ih
          (Evolves.takeAndFinalizeSlot Process.Became.allows fuel) pid
          (taken.notifyParent i P status, acc.2) (hs.kept hkept.kept)
        have hnotify : taken.Extracts (taken.notifyParent i P status) [] :=
          .of_same (occupied_notifyParent hempty P status)
        have hsingle : [P].filterMap (fun Q ↦ Q.pid.slot) = [i] := by simp [hs i P hP]
        dsimp only
        refine ⟨new ++ [P], by rw [hboxes, List.append_assoc], ?_⟩
        rw [List.filterMap_append, hsingle]
        exact ((hvacate.trans hnotify).trans hextracts).perm List.perm_append_comm
      · exact .of_same rfl rfl

theorem extracts_finalize (hs : s.Slotted) (p : Pid) (status : ExitStatus) :
    s.Extracts (s.finalize p status).1
      ((s.finalize p status).2.filterMap fun P ↦ P.pid.slot) := by
  obtain ⟨new, hboxes, hextracts⟩ := Takes.takeAndFinalizeSlot finalizeFuel p status (s, []) hs
  have hnew : (s.finalize p status).2 = new := hboxes
  rw [hnew]
  exact hextracts

def population (s : Inner E) : ℕ := (Finset.univ.filter fun i ↦ s.occupied i = true).card

theorem population_lt_finalizeFuel (s : Inner E) : s.population < finalizeFuel := by
  have h := Finset.card_filter_le Finset.univ fun i ↦ s.occupied i = true
  rw [Finset.card_univ, Fintype.card_fin] at h
  exact Nat.lt_succ_of_le h

theorem Kept.occupied_of (h : s.Kept t) (hi : t.occupied i = true) : s.occupied i = true := by
  obtain ⟨P', hP'⟩ := Slot.isOccupied_iff.mp hi
  obtain ⟨P, hP, -⟩ := h.occupied i P' hP'
  exact Slot.isOccupied_iff.mpr ⟨P, hP⟩

theorem Kept.population_le (h : s.Kept t) : t.population ≤ s.population := by
  refine Finset.card_le_card fun i hi ↦ ?_
  rw [Finset.mem_filter] at hi ⊢
  exact ⟨hi.1, h.occupied_of hi.2⟩

theorem Kept.population_lt (h : s.Kept t) (hs : s.occupied i = true) (ht : t.occupied i = false) :
    t.population < s.population := by
  refine Finset.card_lt_card (Finset.ssubset_iff_of_subset (fun j hj ↦ ?_) |>.mpr ⟨i, ?_, ?_⟩)
  · rw [Finset.mem_filter] at hj ⊢
    exact ⟨hj.1, h.occupied_of hj.2⟩
  · exact Finset.mem_filter.mpr ⟨Finset.mem_univ i, hs⟩
  · simp [ht]

theorem reapChildrenOf_congr {take' : Pid → ExitStatus → Finalizing E → Finalizing E}
    (hkept : ∀ pid status (acc : Finalizing E), acc.1.Kept (take pid status acc).1) {n : ℕ}
    (htake : ∀ pid status (acc : Finalizing E), acc.1.population < n →
      take pid status acc = take' pid status acc)
    (exiting : Pid) (acc : Finalizing E) (hacc : acc.1.population < n) :
    reapChildrenOf take exiting acc = reapChildrenOf take' exiting acc := by
  unfold Inner.reapChildrenOf
  generalize List.finRange maxProcesses = indices
  induction indices generalizing acc with
  | nil => rfl
  | cons i rest ih =>
    have hround : reapSlot take exiting acc i = reapSlot take' exiting acc i := by
      unfold Inner.reapSlot
      rw [htake _ _ acc hacc]
    have hle := (Evolves.reapSlot Process.Became.allows (fun pid status acc ↦
      (hkept pid status acc).evolves) exiting acc i).kept.population_le
    rw [List.foldl_cons, List.foldl_cons, ← hround]
    exact ih _ (hle.trans_lt hacc)

/-- Each nested call works on a table with one process less, so a fuel above the number of
processes is never used up. -/
theorem takeAndFinalizeSlot_congr (fuel fuel' : ℕ) (pid : Pid) (status : ExitStatus)
    (acc : Finalizing E) (h : acc.1.population < fuel) (h' : acc.1.population < fuel') :
    takeAndFinalizeSlot fuel pid status acc = takeAndFinalizeSlot fuel' pid status acc := by
  induction fuel generalizing fuel' pid status acc with
  | zero => omega
  | succ fuel ih =>
    cases fuel' with
    | zero => omega
    | succ fuel' =>
      unfold Inner.takeAndFinalizeSlot
      cases hslot : pid.slot with
      | none => rfl
      | some i =>
        dsimp only
        split
        · rename_i P hP
          have hkept := (Evolves.taken Process.Became.allows hP pid status).kept
          have hempty : (((acc.1.setSlot i .empty).removeFromReadyQueue pid).clearCurrent
              pid).processes i = .empty := update_self ..
          have hgone : ((((acc.1.setSlot i .empty).removeFromReadyQueue pid).clearCurrent
              pid).notifyParent i P status).occupied i = false := by
            rw [occupied_notifyParent hempty, occupied, hempty]
            rfl
          generalize (((acc.1.setSlot i .empty).removeFromReadyQueue pid).clearCurrent
            pid).notifyParent i P status = told at hkept hgone
          have hless := hkept.population_lt (Slot.isOccupied_iff.mpr ⟨P, hP⟩) hgone
          rw [reapChildrenOf_congr (fun pid status acc ↦
              (Evolves.takeAndFinalizeSlot Process.Became.allows fuel pid status acc).kept)
            (fun pid status acc hacc ↦ ih fuel' pid status acc (by omega) (by omega)) pid
            (told, acc.2) hless]
        · rfl

theorem takeAndFinalizeSlot_of_le (s : Inner E) (pid : Pid) (status : ExitStatus) {fuel : ℕ}
    (h : finalizeFuel ≤ fuel) :
    takeAndFinalizeSlot fuel pid status (s, []) = s.finalize pid status :=
  takeAndFinalizeSlot_congr fuel finalizeFuel pid status (s, [])
    (s.population_lt_finalizeFuel.trans_le h) s.population_lt_finalizeFuel

end Inner

end Tarnos.Task
