import Mathlib.Algebra.BigOperators.Fin
import Mathlib.Algebra.Order.BigOperators.Group.Finset
import Tarnos.Foundation.Sums
import Tarnos.Task.Steady

namespace Tarnos.Task

open Abi Foundation Function Table

variable {E : Type}

/-- Whether the process in the slot owns the address space of frame `a`. -/
def Slot.holds (a : ℕ) (slot : Slot E) : ℕ := if slot.frame = some a then 1 else 0

def boxHolds (a : ℕ) (boxes : List (Process E)) : ℕ := (boxes.map Process.addressSpace).count a

@[simp] theorem boxHolds_nil (a : ℕ) : boxHolds a ([] : List (Process E)) = 0 := rfl

theorem boxHolds_cons (a : ℕ) (P : Process E) (boxes : List (Process E)) :
    boxHolds a (P :: boxes) = boxHolds a boxes + if P.addressSpace = a then 1 else 0 := by
  simp [boxHolds, List.count_cons]

theorem boxHolds_append (a : ℕ) (boxes boxes' : List (Process E)) :
    boxHolds a (boxes ++ boxes') = boxHolds a boxes + boxHolds a boxes' := by
  simp [boxHolds]

theorem boxHolds_flatMap {ι : Type} (a : ℕ) (l : List ι) (f : ι → List (Process E)) :
    boxHolds a (l.flatMap f) = (l.map fun i ↦ boxHolds a (f i)).sum := by
  induction l with
  | nil => rfl
  | cons i l ih => rw [List.flatMap_cons, boxHolds_append, ih, List.map_cons, List.sum_cons]

theorem boxHolds_pos {a : ℕ} {boxes : List (Process E)} {P : Process E} (hP : P ∈ boxes)
    (ha : P.addressSpace = a) : 0 < boxHolds a boxes :=
  List.count_pos_iff.mpr (List.mem_map.mpr ⟨P, hP, ha⟩)

namespace Inner

variable {s s' : Inner E} {p r : Pid} {P : Process E} {a : ℕ} {i : Fin maxProcesses}

/-- How many processes of the table own the address space of frame `a`. -/
def tableHolds (s : Inner E) (a : ℕ) : ℕ := ∑ i, (s.processes i).holds a

theorem tableHolds_pos (hP : s.view p = .occupied P) (ha : P.addressSpace = a) :
    0 < s.tableHolds a := by
  obtain ⟨i, -, hpid, -⟩ := slot_of_eq hP (by simp)
  have hi : (s.processes i).holds a = 1 := by
    rw [← view_pidAt, ← hpid, hP, Slot.holds, if_pos (by rw [Slot.frame, ha])]
  have hle : (s.processes i).holds a ≤ s.tableHolds a :=
    Finset.single_le_sum (f := fun j ↦ (s.processes j).holds a) (fun _ _ ↦ Nat.zero_le _)
      (Finset.mem_univ i)
  omega

theorem tableHolds_steady (h : s.table.Steady s'.table) : s'.tableHolds a = s.tableHolds a := by
  refine Finset.sum_congr rfl fun i _ ↦ ?_
  unfold Slot.holds
  rw [processes_of_table h.issued, ← s.view_pidAt i]
  have hframe := h.frame (s.pidAt i)
  rw [table_view, table_view] at hframe
  rw [hframe]

theorem tableHolds_allocate {busy : Fin maxProcesses → Bool} (h : s.freeSlot busy = some i) :
    (s.allocatePid busy).2.tableHolds a = s.tableHolds a := by
  refine Finset.sum_congr rfl fun j _ ↦ ?_
  simp only [allocatePid, h]
  by_cases hj : j = i
  · rw [hj, update_self, (freeSlot_some h).1]
    rfl
  · rw [update_of_ne hj]

theorem tableHolds_put (hr : s.view r = .reserved) (hissued : s'.issued = s.issued)
    (hview : ∀ q, s'.view q = if q = r then .occupied P else s.view q) :
    s'.tableHolds a = s.tableHolds a + if P.addressSpace = a then 1 else 0 := by
  obtain ⟨i, -, hpid, -⟩ := slot_of_eq hr (by simp)
  have hprocs : s'.processes = update s.processes i (.occupied P) := by
    funext j
    rw [processes_of_table hissued, hview]
    by_cases hj : j = i
    · rw [hj, update_self, if_pos hpid.symm]
    · rw [update_of_ne hj, if_neg, view_pidAt]
      rw [hpid]
      exact fun heq ↦ hj (s.pidAt_injective heq)
  have hsum := Sums.sum_comp_update (fun slot : Slot E ↦ slot.holds a) s.processes i (.occupied P)
  have hold : (s.processes i).holds a = 0 := by
    rw [← view_pidAt, ← hpid, hr]
    rfl
  have hnew : (Slot.occupied P : Slot E).holds a = if P.addressSpace = a then 1 else 0 := by
    simp [Slot.holds, Slot.frame]
  rw [hold, hnew] at hsum
  unfold tableHolds
  rw [hprocs]
  omega

theorem finalize_slot {status : ExitStatus} (hsound : s.table.Sound) (hP : s.view p = .occupied P)
    (i : Fin maxProcesses) :
    ((s.table.finalize p P status).view (s.pidAt i)).holds a +
      boxHolds a (orphanBox p (s.processes i)) +
      (if s.pidAt i = p then (if P.addressSpace = a then 1 else 0) else 0) =
        (s.processes i).holds a := by
  rw [finalize_view hsound hP, table_view]
  by_cases hip : s.pidAt i = p
  · have hproc : s.processes i = .occupied P := by rw [← view_pidAt, hip, hP]
    have hself : ¬ P.parent = some p := fun hpar ↦ (hsound.parent p P p hP hpar).1 rfl
    have hgone : (reapedSlot p (remains P status)).holds a = 0 := by
      unfold remains
      split
      · simp only [reapedSlot]
        split <;> rfl
      · rfl
    rw [if_pos hip, if_pos hip, hproc, hgone]
    simp [Slot.holds, orphanBox, hself, Slot.frame]
  · rw [if_neg hip, if_neg hip, view_pidAt]
    cases hproc : s.processes i with
    | occupied C =>
      have hC : s.view (s.pidAt i) = .occupied C := by rw [view_pidAt, hproc]
      by_cases hw : P.waitWaiter = some (s.pidAt i)
      · have hblocked := hsound.waiter_blocked hP hw hC
        by_cases hpar : C.parent = some p <;>
          simp [wokenSlot, hw, reapedSlot, hpar, orphanBox, hblocked, Slot.holds, Slot.frame]
      · by_cases hpar : C.parent = some p
        · by_cases hsus : C.state = .suspended
          · by_cases hwait : C.waitWaiter.isSome <;>
              simp [wokenSlot, hw, reapedSlot, hpar, hsus, hwait, orphanBox, Slot.holds,
                Slot.frame, boxHolds_cons]
          · simp [wokenSlot, hw, reapedSlot, hpar, hsus, orphanBox, Slot.holds, Slot.frame]
        · simp [wokenSlot, hw, reapedSlot, hpar, orphanBox, Slot.holds, Slot.frame]
    | zombie parent st =>
      simp only [wokenSlot, reapedSlot, orphanBox]
      split <;> rfl
    | empty | reserved => rfl

theorem tableHolds_finalize {status : ExitStatus} (hsound : s.table.Sound)
    (hP : s.view p = .occupied P) (htable : s'.table = s.table.finalize p P status) :
    s'.tableHolds a + boxHolds a (s.orphanBoxes p ++ [P]) = s.tableHolds a := by
  have hissued : s'.issued = s.issued := by
    rw [← table_issued, htable, finalize_issued, table_issued]
  obtain ⟨k, -, hpid, -⟩ := slot_of_eq hP (by simp)
  have hslots : ∀ i, (s'.processes i).holds a + boxHolds a (orphanBox p (s.processes i)) +
      (if i = k then (if P.addressSpace = a then 1 else 0) else 0) = (s.processes i).holds a := by
    intro i
    rw [← finalize_slot hsound hP i, processes_of_table hissued, ← table_view,
      htable]
    congr 1
    by_cases hik : i = k
    · have hip : s.pidAt i = p := by rw [hik, hpid]
      rw [if_pos hik, if_pos hip]
    · have hip : s.pidAt i ≠ p := fun heq ↦ hik (s.pidAt_injective (heq.trans hpid))
      rw [if_neg hik, if_neg hip]
  have hboxes : boxHolds a (s.orphanBoxes p) = ∑ i, boxHolds a (orphanBox p (s.processes i)) := by
    rw [orphanBoxes, boxHolds_flatMap, Fin.sum_univ_def]
  unfold tableHolds
  rw [← Finset.sum_congr rfl fun i _ ↦ hslots i, Finset.sum_add_distrib, Finset.sum_add_distrib,
    boxHolds_append, boxHolds_cons, boxHolds_nil, hboxes]
  simp only [Finset.sum_ite_eq', Finset.mem_univ, if_true]
  omega

end Inner

end Tarnos.Task
