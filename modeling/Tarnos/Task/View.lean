import Tarnos.Task.Termination

namespace Tarnos.Task

open Abi Arch Kcore Function Pid

theorem Pid.slot_eq_some {p : Pid} {i : Fin maxProcesses} : p.slot = some i ↔ p.index = i := by
  unfold slot
  constructor
  · intro h
    split at h
    · cases h
      rfl
    · cases h
  · intro h
    have hlt : p.index < maxProcesses := h ▸ i.isLt
    rw [dif_pos hlt]
    exact congrArg some (Fin.ext h)

theorem Pid.slot_new (i : Fin maxProcesses) (g : UInt32) : (new i g).slot = some i := by
  have hlt : (i : ℕ) < 2 ^ 32 := lt_trans i.isLt (by decide)
  exact slot_eq_some.mpr (index_new hlt g)

theorem Pid.slot_new_full (g : UInt32) : (new maxProcesses g).slot = none := by
  have hindex := index_new (i := maxProcesses) (by decide) g
  simp [slot, hindex]

namespace Inner

variable {E : Type} {s : Inner E} {p q : Pid} {i : Fin maxProcesses} {P : Process E}

def pidAt (s : Inner E) (i : Fin maxProcesses) : Pid := new i (s.generations i)

/-- The table by pid: what the slot holds if the pid names it, and nothing otherwise. -/
def view (s : Inner E) (p : Pid) : Slot E :=
  match p.slot with
  | none => .empty
  | some i => if s.generations i = p.generation then s.processes i else .empty

theorem eq_pidAt_iff : p = s.pidAt i ↔ p.slot = some i ∧ s.generations i = p.generation := by
  have hlt : (i : ℕ) < 2 ^ 32 := lt_trans i.isLt (by decide)
  constructor
  · rintro rfl
    exact ⟨slot_new i _, (generation_new hlt _).symm⟩
  · rintro ⟨hslot, hgen⟩
    apply eq_of_index_generation
    · rw [pidAt, index_new hlt]
      exact slot_eq_some.mp hslot
    · rw [pidAt, generation_new hlt, hgen]

theorem pidAt_slot (s : Inner E) (i : Fin maxProcesses) : (s.pidAt i).slot = some i :=
  slot_new i _

theorem pidAt_injective (s : Inner E) : Function.Injective s.pidAt := by
  intro i j h
  have hslot := congrArg slot h
  rw [pidAt_slot, pidAt_slot] at hslot
  exact Option.some.inj hslot

@[simp] theorem view_pidAt (s : Inner E) (i : Fin maxProcesses) :
    s.view (s.pidAt i) = s.processes i := by
  obtain ⟨hslot, hgen⟩ := (eq_pidAt_iff (s := s) (i := i)).mp rfl
  simp only [view, hslot, hgen, if_true]

theorem view_cases (s : Inner E) (p : Pid) :
    (∃ i, p = s.pidAt i) ∨ (s.view p = .empty ∧ ∀ i, p ≠ s.pidAt i) := by
  by_cases h : ∃ i, p = s.pidAt i
  · exact .inl h
  · push Not at h
    refine .inr ⟨?_, h⟩
    unfold view
    cases hslot : p.slot with
    | none => rfl
    | some i =>
      refine if_neg fun hgen ↦ ?_
      exact h i (eq_pidAt_iff.mpr ⟨hslot, hgen⟩)

theorem exists_pidAt (h : s.view p ≠ .empty) : ∃ i, p = s.pidAt i := by
  rcases s.view_cases p with hpid | ⟨hempty, -⟩
  · exact hpid
  · exact absurd hempty h

theorem slot_of_view (h : s.view p ≠ .empty) : ∃ i, p.slot = some i ∧ p = s.pidAt i := by
  obtain ⟨i, rfl⟩ := exists_pidAt h
  exact ⟨i, s.pidAt_slot i, rfl⟩

theorem slot_of_eq {slot : Slot E} (h : s.view p = slot) (hne : slot ≠ .empty := by simp) :
    ∃ i, p.slot = some i ∧ p = s.pidAt i ∧ s.processes i = slot := by
  obtain ⟨i, hslot, rfl⟩ := slot_of_view (h ▸ hne)
  exact ⟨i, hslot, rfl, by rw [← h, view_pidAt]⟩

theorem view_init (p : Pid) : (init : Inner E).view p = .empty := by
  unfold view init
  simp only
  split
  · rfl
  · split <;> rfl

theorem occupiedMut_eq (s : Inner E) (p : Pid) :
    s.occupiedMut p = match s.view p with
      | .occupied process => some process
      | _ => none := by
  unfold occupiedMut view
  cases p.slot with
  | none => rfl
  | some i =>
    by_cases hgen : s.generations i = p.generation
    · cases hslot : s.processes i <;> simp [hgen, hslot]
    · simp [hgen]

theorem occupiedMut_eq_some : s.occupiedMut p = some P ↔ s.view p = .occupied P := by
  rw [occupiedMut_eq]
  cases s.view p <;> simp

theorem occupiedMut_eq_none : s.occupiedMut p = none ↔ ∀ P, s.view p ≠ .occupied P := by
  rw [occupiedMut_eq]
  cases s.view p <;> simp

theorem view_setSlot (s : Inner E) (i : Fin maxProcesses) (slot : Slot E) (q : Pid) :
    (s.setSlot i slot).view q = if q = s.pidAt i then slot else s.view q := by
  rcases s.view_cases q with ⟨j, rfl⟩ | ⟨hempty, hne⟩
  · have hpid : (s.setSlot i slot).pidAt j = s.pidAt j := rfl
    rw [← hpid, view_pidAt, hpid]
    by_cases hij : j = i
    · subst hij
      simp [setSlot]
    · have hpne : s.pidAt j ≠ s.pidAt i := fun h ↦ hij (s.pidAt_injective h)
      rw [if_neg hpne, view_pidAt]
      simp [setSlot, hij]
  · rw [if_neg (hne i), hempty]
    rcases (s.setSlot i slot).view_cases q with ⟨j, hj⟩ | ⟨hempty', -⟩
    · exact absurd hj (hne j)
    · exact hempty'

@[simp] theorem view_push (s : Inner E) (q : Pid) : (s.push q).view = s.view := rfl

@[simp] theorem view_pop (s : Inner E) : s.pop.2.view = s.view := rfl

@[simp] theorem view_setCurrent (s : Inner E) (c : CoreId) (q : Option Pid) :
    (s.setCurrent c q).view = s.view := rfl

@[simp] theorem view_clearCurrent (s : Inner E) (q : Pid) : (s.clearCurrent q).view = s.view := rfl

@[simp] theorem view_removeFromReadyQueue (s : Inner E) (q : Pid) :
    (s.removeFromReadyQueue q).view = s.view := rfl

theorem setProcess_eq (h : s.view p = .occupied P) (P' : Process E) :
    ∃ i, p = s.pidAt i ∧ s.setProcess p P' = s.setSlot i (.occupied P') := by
  obtain ⟨i, hslot, hpid, -⟩ := slot_of_eq h (by simp)
  exact ⟨i, hpid, by rw [setProcess, hslot]⟩

theorem view_setProcess (h : s.view p = .occupied P) (P' : Process E) (q : Pid) :
    (s.setProcess p P').view q = if q = p then .occupied P' else s.view q := by
  obtain ⟨i, hpid, heq⟩ := setProcess_eq h P'
  rw [heq, view_setSlot, ← hpid]

theorem setProcess_self (h : s.view p = .occupied P) : s.setProcess p P = s := by
  obtain ⟨i, rfl, heq⟩ := setProcess_eq h P
  rw [heq, setSlot, ← h, view_pidAt, update_eq_self]

theorem setProcess_fields (h : s.view p = .occupied P) (P' : Process E) :
    (s.setProcess p P').ready = s.ready ∧ (s.setProcess p P').current = s.current ∧
      (s.setProcess p P').generations = s.generations ∧
      (s.setProcess p P').history = s.history := by
  obtain ⟨i, -, heq⟩ := setProcess_eq h P'
  rw [heq]
  exact ⟨rfl, rfl, rfl, rfl⟩

end Inner

end Tarnos.Task
