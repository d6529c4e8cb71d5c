import Tarnos.Task.Queue

namespace Tarnos.Task

open Abi Arch Kcore Function

/-- The scheduler state seen by pid: what each pid names, the pids waiting to run, the pid each
core runs, and the pids given out so far. -/
@[ext] structure Table (E : Type) where
  view : Pid → Slot E
  queue : List Pid
  current : CoreId → Option Pid
  issued : Pid → Prop

namespace Table

variable {E : Type}

def set (t : Table E) (p : Pid) (slot : Slot E) : Table E :=
  { t with view := update t.view p slot }

def enqueue (t : Table E) (p : Pid) : Table E := { t with queue := t.queue ++ [p] }

def setCurrent (t : Table E) (c : CoreId) (p : Option Pid) : Table E :=
  { t with current := update t.current c p }

def issue (t : Table E) (p : Pid) : Table E := { t with issued := fun q ↦ q = p ∨ t.issued q }

/-- Take `p` off the queue and off every core, leaving `slot` behind. -/
def remove (t : Table E) (p : Pid) (slot : Slot E) : Table E where
  view := update t.view p slot
  queue := t.queue.filter fun q ↦ q ≠ p
  current := fun c ↦ if t.current c = some p then none else t.current c
  issued := t.issued

def dispatch (t : Table E) (c : CoreId) (p : Pid) (P : Process E) : Table E where
  view := update t.view p (.occupied { P with state := .running })
  queue := t.queue.tail
  current := update t.current c (some p)
  issued := t.issued

/-- Core `c` lets go of `p`, whose record becomes `P`, and `joined` enters the queue. -/
def letGo (t : Table E) (c : CoreId) (p : Pid) (P : Process E) (joined : List Pid) : Table E where
  view := update t.view p (.occupied P)
  queue := t.queue ++ joined
  current := update t.current c none
  issued := t.issued

/-- Complete the call a process is blocked in, or leave the result for it to find. -/
def wake (t : Table E) (p : Pid) (result : WakeResult) : Table E :=
  match t.view p with
  | .occupied P =>
    if P.state = .blocked then (t.set p (.occupied (applyWakeResult P result))).enqueue p
    else t.set p (.occupied { P with pendingWake := some result })
  | _ => t

def reapedSlot (exiting : Pid) : Slot E → Slot E
  | .occupied C =>
    if C.parent = some exiting then
      if C.state = .suspended then
        if C.waitWaiter.isSome then .empty else .zombie exiting .killed
      else .occupied { C with parent := none }
    else .occupied C
  | .zombie parent status => if parent = exiting then .empty else .zombie parent status
  | slot => slot

def reap (t : Table E) (exiting : Pid) : Table E :=
  { t with view := fun q ↦ reapedSlot exiting (t.view q) }

/-- The slot a terminated process leaves: nothing if its parent was waiting or it had none. -/
def remains (P : Process E) (status : ExitStatus) : Slot E :=
  match P.waitWaiter, P.parent with
  | none, some parent => .zombie parent status
  | _, _ => .empty

/-- Terminate the process `p`: take it out, tell its parent, see to its children. -/
def finalize (t : Table E) (p : Pid) (P : Process E) (status : ExitStatus) : Table E :=
  match P.waitWaiter with
  | some waiter => ((t.remove p .empty).wake waiter (.waitCompleted status)).reap p
  | none => (t.remove p (remains P status)).reap p

section Fields

variable (t : Table E) (p q : Pid) (slot : Slot E) (c d : CoreId)

@[simp] theorem set_view : (t.set p slot).view q = if q = p then slot else t.view q := by
  simp [set, update_apply]

@[simp] theorem set_queue : (t.set p slot).queue = t.queue := rfl

@[simp] theorem set_current : (t.set p slot).current = t.current := rfl

@[simp] theorem set_issued : (t.set p slot).issued = t.issued := rfl

@[simp] theorem enqueue_view : (t.enqueue p).view = t.view := rfl

@[simp] theorem enqueue_queue : (t.enqueue p).queue = t.queue ++ [p] := rfl

@[simp] theorem enqueue_current : (t.enqueue p).current = t.current := rfl

@[simp] theorem enqueue_issued : (t.enqueue p).issued = t.issued := rfl

@[simp] theorem setCurrent_view (r : Option Pid) : (t.setCurrent c r).view = t.view := rfl

@[simp] theorem setCurrent_queue (r : Option Pid) : (t.setCurrent c r).queue = t.queue := rfl

@[simp] theorem setCurrent_current (r : Option Pid) :
    (t.setCurrent c r).current d = if d = c then r else t.current d := by
  simp [setCurrent, update_apply]

@[simp] theorem setCurrent_issued (r : Option Pid) : (t.setCurrent c r).issued = t.issued := rfl

@[simp] theorem issue_view : (t.issue p).view = t.view := rfl

@[simp] theorem issue_queue : (t.issue p).queue = t.queue := rfl

@[simp] theorem issue_current : (t.issue p).current = t.current := rfl

@[simp] theorem issue_issued : (t.issue p).issued q ↔ q = p ∨ t.issued q := Iff.rfl

@[simp] theorem remove_view : (t.remove p slot).view q = if q = p then slot else t.view q := by
  simp [remove, update_apply]

@[simp] theorem remove_queue :
    (t.remove p slot).queue = t.queue.filter fun r ↦ r ≠ p := rfl

@[simp] theorem remove_current :
    (t.remove p slot).current c = if t.current c = some p then none else t.current c := rfl

@[simp] theorem remove_issued : (t.remove p slot).issued = t.issued := rfl

@[simp] theorem letGo_view (P : Process E) (joined : List Pid) :
    (t.letGo c p P joined).view q = if q = p then .occupied P else t.view q := by
  simp [letGo, update_apply]

@[simp] theorem letGo_setCurrent (P : Process E) (joined : List Pid) :
    (t.letGo c p P joined).setCurrent c none = t.letGo c p P joined := by
  simp [letGo, setCurrent]

@[simp] theorem dispatch_view (P : Process E) :
    (t.dispatch c p P).view q = if q = p then .occupied { P with state := .running } else t.view q := by
  simp [dispatch, update_apply]

@[simp] theorem dispatch_queue (P : Process E) : (t.dispatch c p P).queue = t.queue.tail := rfl

@[simp] theorem dispatch_current (P : Process E) :
    (t.dispatch c p P).current d = if d = c then some p else t.current d := by
  simp [dispatch, update_apply]

@[simp] theorem dispatch_issued (P : Process E) : (t.dispatch c p P).issued = t.issued := rfl

end Fields

section Reaped

variable {exiting parent : Pid} {slot : Slot E} {status : ExitStatus}

theorem reapedSlot_occupied {C' : Process E} (h : reapedSlot exiting slot = .occupied C') :
    ∃ C, slot = .occupied C ∧ C'.parent ≠ some exiting ∧
      (C' = C ∨ C' = { C with parent := none } ∧ C.parent = some exiting ∧ C.state ≠ .suspended) := by
  cases slot with
  | occupied C =>
    refine ⟨C, rfl, ?_⟩
    simp only [reapedSlot] at h
    by_cases hparent : C.parent = some exiting
    · by_cases hstate : C.state = .suspended
      · by_cases hwait : C.waitWaiter.isSome <;> simp [hparent, hstate, hwait] at h
      · simp only [hparent, hstate, if_true, if_false, Slot.occupied.injEq] at h
        subst h
        exact ⟨by simp, .inr ⟨rfl, hparent, hstate⟩⟩
    · simp only [hparent, if_false, Slot.occupied.injEq] at h
      subst h
      exact ⟨hparent, .inl rfl⟩
  | zombie q st =>
    simp only [reapedSlot] at h
    split at h <;> cases h
  | empty | reserved => cases h

theorem reapedSlot_zombie (h : reapedSlot exiting slot = .zombie parent status) :
    (slot = .zombie parent status ∧ parent ≠ exiting) ∨
    (parent = exiting ∧ ∃ C, slot = .occupied C ∧ C.parent = some exiting ∧
      C.state = .suspended ∧ C.waitWaiter = none) := by
  cases slot with
  | occupied C =>
    simp only [reapedSlot] at h
    by_cases hparent : C.parent = some exiting
    · by_cases hstate : C.state = .suspended
      · cases hwait : C.waitWaiter with
        | some w => simp [hparent, hstate, hwait] at h
        | none =>
          simp only [hparent, hstate, hwait, if_true, Option.isSome_none, Bool.false_eq_true,
            if_false, Slot.zombie.injEq] at h
          exact .inr ⟨h.1.symm, C, rfl, hparent, hstate, hwait⟩
      · simp [hparent, hstate] at h
    · simp [hparent] at h
  | zombie q st =>
    simp only [reapedSlot] at h
    split at h
    · cases h
    · rename_i hne
      cases h
      exact .inl ⟨rfl, hne⟩
  | empty | reserved => cases h

theorem reapedSlot_reserved : reapedSlot exiting slot = .reserved ↔ slot = .reserved := by
  cases slot with
  | occupied C =>
    simp only [reapedSlot]
    by_cases hparent : C.parent = some exiting
    · by_cases hstate : C.state = .suspended
      · by_cases hwait : C.waitWaiter.isSome <;> simp [hparent, hstate, hwait]
      · simp [hparent, hstate]
    · simp [hparent]
  | zombie q st =>
    simp only [reapedSlot]
    split <;> simp
  | empty | reserved => simp [reapedSlot]

end Reaped

end Table

namespace Inner

variable {E : Type} {s : Inner E} {p : Pid}

def issued (s : Inner E) (p : Pid) : Prop :=
  ∃ i, p.slot = some i ∧ p.generation ≤ s.generations i

def table (s : Inner E) : Table E := ⟨s.view, s.queue, s.current, s.issued⟩

@[simp] theorem table_view (s : Inner E) : s.table.view = s.view := rfl

@[simp] theorem table_queue (s : Inner E) : s.table.queue = s.queue := rfl

@[simp] theorem table_current (s : Inner E) : s.table.current = s.current := rfl

@[simp] theorem table_issued (s : Inner E) : s.table.issued = s.issued := rfl

theorem table_setSlot (s : Inner E) (i : Fin maxProcesses) (slot : Slot E) :
    (s.setSlot i slot).table = s.table.set (s.pidAt i) slot := by
  refine Table.ext (funext fun r ↦ ?_) rfl rfl rfl
  rw [Table.set_view]
  exact s.view_setSlot i slot r

theorem table_setCurrent (s : Inner E) (c : CoreId) (r : Option Pid) :
    (s.setCurrent c r).table = s.table.setCurrent c r := rfl

theorem table_push (h : s.queue.length < maxProcesses) (p : Pid) :
    (s.push p).table = s.table.enqueue p := by
  simp only [table, Table.enqueue, queue_push h p, view_push]
  rfl

theorem table_setProcess {P : Process E} (h : s.view p = .occupied P) (P' : Process E) :
    (s.setProcess p P').table = s.table.set p (.occupied P') := by
  obtain ⟨i, rfl, heq⟩ := setProcess_eq h P'
  rw [heq, table_setSlot]

end Inner

end Tarnos.Task
