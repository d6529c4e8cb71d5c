import Tarnos.Task.View

namespace Tarnos.Task.Inner

open Kcore Foundation.Transition Function

variable {E : Type} {s : Inner E} {p : Pid}

def queue (s : Inner E) : List Pid := s.ready.toList

@[simp] theorem queue_setSlot (s : Inner E) (i : Fin maxProcesses) (slot : Slot E) :
    (s.setSlot i slot).queue = s.queue := rfl

@[simp] theorem queue_setCurrent (s : Inner E) (c : CoreId) (q : Option Pid) :
    (s.setCurrent c q).queue = s.queue := rfl

@[simp] theorem queue_clearCurrent (s : Inner E) (q : Pid) : (s.clearCurrent q).queue = s.queue := rfl

theorem queue_push (h : s.queue.length < maxProcesses) (p : Pid) :
    (s.push p).queue = s.queue ++ [p] :=
  (s.ready.push_room p h).2

theorem history_push (h : s.queue.length < maxProcesses) (p : Pid) :
    (s.push p).history = { s.history with entered := s.history.entered ++ [p] } := by
  simp [push, (s.ready.push_room p h).1]

theorem pop_nil (h : s.queue = []) :
    s.pop.1 = none ∧ s.pop.2.queue = [] ∧ s.pop.2.history = s.history := by
  have hpop := s.ready.pop_nil h
  simp only [pop, queue, hpop]
  exact ⟨trivial, h, by simp⟩

theorem pop_cons {rest : List Pid} (h : s.queue = p :: rest) :
    s.pop.1 = some p ∧ s.pop.2.queue = rest ∧
      s.pop.2.history = { s.history with popped := s.history.popped ++ [p] } := by
  obtain ⟨hval, hrest⟩ := s.ready.pop_cons h
  refine ⟨hval, hrest, ?_⟩
  simp [pop, hval]

theorem pop_some {sched : Inner E} (h : s.pop = (some p, sched)) :
    ∃ rest, s.queue = p :: rest ∧ sched = s.pop.2 := by
  cases hqueue : s.queue with
  | nil =>
    have hnone := (pop_nil hqueue).1
    rw [h] at hnone
    cases hnone
  | cons q rest =>
    have hsome := (pop_cons hqueue).1
    rw [h] at hsome
    cases hsome
    exact ⟨rest, rfl, by rw [h]⟩

theorem pop_none {sched : Inner E} (h : s.pop = (none, sched)) :
    s.queue = [] ∧ sched = s.pop.2 := by
  cases hqueue : s.queue with
  | nil => exact ⟨rfl, by rw [h]⟩
  | cons q rest =>
    have hsome := (pop_cons hqueue).1
    rw [h] at hsome
    cases hsome

theorem keepOthers_toList (target : Pid) (fuel : ℕ) (queue kept : ReadyQueue)
    (hfuel : queue.toList.length ≤ fuel)
    (hroom : kept.toList.length + queue.toList.length ≤ maxProcesses) :
    (keepOthers target fuel queue kept).toList =
      kept.toList ++ queue.toList.filter fun pid ↦ pid ≠ target := by
  induction fuel generalizing queue kept with
  | zero =>
    have hnil : queue.toList = [] := List.length_eq_zero_iff.mp (Nat.le_zero.mp hfuel)
    simp [keepOthers, hnil]
  | succ fuel ih =>
    cases hlist : queue.toList with
    | nil => simp [keepOthers, queue.pop_nil hlist]
    | cons pid rest =>
      obtain ⟨hval, hrest⟩ := queue.pop_cons hlist
      have hpop : queue.pop = (some pid, queue.pop.2) := Prod.ext hval rfl
      rw [hlist, List.length_cons] at hfuel hroom
      rw [keepOthers, hpop]
      by_cases heq : pid = target
      · simp only [ne_eq, heq, not_true, if_false]
        rw [ih queue.pop.2 kept (by rw [hrest]; omega) (by rw [hrest]; omega), hrest]
        simp
      · obtain ⟨-, hkept⟩ := kept.push_room pid (by omega)
        simp only [ne_eq, heq, not_false_eq_true, if_true]
        rw [ih queue.pop.2 (kept.push pid).2 (by rw [hrest]; omega)
          (by rw [hrest, hkept, List.length_append, List.length_singleton]; omega), hrest, hkept]
        simp [heq]

theorem queue_removeFromReadyQueue (s : Inner E) (target : Pid) :
    (s.removeFromReadyQueue target).queue = s.queue.filter fun pid ↦ pid ≠ target := by
  have hroom : (RingBuffer.new : ReadyQueue).toList.length + s.ready.toList.length ≤ maxProcesses := by
    rw [RingBuffer.toList_new, List.length_nil, Nat.zero_add]
    exact s.ready.length_le
  exact keepOthers_toList target maxProcesses s.ready RingBuffer.new s.ready.length_le hroom

/-- A ring buffer is a bounded queue, whatever is pushed and popped, and the rebuilt ready queue is
the old one without the target. -/
theorem ring_refines_fifo (α : Type*) (N : ℕ) (ops : List (RingBuffer.Op α)) :
    (∃ answers, ∃ q : RingBuffer α N,
      calls RingBuffer.Raw.call (RingBuffer.new : RingBuffer α N).raw ops = some (answers, q.raw) ∧
      calls (RingBuffer.callQueue N) [] ops = some (answers, q.toList) ∧
      q.raw.len = q.toList.length ∧ (q.raw.len ≠ 0 → q.pop.1.isSome)) ∧
    ∀ (s : Inner E) (target : Pid),
      (s.removeFromReadyQueue target).queue = s.queue.filter fun pid ↦ pid ≠ target := by
  obtain ⟨answers, q, hraw, hqueue⟩ := RingBuffer.raw_calls N ops
  refine ⟨⟨answers, q, hraw, hqueue, q.length_toList.symm, fun hlen ↦ ?_⟩,
    queue_removeFromReadyQueue⟩
  cases hlist : q.toList with
  | nil =>
    have hzero := q.length_toList
    rw [hlist] at hzero
    exact absurd hzero.symm hlen
  | cons v rest =>
    rw [(q.pop_cons hlist).1]
    rfl

theorem queue_setProcess (s : Inner E) (p : Pid) (P : Process E) :
    (s.setProcess p P).queue = s.queue := by
  unfold setProcess
  split <;> rfl

end Tarnos.Task.Inner
