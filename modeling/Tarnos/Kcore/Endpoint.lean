import Tarnos.Kcore.RingBuffer

namespace Tarnos.Kcore.Endpoint

open Kcore

variable {M P : Type*} {N : ℕ}

inductive Waiter (P : Type*)
  | task (waker : ℕ)
  | process (pid : P)
  | none
  deriving DecidableEq, Repr

inductive SendOutcome (P : Type*)
  | delivered (receiver : Waiter P)
  | enqueued
  | queueFull

inductive RecvOutcome (M P : Type*)
  | delivered (message : M) (sender : Waiter P)
  | enqueued
  | queueFull

/-- An endpoint's state: nobody waits, senders wait with their messages, or one receiver waits. -/
inductive Slot (M P : Type*) (N : ℕ)
  | empty
  | sendersWaiting (queue : RingBuffer (M × Waiter P) N)
  | receiverWaiting (receiver : Waiter P)

namespace Slot

def new : Slot M P N := .empty

def trySend (slot : Slot M P N) (message : M) (sender : Waiter P) : SendOutcome P × Slot M P N :=
  match slot with
  | .receiverWaiting receiver =>
    (.delivered receiver, .sendersWaiting (RingBuffer.new.push (message, .none)).2)
  | .empty => (.enqueued, .sendersWaiting (RingBuffer.new.push (message, sender)).2)
  | .sendersWaiting queue =>
    match queue.push (message, sender) with
    | (true, queue') => (.enqueued, .sendersWaiting queue')
    | (false, queue') => (.queueFull, .sendersWaiting queue')

def tryRecv (slot : Slot M P N) (receiver : Waiter P) : Option (RecvOutcome M P × Slot M P N) :=
  match slot with
  | .sendersWaiting queue =>
    match queue.pop with
    | (some (message, sender), queue') =>
      some (.delivered message sender, if queue'.isEmpty then .empty else .sendersWaiting queue')
    | (none, _) => none
  | .empty => some (.enqueued, .receiverWaiting receiver)
  | .receiverWaiting r => some (.queueFull, .receiverWaiting r)

def entries : Slot M P N → List (M × Waiter P)
  | .sendersWaiting queue => queue.toList
  | _ => []

def receiver? : Slot M P N → Option (Waiter P)
  | .receiverWaiting receiver => some receiver
  | _ => .none

@[simp] theorem entries_empty : (empty : Slot M P N).entries = [] := rfl

@[simp] theorem entries_receiverWaiting (r : Waiter P) :
    (receiverWaiting r : Slot M P N).entries = [] := rfl

@[simp] theorem receiver_empty : (empty : Slot M P N).receiver? = Option.none := rfl

@[simp] theorem receiver_receiverWaiting (r : Waiter P) :
    (receiverWaiting r : Slot M P N).receiver? = some r := rfl

theorem singleton_queue (hN : 0 < N) (entry : M × Waiter P) :
    (RingBuffer.new.push entry : Bool × RingBuffer (M × Waiter P) N).2.toList = [entry] := by
  have hroom := (RingBuffer.new : RingBuffer (M × Waiter P) N).push_room entry (by simpa using hN)
  simpa using hroom.2

theorem trySend_cases (hN : 0 < N) (slot : Slot M P N) (message : M) (sender : Waiter P) :
    (∃ r, slot = .receiverWaiting r ∧ (slot.trySend message sender).1 = .delivered r ∧
      (slot.trySend message sender).2.entries = [(message, .none)] ∧
      (slot.trySend message sender).2.receiver? = Option.none) ∨
    (slot.receiver? = Option.none ∧ (slot.trySend message sender).1 = .enqueued ∧
      (slot.trySend message sender).2.entries = slot.entries ++ [(message, sender)] ∧
      (slot.trySend message sender).2.receiver? = Option.none) ∨
    ((slot.trySend message sender).1 = .queueFull ∧ slot.entries.length = N ∧
      (slot.trySend message sender).2 = slot) := by
  cases slot with
  | empty =>
    refine .inr (.inl ⟨rfl, rfl, ?_, rfl⟩)
    exact singleton_queue hN (message, sender)
  | receiverWaiting r =>
    refine .inl ⟨r, rfl, rfl, ?_, rfl⟩
    exact singleton_queue hN (message, .none)
  | sendersWaiting queue =>
    rcases Nat.lt_or_ge queue.toList.length N with hroom | hfull
    · obtain ⟨hacc, hlist⟩ := queue.push_room (message, sender) hroom
      have hpush : queue.push (message, sender) = (true, (queue.push (message, sender)).2) :=
        Prod.ext hacc rfl
      refine .inr (.inl ⟨rfl, ?_, ?_, ?_⟩)
      · rw [trySend, hpush]
      · rw [trySend, hpush]
        exact hlist
      · rw [trySend, hpush]
        rfl
    · have hlen : queue.toList.length = N := le_antisymm queue.length_le hfull
      have hpush := queue.push_full (message, sender) hlen
      refine .inr (.inr ⟨?_, hlen, ?_⟩)
      · rw [trySend, hpush]
      · rw [trySend, hpush]

theorem tryRecv_cases {slot slot' : Slot M P N} {receiver : Waiter P} {outcome : RecvOutcome M P}
    (h : slot.tryRecv receiver = some (outcome, slot')) :
    (∃ message sender rest, slot.entries = (message, sender) :: rest ∧ slot.receiver? = Option.none ∧
      outcome = .delivered message sender ∧ slot'.entries = rest ∧ slot'.receiver? = Option.none) ∨
    (slot = .empty ∧ outcome = .enqueued ∧ slot' = .receiverWaiting receiver) ∨
    (∃ r, slot = .receiverWaiting r ∧ outcome = .queueFull ∧ slot' = slot) := by
  cases slot with
  | empty =>
    simp only [tryRecv, Option.some.injEq, Prod.mk.injEq] at h
    exact .inr (.inl ⟨rfl, h.1.symm, h.2.symm⟩)
  | receiverWaiting r =>
    simp only [tryRecv, Option.some.injEq, Prod.mk.injEq] at h
    exact .inr (.inr ⟨r, rfl, h.1.symm, h.2.symm⟩)
  | sendersWaiting queue =>
    cases hlist : queue.toList with
    | nil =>
      rw [tryRecv, queue.pop_nil hlist] at h
      cases h
    | cons entry rest =>
      obtain ⟨message, sender⟩ := entry
      obtain ⟨hval, hrest⟩ := queue.pop_cons hlist
      have hpop : queue.pop = (some (message, sender), queue.pop.2) := Prod.ext hval rfl
      rw [tryRecv, hpop] at h
      simp only [Option.some.injEq, Prod.mk.injEq] at h
      obtain ⟨rfl, rfl⟩ := h
      refine .inl ⟨message, sender, rest, hlist, rfl, rfl, ?_⟩
      by_cases hempty : queue.pop.2.isEmpty = true
      · rw [if_pos hempty]
        rw [queue.pop.2.isEmpty_iff, hrest] at hempty
        exact ⟨hempty.symm, rfl⟩
      · rw [if_neg hempty]
        exact ⟨hrest, rfl⟩

end Slot

end Tarnos.Kcore.Endpoint
