import Tarnos.Kcore.Endpoint

namespace Tarnos.Kcore.Endpoint

open Foundation.Transition

variable {M P : Type*} {N : ℕ}

/-- The purpose of a slot: a queue of at most `N` waiting messages that is never empty, or one
waiting receiver, or nothing. -/
inductive Rendezvous (M P : Type*) (N : ℕ)
  | empty
  | senders (first : M × Waiter P) (rest : List (M × Waiter P)) (room : rest.length < N)
  | receiver (waiter : Waiter P)

inductive Op (M P : Type*)
  | send (message : M) (sender : Waiter P)
  | recv (receiver : Waiter P)

inductive Answer (M P : Type*)
  | sent (outcome : SendOutcome P)
  | received (outcome : RecvOutcome M P)

namespace Rendezvous

def send [NeZero N] (state : Rendezvous M P N) (message : M) (sender : Waiter P) :
    SendOutcome P × Rendezvous M P N :=
  match state with
  | .receiver waiter => (.delivered waiter, .senders (message, .none) [] (Nat.pos_of_neZero N))
  | .empty => (.enqueued, .senders (message, sender) [] (Nat.pos_of_neZero N))
  | .senders first rest room =>
    if h : rest.length + 1 < N then
      (.enqueued, .senders first (rest ++ [(message, sender)]) (by simpa using h))
    else (.queueFull, .senders first rest room)

def recv (state : Rendezvous M P N) (receiver : Waiter P) : RecvOutcome M P × Rendezvous M P N :=
  match state with
  | .senders (message, sender) [] _ => (.delivered message sender, .empty)
  | .senders (message, sender) (next :: rest) room =>
    (.delivered message sender, .senders next rest (Nat.lt_of_succ_lt room))
  | .empty => (.enqueued, .receiver receiver)
  | .receiver waiter => (.queueFull, .receiver waiter)

def perform [NeZero N] (state : Rendezvous M P N) : Op M P → Option (Answer M P × Rendezvous M P N)
  | .send message sender =>
    some (.sent (state.send message sender).1, (state.send message sender).2)
  | .recv waiter => some (.received (state.recv waiter).1, (state.recv waiter).2)

end Rendezvous

namespace Slot

def perform (slot : Slot M P N) : Op M P → Option (Answer M P × Slot M P N)
  | .send message sender =>
    some (.sent (slot.trySend message sender).1, (slot.trySend message sender).2)
  | .recv receiver => (slot.tryRecv receiver).map fun r ↦ (.received r.1, r.2)

def Represents : Slot M P N → Rendezvous M P N → Prop
  | .empty, .empty => True
  | .sendersWaiting queue, .senders first rest _ => queue.toList = first :: rest
  | .receiverWaiting receiver, .receiver waiter => receiver = waiter
  | _, _ => False

end Slot

namespace Answer

/-- What an accepted call leaves in the queue. A message that was answered at once stays without
its sender. -/
def keeps : Answer M P → Op M P → List (M × Waiter P)
  | .sent .enqueued, .send message sender => [(message, sender)]
  | .sent (.delivered _), .send message _ => [(message, .none)]
  | _, _ => []

def takes : Answer M P → List (M × Waiter P)
  | .received (.delivered message sender) => [(message, sender)]
  | _ => []

def isRejection : Answer M P → Bool
  | .sent .queueFull | .received .queueFull => true
  | _ => false

end Answer

def accepted (ops : List (Op M P)) (answers : List (Answer M P)) : List (M × Waiter P) :=
  (List.zipWith Answer.keeps answers ops).flatten

def returned (answers : List (Answer M P)) : List (M × Waiter P) := answers.flatMap Answer.takes

namespace Slot

variable {slot slot' : Slot M P N} {state : Rendezvous M P N} {op : Op M P} {answer : Answer M P}
  {ops : List (Op M P)} {answers : List (Answer M P)}

theorem Represents.send [NeZero N] (h : slot.Represents state) (message : M) (sender : Waiter P) :
    (slot.trySend message sender).1 = (state.send message sender).1 ∧
      (slot.trySend message sender).2.Represents (state.send message sender).2 := by
  have hN := Nat.pos_of_neZero N
  cases slot with
  | empty =>
    cases state with
    | empty => exact ⟨rfl, singleton_queue hN (message, sender)⟩
    | _ => exact h.elim
  | receiverWaiting receiver =>
    cases state with
    | receiver waiter =>
      cases h
      exact ⟨rfl, singleton_queue hN (message, .none)⟩
    | _ => exact h.elim
  | sendersWaiting queue =>
    cases state with
    | senders first rest room =>
      have hlist : queue.toList = first :: rest := h
      by_cases hroom : rest.length + 1 < N
      · obtain ⟨htaken, hpushed⟩ := queue.push_room (message, sender) (by simpa [hlist] using hroom)
        have hpush : queue.push (message, sender) = (true, (queue.push (message, sender)).2) :=
          Prod.ext htaken rfl
        rw [trySend, hpush, Rendezvous.send, dif_pos hroom]
        exact ⟨rfl, by rw [Represents, hpushed, hlist]; rfl⟩
      · have hfull : queue.toList.length = N := by
          rw [hlist, List.length_cons]
          omega
        rw [trySend, queue.push_full _ hfull, Rendezvous.send, dif_neg hroom]
        exact ⟨rfl, hlist⟩
    | _ => exact h.elim

theorem tryRecv_front {message : M} {sender : Waiter P} {rest : List (M × Waiter P)}
    {queue : RingBuffer (M × Waiter P) N} (hlist : queue.toList = (message, sender) :: rest)
    (receiver : Waiter P) :
    ∃ queue' : RingBuffer (M × Waiter P) N, queue'.toList = rest ∧
      (sendersWaiting queue).tryRecv receiver = some (.delivered message sender,
        if rest = [] then .empty else .sendersWaiting queue') := by
  obtain ⟨hval, hrest⟩ := queue.pop_cons hlist
  have hpop : queue.pop = (some (message, sender), queue.pop.2) := Prod.ext hval rfl
  refine ⟨queue.pop.2, hrest, ?_⟩
  rw [tryRecv, hpop]
  simp only [RingBuffer.isEmpty_iff, hrest]

theorem Represents.recv (h : slot.Represents state) (receiver : Waiter P) :
    ∃ slot', slot.tryRecv receiver = some ((state.recv receiver).1, slot') ∧
      slot'.Represents (state.recv receiver).2 := by
  cases slot with
  | empty =>
    cases state with
    | empty => exact ⟨.receiverWaiting receiver, rfl, rfl⟩
    | _ => exact h.elim
  | receiverWaiting waiting =>
    cases state with
    | receiver waiter => exact ⟨.receiverWaiting waiting, rfl, h⟩
    | _ => exact h.elim
  | sendersWaiting queue =>
    cases state with
    | senders first rest room =>
      obtain ⟨queue', hrest, hrecv⟩ := tryRecv_front (show queue.toList = first :: rest from h) receiver
      cases rest with
      | nil => exact ⟨.empty, hrecv, trivial⟩
      | cons next rest => exact ⟨.sendersWaiting queue', hrecv, hrest⟩
    | _ => exact h.elim

theorem Represents.perform [NeZero N] (h : slot.Represents state) (op : Op M P) :
    ∃ answer slot' state', slot.perform op = some (answer, slot') ∧
      state.perform op = some (answer, state') ∧ slot'.Represents state' := by
  cases op with
  | send message sender =>
    obtain ⟨houtcome, hnext⟩ := h.send message sender
    refine ⟨_, (slot.trySend message sender).2, _, rfl, ?_, hnext⟩
    rw [Rendezvous.perform, houtcome]
  | recv receiver =>
    obtain ⟨slot', hrecv, hnext⟩ := h.recv receiver
    refine ⟨_, slot', _, ?_, rfl, hnext⟩
    rw [Slot.perform, hrecv]
    rfl

theorem entries_perform (hN : 0 < N) (h : slot.perform op = some (answer, slot')) :
    slot.entries ++ answer.keeps op = answer.takes ++ slot'.entries := by
  cases op with
  | send message sender =>
    simp only [perform, Option.some.injEq, Prod.mk.injEq] at h
    obtain ⟨rfl, rfl⟩ := h
    rcases slot.trySend_cases hN message sender with
      ⟨r, hslot, hout, hentries, -⟩ | ⟨-, hout, hentries, -⟩ | ⟨hout, -, hsame⟩
    · rw [hout, hentries, hslot]
      rfl
    · rw [hout, hentries]
      rfl
    · rw [hout, hsame]
      exact List.append_nil _
  | recv receiver =>
    obtain ⟨⟨outcome, next⟩, hrecv, heq⟩ := Option.map_eq_some_iff.mp h
    cases heq
    rcases tryRecv_cases hrecv with
      ⟨message, sender, rest, hentries, -, rfl, hrest, -⟩ | ⟨rfl, rfl, rfl⟩ | ⟨r, rfl, rfl, rfl⟩
    · simp [Answer.keeps, Answer.takes, hentries, hrest]
    · rfl
    · rfl

theorem entries_calls (hN : 0 < N) (h : calls perform slot ops = some (answers, slot')) :
    slot.entries ++ accepted ops answers = returned answers ++ slot'.entries := by
  induction ops generalizing slot answers with
  | nil =>
    cases h
    simp [accepted, returned]
  | cons op ops ih =>
    simp only [calls, Option.bind_eq_some_iff, Option.map_eq_some_iff] at h
    obtain ⟨⟨answer, slot₁⟩, hstep, ⟨rest, final⟩, hrun, heq⟩ := h
    cases heq
    have hone := entries_perform hN hstep
    calc slot.entries ++ accepted (op :: ops) (answer :: rest)
        = (slot.entries ++ answer.keeps op) ++ accepted ops rest := by
          simp [accepted, List.append_assoc]
      _ = answer.takes ++ (slot₁.entries ++ accepted ops rest) := by
          rw [hone, List.append_assoc]
      _ = returned (answer :: rest) ++ final.entries := by
          rw [ih hrun]
          simp [returned, List.append_assoc]

theorem perform_rejected (hN : 0 < N) (h : slot.perform op = some (answer, slot'))
    (hreject : answer.isRejection = true) : slot' = slot := by
  cases op with
  | send message sender =>
    simp only [perform, Option.some.injEq, Prod.mk.injEq] at h
    obtain ⟨rfl, rfl⟩ := h
    rcases slot.trySend_cases hN message sender with
      ⟨r, -, hout, -⟩ | ⟨-, hout, -⟩ | ⟨-, -, hsame⟩
    · simp [Answer.isRejection, hout] at hreject
    · simp [Answer.isRejection, hout] at hreject
    · exact hsame
  | recv receiver =>
    obtain ⟨⟨outcome, next⟩, hrecv, heq⟩ := Option.map_eq_some_iff.mp h
    cases heq
    rcases tryRecv_cases hrecv with
      ⟨message, sender, rest, -, -, rfl, -⟩ | ⟨-, rfl, -⟩ | ⟨r, -, -, hsame⟩
    · cases hreject
    · cases hreject
    · exact hsame

theorem calls_drain (slot : Slot M P N) (receivers : List (Waiter P))
    (h : receivers.length = slot.entries.length) :
    ∃ answers slot', calls perform slot (receivers.map .recv) = some (answers, slot') ∧
      returned answers = slot.entries := by
  induction receivers generalizing slot with
  | nil =>
    refine ⟨[], slot, rfl, ?_⟩
    exact (List.length_eq_zero_iff.mp h.symm).symm
  | cons receiver receivers ih =>
    cases slot with
    | empty | receiverWaiting waiting => cases h
    | sendersWaiting queue =>
      cases hlist : queue.toList with
      | nil => simp [entries, hlist] at h
      | cons first rest =>
        obtain ⟨queue', hrest, hrecv⟩ := tryRecv_front hlist receiver
        have hentries : (if rest = [] then .empty else .sendersWaiting queue' :
            Slot M P N).entries = rest := by
          split
          · rename_i hnil
            exact hnil.symm
          · exact hrest
        have hlen : receivers.length = rest.length := by
          simpa [entries, hlist] using h
        obtain ⟨answers, slot', hrun, hreturned⟩ := ih _ (hlen.trans (congrArg _ hentries.symm))
        refine ⟨.received (.delivered first.1 first.2) :: answers, slot', ?_, ?_⟩
        · rw [List.map_cons, calls, perform, hrecv]
          simp only [Option.map_some, Option.bind_some, hrun]
        · rw [hentries] at hreturned
          simp [returned, Answer.takes, entries, hlist] at hreturned ⊢
          exact hreturned

/-- After the calls `ops` with their `answers`: the slot is in the reference's state, accepted
messages have been returned in order or are still queued, and enough receives return the rest. -/
structure Refines (ops : List (Op M P)) (answers : List (Answer M P)) (slot : Slot M P N)
    (state : Rendezvous M P N) : Prop where
  represents : slot.Represents state
  nonempty : ∀ queue, slot = .sendersWaiting queue → queue.toList ≠ []
  order : accepted ops answers = returned answers ++ slot.entries
  drains : ∀ receivers : List (Waiter P), receivers.length = slot.entries.length →
    ∃ more slot', calls perform slot (receivers.map .recv) = some (more, slot') ∧
      returned (answers ++ more) = accepted ops answers
  rejects : ∀ op answer slot', slot.perform op = some (answer, slot') →
    answer.isRejection = true → slot' = slot

theorem Represents.nonempty (h : slot.Represents state) (queue : RingBuffer (M × Waiter P) N)
    (hslot : slot = .sendersWaiting queue) : queue.toList ≠ [] := by
  subst hslot
  cases state with
  | senders first rest room =>
    intro hnil
    cases hnil.symm.trans (show queue.toList = first :: rest from h)
  | _ => exact h.elim

theorem refines_rendezvous [NeZero N] (ops : List (Op M P)) :
    ∃ answers slot state, calls perform (new : Slot M P N) ops = some (answers, slot) ∧
      calls Rendezvous.perform (.empty : Rendezvous M P N) ops = some (answers, state) ∧
      Refines ops answers slot state := by
  have hN := Nat.pos_of_neZero N
  have hnew : (new : Slot M P N).Represents .empty := trivial
  obtain ⟨answers, slot, state, hrun, href, hrep⟩ :=
    calls_simulate (R := Represents) (fun _ _ op h ↦ h.perform op) hnew ops
  have horder := entries_calls hN hrun
  refine ⟨answers, slot, state, hrun, href, hrep, hrep.nonempty, horder, fun receivers hlen ↦ ?_,
    fun op answer slot' ↦ perform_rejected hN⟩
  obtain ⟨more, slot', hdrain, hreturned⟩ := slot.calls_drain receivers hlen
  refine ⟨more, slot', hdrain, ?_⟩
  rw [returned, List.flatMap_append]
  change returned _ ++ returned more = _
  rw [hreturned]
  exact horder.symm

theorem refines_rendezvous_displaced :
    ∃ answers slot state, calls perform (new : Slot ℕ ℕ 1)
        [.recv (.process 1), .send 7 (.process 2), .recv (.process 1)] = some (answers, slot) ∧
      returned answers = [(7, .none)] ∧
      Refines [.recv (.process 1), .send 7 (.process 2), .recv (.process 1)] answers slot state := by
  obtain ⟨answers, slot, state, hrun, -, hrefines⟩ :=
    refines_rendezvous (N := 1) [.recv (.process 1), .send 7 (.process 2), .recv (.process 1)]
  refine ⟨answers, slot, state, hrun, ?_, hrefines⟩
  have hanswers : some answers = some [.received .enqueued, .sent (.delivered (.process 1)),
      .received (.delivered 7 .none)] := (congrArg (Option.map Prod.fst) hrun).symm
  rw [Option.some.inj hanswers]
  rfl

end Slot

end Tarnos.Kcore.Endpoint
