import Mathlib.Data.Finset.Sort
import Tarnos.Foundation.Transition
import Tarnos.Kcore.RingBuffer

namespace Tarnos.Kernel

open Foundation.Transition

abbrev ReadyQueue := Kcore.RingBuffer ℕ 64

/-- Where `run_ready_tasks` is. The pass over all tasks has its remaining ids in `left`; without them
the call drains the queue. -/
inductive Running
  | idle
  | next (left : Option (List ℕ))
  | polling (id : ℕ) (left : Option (List ℕ))
  deriving DecidableEq

/-- The executor; `stores` wakes of other cores have found the queue full and not yet set the flag. -/
structure Executor where
  tasks : Finset ℕ
  readyQueue : ReadyQueue
  overflowed : Bool
  running : Running
  stores : ℕ

/-- A step of some core. Anybody may wake a task at any time, also during a poll. -/
inductive Executor.Action
  | spawn (id : ℕ)
  | push (id : ℕ)
  | wake (id : ℕ)
  | store
  | run
  | go (ready : Bool)

namespace Executor

def pollTask (s : Executor) (id : ℕ) (left : Option (List ℕ)) : Executor :=
  { s with running := if id ∈ s.tasks then .polling id left else .next left }

def next (s : Executor) : Action → Option Executor
  | .spawn id =>
    match s.running with
    | .idle => some { s with tasks := insert id s.tasks }
    | _ => none
  -- the second half of `spawn`, which ignores the answer of the queue
  | .push id => some { s with readyQueue := (s.readyQueue.push id).2 }
  | .wake id =>
    let (room, readyQueue) := s.readyQueue.push id
    some { s with readyQueue, stores := if room then s.stores else s.stores + 1 }
  | .store =>
    if s.stores = 0 then none else some { s with stores := s.stores - 1, overflowed := true }
  | .run =>
    match s.running with
    | .idle =>
      let left := if s.overflowed then some s.tasks.sort else none
      some { s with overflowed := false, running := .next left }
    | _ => none
  | .go ready =>
    match s.running with
    | .idle => none
    | .next (some []) => some { s with running := .idle }
    | .next (some (id :: ids)) => some (s.pollTask id (some ids))
    | .next none =>
      match s.readyQueue.pop with
      | (none, _) => some { s with running := .idle }
      | (some id, readyQueue) => some ({ s with readyQueue }.pollTask id none)
    | .polling id left =>
      let tasks := if ready then s.tasks.erase id else s.tasks
      some { s with tasks, running := .next left }

def init : Executor := ⟨∅, .new, false, .idle, 0⟩

/-- The tasks queued or woken and not polled since, and those of them that the last call found. -/
structure Debt where
  owed : Finset ℕ
  promised : Finset ℕ

def note (s : Executor) (a : Action) (t : Executor) (g : Debt) : Debt :=
  match a with
  | .spawn id => ⟨g.owed.erase id, g.promised.erase id⟩
  | .push id => if (s.readyQueue.push id).1 then { g with owed := insert id g.owed } else g
  | .wake id => { g with owed := insert id g.owed }
  | .store => g
  | .run => { g with promised := if s.stores = 0 then g.owed else ∅ }
  | .go _ =>
    match t.running with
    | .polling id _ => ⟨g.owed.erase id, g.promised.erase id⟩
    | _ => g

def pending (s : Executor) : List ℕ :=
  match s.running with
  | .idle => []
  | .next left | .polling _ left => left.getD s.readyQueue.toList

structure Paid (s : Executor) (g : Debt) : Prop where
  owed : ∀ id ∈ g.owed, id ∈ s.tasks →
    s.overflowed ∨ s.stores ≠ 0 ∨ id ∈ s.readyQueue.toList ∨ id ∈ s.pending
  promised : ∀ id ∈ g.promised, id ∈ s.tasks → id ∈ s.pending

theorem mem_push (queue : ReadyQueue) (id : ℕ) :
    (∀ left : Option (List ℕ), left.getD queue.toList ⊆ left.getD (queue.push id).2.toList) ∧
      ((queue.push id).1 = true → id ∈ (queue.push id).2.toList) := by
  obtain hroom | hfull := queue.length_le.lt_or_eq
  · rw [(queue.push_room id hroom).2]
    exact ⟨by rintro (_ | _) <;> simp, by simp⟩
  · simp [queue.push_full id hfull]

theorem toList_pop (queue : ReadyQueue) :
    queue.toList = queue.pop.1.elim [] (· :: queue.pop.2.toList) := by
  cases hlist : queue.toList with
  | nil => rw [queue.pop_nil hlist, Option.elim_none]
  | cons id rest =>
    obtain ⟨hfirst, hrest⟩ := queue.pop_cons hlist
    rw [hfirst, hrest, Option.elim_some]

theorem Paid.next {s t : Executor} {g : Debt} {a : Action} (hg : Paid s g)
    (h : s.next a = some t) : Paid t (note s a t g) := by
  obtain ⟨howed, hpromised⟩ := hg
  cases a <;> simp only [Executor.next] at h
  case spawn | store | run =>
    split at h <;> cases h
    constructor <;> grind [note, pending, Finset.mem_sort]
  case push id | wake id =>
    obtain ⟨hleft, hpush⟩ := mem_push s.readyQueue id
    have hqueue := hleft none
    cases h
    constructor <;> grind [note, pending]
  case go =>
    have hpop := toList_pop s.readyQueue
    split at h
    case h_1 => cases h
    case h_4 =>
      split at h <;> cases h
      all_goals constructor <;> grind [note, pending, pollTask]
    all_goals
      cases h
      constructor <;> grind [note, pending, pollTask]

/-- Between calls, a live task that is owed a poll is in the queue or the flag is set, unless a core is
about to set it, and no live task is left that was owed a poll when the last call began. -/
theorem wakes_answered (s : Executor) (g : Debt)
    (h : Reach (noted next note) (fun _ _ ↦ True) (init, ⟨∅, ∅⟩) (s, g))
    (hidle : s.running = .idle) : (∀ id ∈ g.owed, id ∈ s.tasks →
      s.overflowed ∨ s.stores ≠ 0 ∨ id ∈ s.readyQueue.toList) ∧ Disjoint g.promised s.tasks := by
  obtain ⟨howed, hpromised⟩ := h.invariant (I := fun x ↦ Paid x.1 x.2) ⟨by simp, by simp⟩
    fun x a y hx _ hstep ↦ by
      obtain ⟨hnext, hnote⟩ := noted_eq_some hstep
      exact hnote ▸ hx.next hnext
  have hnone : s.pending = [] := by rw [pending, hidle]
  rw [hnone] at howed hpromised
  exact ⟨by simpa using howed, Finset.disjoint_left.mpr (by simpa using hpromised)⟩

def wakesRun : List Action :=
  [.spawn 0, .push 0, .wake 7, .run, .go false, .wake 0, .go false, .go false, .go false, .go false,
    .go false, .wake 0]

theorem wakes_answered_run : ∃ s g,
    Reach (noted next note) (fun _ _ ↦ True) (init, ⟨∅, ∅⟩) (s, g) ∧ s.tasks = {0} ∧
      g.owed = {0, 7} ∧ g.promised = {7} ∧ s.overflowed = false ∧ s.stores = 0 ∧
      0 ∈ s.readyQueue.toList ∧ Disjoint g.promised s.tasks := by
  obtain ⟨⟨s, g⟩, hreach, hrun⟩ : ∃ x,
      Reach (noted next note) (fun _ _ ↦ True) (init, ⟨∅, ∅⟩) x ∧ x.1.running = .idle ∧
        x.1.tasks = {0} ∧ x.2.owed = {0, 7} ∧ x.2.promised = {7} ∧ x.1.overflowed = false ∧
        x.1.stores = 0 :=
    exists_of_run wakesRun (by decide +kernel) fun _ _ h ↦ h
  dsimp only at hrun
  obtain ⟨hidle, htasks, howed, hpromised, hflag, hstores⟩ := hrun
  obtain ⟨hanswered, hdone⟩ := wakes_answered s g hreach hidle
  have hqueued := hanswered 0 (by rw [howed]; decide) (by rw [htasks]; decide)
  refine ⟨s, g, hreach, htasks, howed, hpromised, hflag, hstores, ?_, hdone⟩
  simpa [hflag, hstores] using hqueued

end Executor

end Tarnos.Kernel
