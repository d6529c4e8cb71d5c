import Mathlib.Logic.Function.Basic
import Tarnos.Foundation.Transition

namespace Tarnos.Foundation.Locking

open Function

/-- The lock operations of a piece of code, with its branches on data left open. `lock` masks
interrupts and goes on to spin in `acquire`; `drop` releases the lock of a guard and goes on to
`restore` the interrupt flag that guard found. `leave` and `halt` never return. -/
inductive Code (L ι : Type)
  | skip
  | lock (l : L)
  | acquire (l : L) (wereEnabled : Bool)
  | drop (l : L)
  | restore (wereEnabled : Bool)
  | forget (l : L)
  | forceUnlock (l : L)
  | cli
  | sti
  | hlt
  | seq (first second : Code L ι)
  | either (one other : Code L ι)
  | loop (body : Code L ι)
  | each (body : ι → Code L ι)
  | forever (body : Code L ι)
  | leave
  | halt

variable {C L ι Op : Type}

def Code.block : List (Code L ι) → Code L ι
  | [] => .skip
  | code :: rest => .seq code (block rest)

def Code.within (l : L) (body : Code L ι) : Code L ι := .seq (.lock l) (.seq body (.drop l))

structure Guard (L : Type) where
  lock : L
  wereEnabled : Bool

/-- The locks a core has: its live guards, newest first, and those whose guard was forgotten.
`enabled` is its interrupt flag. -/
structure Context (L : Type) where
  guards : List (Guard L)
  forgotten : List L
  enabled : Bool

def Context.held (x : Context L) : List L := x.guards.map (·.lock) ++ x.forgotten

/-- A core runs the first piece of `todo`, then the rest. With nothing to do it is outside. -/
structure Core (L ι : Type) where
  todo : List (Code L ι)
  context : Context L

structure Machine (C L ι : Type) where
  owner : L → Option C
  cores : C → Core L ι

inductive Pick (ι : Type)
  | go
  | branch (taken : Bool)
  | index (i : ι)

inductive Change (L : Type)
  | keep
  | take (l : L)
  | free (l : L)

section Step

variable [DecidableEq L]

def Code.step (x : Context L) (rest : List (Code L ι)) :
    Code L ι → Pick ι → Option (Change L × Core L ι)
  | .skip, .go => some (.keep, ⟨rest, x⟩)
  | .lock l, .go => some (.keep, ⟨.acquire l x.enabled :: rest, { x with enabled := false }⟩)
  | .acquire l were, .go => some (.take l, ⟨rest, { x with guards := ⟨l, were⟩ :: x.guards }⟩)
  | .drop l, .go =>
    (x.guards.find? fun g ↦ decide (g.lock = l)).map fun g ↦
      (.free l, ⟨.restore g.wereEnabled :: rest,
        { x with guards := x.guards.eraseP fun g ↦ decide (g.lock = l) }⟩)
  | .restore were, .go => some (.keep, ⟨rest, { x with enabled := x.enabled || were }⟩)
  | .forget l, .go =>
    (x.guards.find? fun g ↦ decide (g.lock = l)).map fun _ ↦
      (.keep, ⟨rest, { x with
        guards := x.guards.eraseP fun g ↦ decide (g.lock = l), forgotten := l :: x.forgotten }⟩)
  | .forceUnlock l, .go => some (.free l, ⟨rest, { x with forgotten := x.forgotten.erase l }⟩)
  | .cli, .go => some (.keep, ⟨rest, { x with enabled := false }⟩)
  | .sti, .go => some (.keep, ⟨rest, { x with enabled := true }⟩)
  -- With `sti` before it as one step; any interrupt ends it.
  | .hlt, .go => some (.keep, ⟨rest, { x with enabled := true }⟩)
  | .seq first second, .go => some (.keep, ⟨first :: second :: rest, x⟩)
  | .either one other, .branch taken =>
    some (.keep, ⟨(if taken then one else other) :: rest, x⟩)
  | .loop body, .branch taken =>
    some (.keep, ⟨if taken then body :: .loop body :: rest else rest, x⟩)
  | .each body, .index i => some (.keep, ⟨body i :: .each body :: rest, x⟩)
  | .each _, .go => some (.keep, ⟨rest, x⟩)
  | .forever body, .go => some (.keep, ⟨body :: .forever body :: rest, x⟩)
  | .leave, .go => some (.keep, ⟨[], { x with enabled := true }⟩)
  | _, _ => none

inductive Move (Op ι : Type)
  | run (pick : Pick ι)
  | enter (op : Op)
  | interrupt

variable (code : Op → Code L ι) (handler : Code L ι)

/-- An operation starts with interrupts masked, from outside. An interrupt runs the handler
before the code it interrupts. -/
def Core.move (core : Core L ι) : Move Op ι → Option (Change L × Core L ι)
  | .run pick =>
    match core.todo with
    | [] => none
    | first :: rest => first.step core.context rest pick
  | .enter op =>
    match core.todo with
    | [] => some (.keep, ⟨[code op, .leave], { core.context with enabled := false }⟩)
    | _ :: _ => none
  | .interrupt =>
    match core.todo with
    | [] => none
    | first :: rest =>
      if core.context.enabled then
        some (.keep, ⟨handler :: .sti :: first :: rest, { core.context with enabled := false }⟩)
      else none

variable [DecidableEq C]

/-- A lock is taken only when it is free; until then its core spins. -/
def Machine.commit (s : Machine C L ι) (c : C) : Change L × Core L ι → Option (Machine C L ι)
  | (.keep, core) => some { s with cores := update s.cores c core }
  | (.take l, core) =>
    if s.owner l = none then some ⟨update s.owner l (some c), update s.cores c core⟩ else none
  | (.free l, core) => some ⟨update s.owner l none, update s.cores c core⟩

def Machine.next (s : Machine C L ι) (a : C × Move Op ι) : Option (Machine C L ι) :=
  ((s.cores a.1).move code handler a.2).bind (s.commit a.1)

inductive Event (C L : Type)
  | acquired (c : C) (l : L)
  | released (c : C) (l : L)

def Event.lock : Event C L → L
  | .acquired _ l | .released _ l => l

def Machine.note (s : Machine C L ι) (a : C × Move Op ι) (_ : Machine C L ι)
    (trace : List (Event C L)) : List (Event C L) :=
  match (s.cores a.1).move code handler a.2 with
  | some (.take l, _) => .acquired a.1 l :: trace
  | some (.free l, _) => .released a.1 l :: trace
  | _ => trace

end Step

/-- The events of one lock come in pairs, an acquisition and its release by the same core. At the
end the lock belongs to `owner`. -/
inductive Paired (l : L) : List (Event C L) → Option C → Prop
  | nil : Paired l [] none
  | other {event : Event C L} {trace : List (Event C L)} {owner : Option C} :
      event.lock ≠ l → Paired l trace owner → Paired l (event :: trace) owner
  | acquired {c : C} {trace : List (Event C L)} :
      Paired l trace none → Paired l (.acquired c l :: trace) (some c)
  | released {c : C} {trace : List (Event C L)} :
      Paired l trace (some c) → Paired l (.released c l :: trace) none

def Core.Requests (core : Core L ι) (l : L) : Prop :=
  (∃ rest, core.todo = .lock l :: rest) ∨ ∃ were rest, core.todo = .acquire l were :: rest

def Core.Rests (core : Core L ι) : Prop :=
  core.todo = [] ∨ (∃ rest, core.todo = .hlt :: rest) ∨ ∃ rest, core.todo = .halt :: rest

end Tarnos.Foundation.Locking
