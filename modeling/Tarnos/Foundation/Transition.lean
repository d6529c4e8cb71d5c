import Mathlib.Order.Basic
import Mathlib.Data.List.Basic

namespace Tarnos.Foundation.Transition

variable {State Action : Type*} {next : State → Action → Option State}
  {ok ok' : State → Action → Prop} {s t u : State}

/-- `Reach next ok s t`: some run leads from `s` to `t`, and every action of it is taken in a
state where `ok` allows it. -/
inductive Reach (next : State → Action → Option State) (ok : State → Action → Prop) (s : State) :
    State → Prop
  | refl : Reach next ok s s
  | step {t u : State} {a : Action} :
      Reach next ok s t → ok t a → next t a = some u → Reach next ok s u

theorem Reach.one {a : Action} (hok : ok s a) (h : next s a = some t) : Reach next ok s t :=
  .step .refl hok h

theorem Reach.trans (h₁ : Reach next ok s t) (h₂ : Reach next ok t u) : Reach next ok s u := by
  induction h₂ with
  | refl => exact h₁
  | step _ hok h ih => exact .step ih hok h

theorem Reach.mono (himp : ∀ s a, ok s a → ok' s a) (h : Reach next ok s t) :
    Reach next ok' s t := by
  induction h with
  | refl => exact .refl
  | step _ hok hnext ih => exact .step ih (himp _ _ hok) hnext

theorem Reach.invariant {I : State → Prop} (start : I s)
    (preserve : ∀ t a u, I t → ok t a → next t a = some u → I u)
    (h : Reach next ok s t) : I t := by
  induction h with
  | refl => exact start
  | step _ hok hnext ih => exact preserve _ _ _ ih hok hnext

theorem Reach.invariant_over {J I : State → Prop}
    (base : ∀ t, Reach next ok s t → J t) (start : I s)
    (preserve : ∀ t a u, J t → I t → ok t a → next t a = some u → I u)
    (h : Reach next ok s t) : I t := by
  induction h with
  | refl => exact start
  | step hreach hok hnext ih => exact preserve _ _ _ (base _ hreach) ih hok hnext

/-- Execute a list of actions, stopping at the first one that has no successor. -/
def run (next : State → Action → Option State) (s : State) : List Action → Option State
  | [] => some s
  | a :: as => (next s a).bind fun t ↦ run next t as

theorem run_reach {as : List Action} (h : run next s as = some t) :
    Reach next (fun _ _ ↦ True) s t := by
  induction as generalizing s with
  | nil =>
    have heq : s = t := Option.some.inj h
    exact heq ▸ .refl
  | cons a as ih =>
    simp only [run, Option.bind_eq_some_iff] at h
    obtain ⟨u, hnext, hrest⟩ := h
    exact (Reach.one trivial hnext).trans (ih hrest)

def guarded (next : State → Action → Option State) (allowed : State → Action → Bool) (s : State)
    (a : Action) : Option State :=
  if allowed s a then next s a else none

theorem run_guarded_reach {allowed : State → Action → Bool} {as : List Action}
    (hallowed : ∀ s a, allowed s a = true → ok s a)
    (h : run (guarded next allowed) s as = some t) : Reach next ok s t := by
  induction as generalizing s with
  | nil =>
    have heq : s = t := Option.some.inj h
    exact heq ▸ .refl
  | cons a as ih =>
    simp only [run, Option.bind_eq_some_iff] at h
    obtain ⟨u, hnext, hrest⟩ := h
    unfold guarded at hnext
    split at hnext
    · rename_i hok
      exact (Reach.one (hallowed s a hok) hnext).trans (ih hrest)
    · cases hnext

theorem exists_of_run [∀ s a, Decidable (ok s a)] {goal P : State → Prop} [DecidablePred goal]
    (as : List Action)
    (h : (run (guarded next fun s a ↦ decide (ok s a)) s as).any (fun t ↦ decide (goal t)) = true)
    (hgoal : ∀ t, Reach next ok s t → goal t → P t) : ∃ t, Reach next ok s t ∧ P t := by
  obtain ⟨t, ht, hholds⟩ := (Option.any_eq_true _ _).mp h
  have hreach := run_guarded_reach (fun _ _ hok ↦ of_decide_eq_true hok) ht
  exact ⟨t, hreach, hgoal t hreach (of_decide_eq_true hholds)⟩

theorem Reach.iterate {family : ℕ → State}
    (hstep : ∀ n, Reach next ok (family n) (family (n + 1))) (n : ℕ) :
    Reach next ok (family 0) (family n) := by
  induction n with
  | zero => exact .refl
  | succ n ih => exact ih.trans (hstep n)

section History

variable {History : Type*} {note : State → Action → State → History → History}
  {g g' : History} {a : Action}

/-- The machine with a record of its run beside it. `note` extends the record at every step and
the machine never reads it. -/
def noted (next : State → Action → Option State)
    (note : State → Action → State → History → History) (x : State × History) (a : Action) :
    Option (State × History) :=
  (next x.1 a).map fun t ↦ (t, note x.1 a t x.2)

theorem noted_eq_some {y : State × History} (h : noted next note (s, g) a = some y) :
    next s a = some y.1 ∧ y.2 = note s a y.1 g := by
  obtain ⟨t, hnext, rfl⟩ := Option.map_eq_some_iff.mp h
  exact ⟨hnext, rfl⟩

theorem Reach.forget {x y : State × History}
    (h : Reach (noted next note) (fun x a ↦ ok x.1 a) x y) : Reach next ok x.1 y.1 := by
  induction h with
  | refl => exact .refl
  | step _ hok hnext ih => exact .step ih hok (noted_eq_some hnext).1

theorem Reach.recorded (h : Reach next ok s t) (note : State → Action → State → History → History)
    (g : History) : ∃ g', Reach (noted next note) (fun x a ↦ ok x.1 a) (s, g) (t, g') := by
  induction h with
  | refl => exact ⟨g, .refl⟩
  | @step t u a _ hok hnext ih =>
    obtain ⟨g', hreach⟩ := ih
    refine ⟨note t a u g', .step hreach hok ?_⟩
    simp only [noted, hnext, Option.map_some]

theorem Reach.noted_invariant {J : State → Prop} {I : State → History → Prop}
    (base : ∀ t, Reach next ok s t → J t) (start : I s g)
    (preserve : ∀ t a u g, J t → I t g → ok t a → next t a = some u → I u (note t a u g))
    (h : Reach (noted next note) (fun x a ↦ ok x.1 a) (s, g) (t, g')) : I t g' := by
  have hall : ∀ y : State × History,
      Reach (noted next note) (fun x a ↦ ok x.1 a) (s, g) y → I y.1 y.2 := by
    intro y hy
    induction hy with
    | refl => exact start
    | step hreach hok hnext ih =>
      obtain ⟨hnext, hnote⟩ := noted_eq_some hnext
      rw [hnote]
      exact preserve _ _ _ _ (base _ hreach.forget) ih hok hnext
  exact hall (t, g') h

end History

section Calls

variable {σ τ ω α : Type*} {f : σ → ω → Option (α × σ)} {g : τ → ω → Option (α × τ)}

/-- One call after another, with the answer to each; `none` is a panic. -/
def calls (f : σ → ω → Option (α × σ)) (s : σ) : List ω → Option (List α × σ)
  | [] => some ([], s)
  | op :: ops => (f s op).bind fun r ↦ (calls f r.2 ops).map fun rest ↦ (r.1 :: rest.1, rest.2)

theorem calls_simulate {R : σ → τ → Prop}
    (hcall : ∀ s t op, R s t → ∃ a s' t', f s op = some (a, s') ∧ g t op = some (a, t') ∧ R s' t')
    {s : σ} {t : τ} (h : R s t) (ops : List ω) : ∃ answers s' t',
      calls f s ops = some (answers, s') ∧ calls g t ops = some (answers, t') ∧ R s' t' := by
  induction ops generalizing s t with
  | nil => exact ⟨[], s, t, rfl, rfl, h⟩
  | cons op ops ih =>
    obtain ⟨a, s₁, t₁, hs₁, ht₁, h₁⟩ := hcall s t op h
    obtain ⟨answers, s', t', hs', ht', h'⟩ := ih h₁
    refine ⟨a :: answers, s', t', ?_, ?_, h'⟩
    · rw [calls, hs₁, Option.bind_some, hs', Option.map_some]
    · rw [calls, ht₁, Option.bind_some, ht', Option.map_some]

end Calls

end Tarnos.Foundation.Transition
