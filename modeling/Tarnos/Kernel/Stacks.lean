import Tarnos.Kernel.Effect

namespace Tarnos.Kernel

open Abi Arch Kcore Tarnos.Task Foundation.Transition Function

variable {E : Type}

namespace State

def StacksExclusive (s : State E) : Prop :=
  ∀ c d p, (s.cores c).stack = some p → (s.cores d).stack = some p → c = d

/-- A core that switches finds no other core on the kernel stack of the process at the front of
the ready queue. -/
def Vacant (s : State E) (a : Action E) : Prop :=
  s.switches a.core = true → ∀ p ∈ s.sched.queue.head?,
    ∀ d, d ≠ a.core → (s.cores d).stack ≠ some p

inductive Seating (s : State E) (c : CoreId) (s' : State E) : Prop
  | keep (hcurrent : ∀ d p, s'.sched.current d = some p → s.sched.current d = some p)
      (hrsp0 : (s'.cores c).rsp0 = (s.cores c).rsp0)
      (hstack : ∀ p, (s'.cores c).stack = some p → (s.cores c).stack = some p)
  | trap {p : Pid} (hc : s.sched.current c = some p) (hcurrent : s'.sched.current = s.sched.current)
      (hrsp0 : (s'.cores c).rsp0 = (s.cores c).rsp0) (hstack : (s'.cores c).stack = (s.cores c).rsp0)
  | dispatch {p : Pid} (hcurrent : s'.sched.current = update s.sched.current c (some p))
      (hrsp0 : (s'.cores c).rsp0 = some p) (hstack : (s'.cores c).stack = (s.cores c).stack)
      (hfront : s.switches c = true ∧ s.sched.queue.head? = some p ∨ s.sched.current c = some p)

variable {s s' : State E} {c : CoreId} {p : Pid} {a : Action E} {config : BootConfig E}

theorem Seating.goto {b : State E} {m : Main E} {errands : List (Errand E)}
    (hcores : b.cores = s.cores)
    (hcurrent : ∀ d p, b.sched.current d = some p → s.sched.current d = some p) :
    s.Seating c (b.goto c m errands) :=
  .keep hcurrent (by rw [goto_rsp0, hcores]) fun p hp ↦ by rwa [goto_stack, hcores] at hp

section

variable [DecidableEq E]

theorem Effect.others (heff : s.Effect c s') (d : CoreId) (hd : d ≠ c) : s'.cores d = s.cores d := by
  cases heff with
  | errand _ hcores | light _ _ _ _ _ _ hcores | spawn _ _ hcores | bootSpawn _ _ _ _ _ _ _ hcores
  | exit _ _ _ _ hcores | kill _ _ _ _ _ hcores => rw [goto_other hd, hcores]
  | trap | leave | bootDone => exact setCore_other _ hd
  | dispatch _ hrelease =>
    unfold State.dispatch
    rw [setCore_other _ hd]
    exact congrFun hrelease.cores d
  | abandon _ hrelease =>
    unfold State.abandon
    rw [setCore_other _ hd]
    exact congrFun hrelease.cores d
  | _ => exact goto_other hd

variable [Fintype E]

theorem Effect.seating (heff : s.Effect c s') (hinv : s.Inv False) : s.Seating c s' := by
  have hsame : ∀ {b : State E} {t : Table E}, b.sched.table = t → t.current = s.sched.current →
      ∀ d p, b.sched.current d = some p → s.sched.current d = some p := by
    intro b t ht hcurrent d p hd
    rw [← hcurrent, ← ht]
    exact hd
  have hfinalize : ∀ {b : State E} {q : Pid} {Q : Process E} {status : ExitStatus},
      b.sched.table = s.sched.table.finalize q Q status →
      ∀ d p, b.sched.current d = some p → s.sched.current d = some p := by
    intro b q Q status ht d p hd
    rw [← Inner.table_current, ht, Table.finalize_current] at hd
    split at hd
    · cases hd
    · exact hd
  cases heff with
  | errand _ hcores _ hcurrent => exact .goto hcores fun d p hd ↦ by rwa [hcurrent] at hd
  | light _ _ _ _ _ _ hcores _ hcurrent =>
    exact .goto hcores fun d p hd ↦ by rwa [hcurrent] at hd
  | trap herr hmain =>
    obtain ⟨p, -, hc, -⟩ := hinv.current_of_attached hmain rfl
    exact .trap hc rfl (by rw [setCore_self]) (by rw [setCore_self])
  | leave herr hmain =>
    exact .keep (fun _ _ hd ↦ hd) (by rw [setCore_self]) fun p hp ↦ by rw [setCore_self] at hp; cases hp
  | bootDone herr hmain =>
    exact .keep (fun _ _ hd ↦ hd) (by rw [setCore_self]) fun p hp ↦ by rwa [setCore_self] at hp
  | reserve herr hfree =>
    refine .goto (b := s.withSched _) rfl fun d p hd ↦ ?_
    simpa [withSched, Inner.allocatePid, hfree] using hd
  | load => exact .goto (b := { s with spaces := _ }) rfl fun _ _ hd ↦ hd
  | spawn _ _ hcores _ _ _ htable | bootSpawn _ _ _ _ _ _ _ hcores htable =>
    exact .goto hcores (hsame htable rfl)
  | spawnFail => exact .goto rfl fun _ _ hd ↦ hd
  | mark => exact .goto (b := { s with stackBusy := _ }) rfl fun _ _ hd ↦ hd
  | exit _ _ _ _ hcores htable | kill _ _ _ _ _ hcores htable =>
    exact .goto hcores (hfinalize htable)
  | @dispatch p P b sched rest outgoing mid herr hrelease hqueue hP hpid htable hfront =>
    unfold State.dispatch
    refine .dispatch (p := p) ?_ (by rw [setCore_self]; exact congrArg some hpid) ?_ hfront
    · change sched.current = _
      funext d
      rw [← Inner.table_current, htable, Table.dispatch_current, Inner.table_current,
        hrelease.current]
      by_cases hdc : d = c
      · rw [if_pos hdc, hdc, update_self]
      · rw [if_neg hdc, update_of_ne hdc, update_of_ne hdc]
    · rw [setCore_self]
      exact congrArg (fun cores ↦ (cores c).stack) hrelease.cores
  | @abandon b sched outgoing mid herr hrelease htable =>
    unfold State.abandon
    refine .keep (fun d p hd ↦ ?_) ?_ fun p hp ↦ by rw [setCore_self] at hp; cases hp
    · change sched.current d = some p at hd
      rw [← Inner.table_current, htable, Inner.table_current, hrelease.current] at hd
      by_cases hdc : d = c
      · rw [hdc, update_self] at hd
        cases hd
      · rwa [update_of_ne hdc] at hd
    · rw [setCore_self]
      exact congrArg (fun cores ↦ (cores c).rsp0) hrelease.cores

/-- The next trap of a core goes to the kernel stack of the process it runs. -/
def OwnStacks (s : State E) : Prop :=
  ∀ c p, s.sched.current c = some p → (s.cores c).rsp0 = some p

theorem OwnStacks.effect (h : s.OwnStacks) (heff : s.Effect c s') (hinv : s.Inv False) :
    s'.OwnStacks := by
  intro d p hd
  by_cases hdc : d = c
  · subst hdc
    cases heff.seating hinv with
    | keep hcurrent hrsp0 =>
      rw [hrsp0]
      exact h d p (hcurrent d p hd)
    | trap _ hcurrent hrsp0 =>
      rw [hrsp0]
      exact h d p (by rwa [hcurrent] at hd)
    | dispatch hcurrent hrsp0 =>
      rw [hcurrent, update_self] at hd
      rw [hrsp0, hd]
  · rw [heff.others d hdc]
    cases heff.seating hinv with
    | keep hcurrent => exact h d p (hcurrent d p hd)
    | trap _ hcurrent => exact h d p (by rwa [hcurrent] at hd)
    | dispatch hcurrent =>
      rw [hcurrent, update_of_ne hdc] at hd
      exact h d p hd

/-- A core is on the stack of a process only while no other core is on it or runs the process. -/
structure Stacks (s : State E) : Prop where
  exclusive : s.StacksExclusive
  apart : ∀ c d p, c ≠ d → s.sched.current c = some p → (s.cores d).stack ≠ some p

end

namespace Stacks

theorem init (config : BootConfig E) : (State.init config).Stacks := by
  have hstack : ∀ c, ((State.init config).cores c).stack = none := by
    intro c
    simp only [State.init]
    split_ifs <;> rfl
  refine ⟨fun c d p hc ↦ ?_, fun c d p _ hc ↦ ?_⟩
  · rw [hstack] at hc
    cases hc
  · cases hc

theorem trap (h : s.Stacks) (hsound : s.sched.table.Sound)
    (hothers : ∀ d, d ≠ c → s'.cores d = s.cores d) (hc : s.sched.current c = some p)
    (hcurrent : s'.sched.current = s.sched.current) (hstack : (s'.cores c).stack = some p) :
    s'.Stacks := by
  have hother : ∀ d, d ≠ c → (s.cores d).stack ≠ some p := fun d hd ↦ h.apart c d p hd.symm hc
  refine ⟨fun d d' q hd hd' ↦ ?_, fun d d' q hdd hd hd' ↦ ?_⟩
  · by_cases hdc : d = c <;> by_cases hdc' : d' = c
    · rw [hdc, hdc']
    · rw [hdc, hstack] at hd
      rw [hothers d' hdc', ← hd] at hd'
      exact absurd hd' (hother d' hdc')
    · rw [hdc', hstack] at hd'
      rw [hothers d hdc, ← hd'] at hd
      exact absurd hd (hother d hdc)
    · rw [hothers d hdc] at hd
      rw [hothers d' hdc'] at hd'
      exact h.exclusive d d' q hd hd'
  · rw [hcurrent] at hd
    by_cases hdc' : d' = c
    · rw [hdc', hstack] at hd'
      cases hd'
      exact hdd ((hsound.injective d c p hd hc).trans hdc'.symm)
    · rw [hothers d' hdc'] at hd'
      exact h.apart d d' q hdd hd hd'

variable [DecidableEq E] [Fintype E]

theorem effect (h : s.Stacks) (hinv : s.Inv False) (hown : s.OwnStacks) (heff : s.Effect c s')
    (hvacant : s.switches c = true → ∀ p ∈ s.sched.queue.head?,
      ∀ d, d ≠ c → (s.cores d).stack ≠ some p) : s'.Stacks := by
  cases heff.seating hinv with
  | keep hcurrent _ hstack =>
    have hstacks : ∀ d p, (s'.cores d).stack = some p → (s.cores d).stack = some p := by
      intro d p hd
      by_cases hdc : d = c
      · subst hdc
        exact hstack p hd
      · rwa [heff.others d hdc] at hd
    exact ⟨fun d d' p hd hd' ↦ h.exclusive d d' p (hstacks d p hd) (hstacks d' p hd'),
      fun d d' p hdd hd hd' ↦ h.apart d d' p hdd (hcurrent d p hd) (hstacks d' p hd')⟩
  | trap hc hcurrent _ hstack =>
    exact h.trap hinv.scene.sound heff.others hc hcurrent (hstack.trans (hown c _ hc))
  | @dispatch p hcurrent _ hstack hfront =>
    -- a switch changes what the core runs, not the stack it is on
    have hstacks : ∀ d, (s'.cores d).stack = (s.cores d).stack := by
      intro d
      by_cases hdc : d = c
      · rw [hdc, hstack]
      · rw [heff.others d hdc]
    refine ⟨fun d d' q hd hd' ↦ ?_, fun d d' q hdd hd hd' ↦ ?_⟩
    · rw [hstacks] at hd hd'
      exact h.exclusive d d' q hd hd'
    · rw [hcurrent] at hd
      rw [hstacks] at hd'
      by_cases hdc : d = c
      · subst hdc
        rw [update_self] at hd
        cases hd
        rcases hfront with ⟨hswitches, hhead⟩ | hc
        · exact hvacant hswitches _ hhead d' (Ne.symm hdd) hd'
        · exact h.apart d d' _ hdd hc hd'
      · rw [update_of_ne hdc] at hd
        exact h.apart d d' q hdd hd hd'

end Stacks

variable [DecidableEq E] [Fintype E]

theorem ownStacks_of_reach {ok : State E → Action E → Prop} (hwrap : ∀ s a, ok s a → s.NoWrap a)
    (h : Reach next ok (init config) s) : s.OwnStacks :=
  h.invariant_over (fun _ ht ↦ inv_of_noWrap hwrap ht)
    (fun _ _ hc ↦ by cases hc)
    fun t a _ ht hown hok hnext ↦ hown.effect (ht.effect (hwrap t a hok) hnext) ht

instance (s : State E) (a : Action E) : Decidable (s.Vacant a) :=
  inferInstanceAs (Decidable (_ → _))

def preemptedTwice : List (Action Unit) :=
  bootSolo ++ spawnAndStart 1 (Pid.new 1 1) ++ [⟨0, .trap .timer userFrame⟩, go 0] ++ advance 1 3 ++
    [⟨1, .trap .timer userFrame⟩]

/-- As long as no core switches to a process whose kernel stack another core still uses, no two
cores are ever on the kernel stack of one process. -/
theorem stacksExclusive_of_vacant (config : BootConfig E) (s : State E)
    (h : Reach next (fun t a ↦ t.NoWrap a ∧ t.Vacant a) (init config) s) : s.StacksExclusive := by
  have hbase : ∀ t, Reach next (fun t a ↦ t.NoWrap a ∧ t.Vacant a) (init config) t →
      t.Inv False ∧ t.OwnStacks := fun t ht ↦
    ⟨inv_of_noWrap (fun _ _ hok ↦ hok.1) ht,
      ownStacks_of_reach (fun _ _ hok ↦ hok.1) ht⟩
  have hstacks : s.Stacks := h.invariant_over hbase (.init config)
    fun t a u ht hst hok hnext ↦ hst.effect ht.1 ht.2 (ht.1.effect hok.1 hnext) hok.2
  exact hstacks.exclusive

theorem stacksExclusive_of_vacant_trappedApart :
    ∃ s, Reach next (fun t a ↦ t.NoWrap a ∧ t.Vacant a) (init solo) s ∧
      (s.cores 0).stack = some (Pid.new 0 1) ∧ (s.cores 1).stack = some (Pid.new 1 1) ∧
      s.StacksExclusive := by
  refine exists_of_run trappedApart (by decide +kernel) fun s hreach
    (hstack : (s.cores 0).stack = some (Pid.new 0 1) ∧ (s.cores 1).stack = some (Pid.new 1 1)) ↦ ?_
  exact ⟨hstack.1, hstack.2, stacksExclusive_of_vacant solo s hreach⟩

theorem stacks_shared : ∃ s, Reach next State.NoWrap (init solo) s ∧
    ¬ s.StacksExclusive := by
  refine exists_of_run preemptedTwice (by decide +kernel) fun s hreach
    (hstack : (s.cores 0).stack = some (Pid.new 0 1) ∧ (s.cores 1).stack = some (Pid.new 0 1)) ↦ ?_
  intro hex
  exact absurd (hex 0 1 _ hstack.1 hstack.2) (by decide)

end State

end Tarnos.Kernel
