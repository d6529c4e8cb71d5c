import Tarnos.Kernel.Marks

namespace Tarnos.Kernel

open Abi Arch Kcore Tarnos.Task Foundation.Transition Function Inner

variable {E : Type}

/-- The core has nothing left to do but the `iretq` of its entry stub. -/
def Core.atTail (core : Core E) : Bool := core.errands.isEmpty && core.main.leaving

/-- On a process's stack, clearing a busy mark is the last thing before the tail. -/
def Core.Tidy (core : Core E) : Prop :=
  core.stack = none ∨ (∀ e ∈ core.errands, e.clears = none) ∨
    core.main.leaving = true ∧ ∀ e ∈ core.errands.dropLast, e.clears = none

namespace State

/-- Whenever a process ends, a core on its kernel stack still runs it, has its busy mark to
clear, or is at its tail. -/
def Covered (s : State E) (a : Action E) : Prop :=
  ∀ p ∈ s.ends a.core, ∀ d, (s.cores d).stack = some p →
    s.sched.current d = some p ∨ (∃ i ∈ p.slot, i ∈ (s.cores d).clearings) ∨
      (s.cores d).atTail = true

/-- No pid is allocated while a core at its tail is on the kernel stack of a dead process. -/
def Settled (s : State E) (a : Action E) : Prop :=
  s.allocates a = true → ∀ d, (s.cores d).atTail = true → ∀ q ∈ (s.cores d).stack,
    (s.sched.occupiedMut q).isSome = true

/-- No core is on the kernel stack of the slot that the step hands out. -/
def StackUnused (s : State E) (a : Action E) : Prop :=
  s.allocates a = true → ∀ i, s.sched.freeSlot s.stackBusy = some i →
    ∀ d q, (s.cores d).stack = some q → q.slot ≠ some i

variable {s s' : State E} {c : CoreId} {i : Fin maxProcesses} {q : Pid}

theorem main_of_leaving {m : Main E} (h : m.leaving = true) : ∃ f, m = .leave f := by
  cases m with
  | leave f => exact ⟨f, rfl⟩
  | _ => cases h

theorem Marking.pending (h : s.Marking c s') (htidy : (s.cores c).Tidy)
    (hstack : (s.cores c).stack = some q) (hi : i ∈ (s.cores c).clearings) :
    i ∈ (s'.cores c).clearings ∨ (s'.cores c).atTail = true := by
  cases h with
  | keep hclears | mark hclears => exact .inl (by rwa [hclears])
  | leave _ _ _ hold =>
    rw [hold] at hi
    cases hi
  | @clear j herr hmain =>
    rcases htidy with hnone | hclears | ⟨hleave, hclears⟩
    · rw [hstack] at hnone
      cases hnone
    · have hj := hclears (.clearStackBusy j) (by rw [herr]; exact List.mem_cons_self)
      cases hj
    · -- the clearing is the last errand
      refine .inr ?_
      rw [Core.atTail, hmain, hleave, Bool.and_true]
      cases hrest : (s'.cores c).errands with
      | nil => rfl
      | cons r rest =>
        have hj := hclears (.clearStackBusy j) (by
          rw [herr, hrest, List.dropLast_cons_cons]
          exact List.mem_cons_self)
        cases hj

/-- Whoever is on a kernel stack: its process lives, or the stack is marked busy, or the core is
at its tail. -/
structure Footing (s : State E) : Prop where
  tidy : ∀ c, (s.cores c).Tidy
  used : ∀ c q, (s.cores c).stack = some q → s.sched.table.Known q ∧
    ∀ Q, s.sched.view q = .occupied Q → Q.state ≠ .suspended
  footed : ∀ c q, (s.cores c).stack = some q → s.sched.table.Live q ∨
    (∃ i ∈ q.slot, i ∈ (s.cores c).clearings) ∨ (s.cores c).atTail = true

theorem Footing.init (config : BootConfig E) : (State.init config).Footing := by
  have hstack : ∀ c, ((State.init config).cores c).stack = none := by
    intro c
    simp only [State.init]
    split_ifs <;> rfl
  refine ⟨fun c ↦ .inl (hstack c), fun c q hc ↦ ?_, fun c q hc ↦ ?_⟩
  · rw [hstack] at hc
    cases hc
  · rw [hstack] at hc
    cases hc

theorem Footing.unused {a : Action E} (h : s.Footing) (hmarks : s.Marks) (hsettled : s.Settled a) :
    s.StackUnused a := by
  intro hallocates i hfree d q hd hslot
  obtain ⟨hempty, hbusy⟩ := freeSlot_some hfree
  have hdead : ¬ s.sched.table.Live q := by
    rintro ⟨Q, hQ⟩
    have hne : s.sched.view q ≠ .empty := by
      rw [← table_view, hQ]
      simp
    obtain ⟨j, hj, hpid⟩ := slot_of_view hne
    rw [hslot] at hj
    cases hj
    rw [hpid, view_pidAt] at hne
    exact hne hempty
  rcases h.footed d q hd with hlive | ⟨j, hj, hpending⟩ | htail
  · exact hdead hlive
  · rw [hslot] at hj
    cases hj
    have hpos : 0 < s.clears i :=
      lt_of_lt_of_le (List.count_pos_iff.mpr hpending)
        (Finset.single_le_sum (f := fun c ↦ (s.cores c).clearings.count i)
          (fun _ _ ↦ Nat.zero_le _) (Finset.mem_univ d))
    rw [hmarks.busy i hpos] at hbusy
    cases hbusy
  · obtain ⟨Q, hQ⟩ := Option.isSome_iff_exists.mp (hsettled hallocates d htail q hd)
    exact hdead ⟨Q, occupiedMut_eq_some.mp hQ⟩

variable [DecidableEq E]

theorem Effect.tidy (heff : s.Effect c s') (h : (s.cores c).Tidy) : (s'.cores c).Tidy := by
  have hnone : ∀ {b : State E} {m : Main E} {errands : List (Errand E)},
      (∀ e ∈ errands, e.clears = none) → ((b.goto c m errands).cores c).Tidy :=
    fun hclears ↦ .inr (.inl (by rwa [goto_errands]))
  cases heff with
  | @errand errand rest more b herr hcores _ _ _ _ hmore =>
    rcases h with hstack | hclears | ⟨hleave, hclears⟩
    · exact .inl (by rw [goto_stack, hcores, hstack])
    · refine hnone fun e he ↦ ?_
      rcases List.mem_append.mp he with he | he
      · exact (hmore e he).clears
      · exact hclears e (by rw [herr]; exact List.mem_cons_of_mem _ he)
    · refine .inr (.inr ⟨by rw [goto_main]; exact hleave, fun e he ↦ ?_⟩)
      rw [goto_errands] at he
      cases rest with
      | nil =>
        rw [List.append_nil] at he
        exact (hmore e (List.mem_of_mem_dropLast he)).clears
      | cons r rest =>
        rw [List.dropLast_append_cons] at he
        rcases List.mem_append.mp he with he | he
        · exact (hmore e he).clears
        · refine hclears e ?_
          rw [herr, List.dropLast_cons_cons]
          exact List.mem_cons_of_mem _ he
  | light _ _ _ _ _ _ _ _ _ _ _ herrands | exit _ _ _ _ _ _ _ _ herrands =>
    exact hnone fun e he ↦ (herrands e he).clears
  | trap => exact .inr (.inl (by rw [setCore_self]; simp))
  | leave => exact .inl (by rw [setCore_self])
  | bootDone => exact .inr (.inl (by rw [setCore_self]; simp [Errand.clears]))
  | spawnFail => exact hnone (by simp [Errand.clears])
  | kill =>
    refine hnone fun e he ↦ ?_
    rcases List.mem_cons.mp he with rfl | he
    · rfl
    · obtain ⟨P, -, rfl⟩ := List.mem_map.mp he
      rfl
  | @dispatch p P b sched rest outgoing mid _ _ _ _ _ _ _ hmid =>
    refine .inr (.inr ⟨by simp [State.dispatch, Main.leaving], fun e he ↦ ?_⟩)
    unfold State.dispatch at he
    rw [setCore_self] at he
    have hfront : e ∈ (s.cores c).main.boxes.map .dropBox ++ mid := by
      cases outgoing with
      | none =>
        rw [outgoingErrands, List.append_nil] at he
        exact List.mem_of_mem_dropLast he
      | some i => rwa [outgoingErrands, List.dropLast_concat] at he
    rcases List.mem_append.mp hfront with he | he
    · obtain ⟨P, -, rfl⟩ := List.mem_map.mp he
      rfl
    · exact (hmid e he).clears
  | abandon =>
    unfold State.abandon
    exact .inl (by rw [setCore_self])
  | _ => exact hnone (by simp)

theorem Effect.of_finalize {status : ExitStatus} (heff : s.Effect c s')
    (herrands : (s.cores c).errands = []) (hmain : (s.cores c).main = .finalize q status) :
    (s'.cores c).clearings = q.slot.toList := by
  have hmarked : (s.cores c).main.marked = some q := by
    rw [hmain]
    rfl
  cases heff with
  | exit _ hfinal _ _ _ _ _ _ herr =>
    rw [hmain] at hfinal
    cases hfinal
    unfold Core.clearings
    rw [goto_errands, goto_main, clears_light herr]
    rfl
  | light _ hold | reserve _ _ _ hold =>
    rw [hold.marked] at hmarked
    cases hmarked
  | dispatch _ hrelease | abandon _ hrelease =>
    rw [hrelease.marked] at hmarked
    cases hmarked
  | _ => simp_all

theorem Effect.of_atTail (heff : s.Effect c s') (h : (s.cores c).atTail = true) :
    (s'.cores c).stack = none := by
  simp only [Core.atTail, Bool.and_eq_true, List.isEmpty_iff] at h
  obtain ⟨herrands, hleave⟩ := h
  obtain ⟨f, hmain⟩ := main_of_leaving hleave
  cases heff with
  | leave => rw [setCore_self]
  | dispatch _ hrelease =>
    have hstay := hrelease.leaving
    rw [hleave] at hstay
    cases hstay
  | abandon =>
    unfold State.abandon
    rw [setCore_self]
  | _ => simp_all

variable [Fintype E]

theorem Effect.known (heff : s.Effect c s') (hinv : s.Inv False) (hknown : s.sched.table.Known q) :
    s'.sched.table.Known q := by
  cases heff.reshapes with
  | steady hsteady =>
    exact ⟨by rw [hsteady.issued]; exact hknown.1, fun hr ↦ hknown.2 (hsteady.reserved q hr)⟩
  | @reserve i hfree hwrap ht =>
    have hne : q ≠ s.sched.freshPid i := by
      rintro rfl
      exact not_issued_freshPid hwrap hknown.1
    rw [ht]
    refine ⟨(issued_allocatePid hfree hwrap q).mpr (.inr hknown.1), ?_⟩
    rw [table_view, view_allocatePid hfree, if_neg hne]
    exact hknown.2
  | @fill pid P hreserved hview _ hissued =>
    have hne : q ≠ pid := fun hq ↦ hknown.2 (by rw [hq]; exact hreserved)
    refine ⟨by rw [table_issued, hissued]; exact hknown.1, ?_⟩
    rw [table_view, hview, if_neg hne]
    exact hknown.2
  | finalize _ hP htable =>
    rw [htable]
    exact (Table.finalize_known hinv.scene.sound hP).mpr hknown

/-- A pid that has been used stays so, never becomes suspended, and its process lives on unless
the step ends it. -/
theorem Effect.used (heff : s.Effect c s') (hinv : s.Inv False) (hknown : s.sched.table.Known q)
    (hstate : ∀ Q, s.sched.view q = .occupied Q → Q.state ≠ .suspended) :
    s'.sched.table.Known q ∧ (∀ Q, s'.sched.view q = .occupied Q → Q.state ≠ .suspended) ∧
      (s.sched.table.Live q → s'.sched.table.Live q ∨ s.ends c = some q) := by
  refine ⟨heff.known hinv hknown, ?_⟩
  have hsound : s.sched.table.Sound := hinv.scene.sound
  have hput : ∀ {t : Inner E} {r : Pid} {slot : Slot E}, q ≠ r →
      (∀ p, t.view p = if p = r then slot else s.sched.view p) →
      (∀ Q, t.view q = .occupied Q → Q.state ≠ .suspended) ∧
      (s.sched.table.Live q → t.table.Live q ∨ s.ends c = some q) := by
    intro t r slot hqr hview
    have hq : t.view q = s.sched.view q := by rw [hview, if_neg hqr]
    refine ⟨by rw [hq]; exact hstate, ?_⟩
    rintro ⟨Q, hQ⟩
    exact .inl ⟨Q, hq.trans hQ⟩
  cases heff.reshapes with
  | steady hsteady =>
    refine ⟨fun Q hQ hs ↦ ?_, fun hl ↦ .inl (hsteady.live_iff.mpr hl)⟩
    obtain ⟨Q₀, hQ₀, hs₀⟩ := hsteady.suspended q Q hQ hs
    exact hstate Q₀ hQ₀ hs₀
  | @reserve i hfree hwrap ht =>
    rw [ht]
    refine hput ?_ (view_allocatePid hfree)
    rintro rfl
    exact not_issued_freshPid hwrap hknown.1
  | fill hreserved hview => exact hput (fun hq ↦ hknown.2 (by rw [hq]; exact hreserved)) hview
  | @finalize p P status hends hP htable =>
    rw [← table_view, htable]
    refine ⟨fun C' hC' ↦ ?_, ?_⟩
    · obtain ⟨-, C, hC, hout⟩ := Table.finalize_occupied hsound hP hC'
      exact hout.suspended (hstate C hC)
    · rintro ⟨Q, hQ⟩
      by_cases hqp : q = p
      · exact .inr (by rw [hends, hqp])
      · obtain ⟨Q', hQ', -⟩ :=
          Table.finalize_survives hsound hP hqp hQ fun hbad ↦ hstate Q hQ hbad.2
        exact .inl ⟨Q', hQ'⟩

theorem Footing.effect (h : s.Footing) (hinv : s.Inv False) (hown : s.OwnStacks)
    (hmarks : s.Marks) (heff : s.Effect c s') (hsound' : s'.sched.table.Sound)
    (hcovered : ∀ p ∈ s.ends c, ∀ d, (s.cores d).stack = some p → s.sched.current d = some p ∨
      (∃ i ∈ p.slot, i ∈ (s.cores d).clearings) ∨ (s.cores d).atTail = true) : s'.Footing := by
  have hsound : s.sched.table.Sound := hinv.scene.sound
  have hmarking := heff.marking hinv (hmarks.marked c)
  -- the stack of the stepping core is the old one or that of its own process
  have hsource : ∀ q, (s'.cores c).stack = some q →
      (s.cores c).stack = some q ∨ s.sched.current c = some q ∧ s'.sched.current c = some q := by
    intro q hq
    cases heff.seating hinv with
    | keep _ _ hstack => exact .inl (hstack q hq)
    | trap hc hcurrent _ hstack =>
      rw [hstack, hown c _ hc] at hq
      cases hq
      exact .inr ⟨hc, by rw [hcurrent, hc]⟩
    | dispatch _ _ hstack => exact .inl (by rwa [hstack] at hq)
  have hrunning : ∀ q, s.sched.current c = some q → s.sched.table.Known q ∧
      ∀ Q, s.sched.view q = .occupied Q → Q.state ≠ .suspended := by
    intro q hq
    obtain ⟨Q, hQ, hrun⟩ := hsound.running c q hq
    refine ⟨Table.Live.known ⟨Q, hQ⟩ hsound, fun Q' hQ' ↦ ?_⟩
    rw [show s.sched.view q = .occupied Q from hQ] at hQ'
    cases hQ'
    rw [hrun]
    simp
  refine ⟨fun d ↦ ?_, fun d q hd ↦ ?_, fun d q hd ↦ ?_⟩
  · by_cases hdc : d = c
    · subst hdc
      exact heff.tidy (h.tidy d)
    · rw [heff.others d hdc]
      exact h.tidy d
  · have hold : s.sched.table.Known q ∧ ∀ Q, s.sched.view q = .occupied Q → Q.state ≠ .suspended := by
      by_cases hdc : d = c
      · subst hdc
        rcases hsource q hd with hd | ⟨hd, -⟩
        · exact h.used d q hd
        · exact hrunning q hd
      · rw [heff.others d hdc] at hd
        exact h.used d q hd
    obtain ⟨hknown, hstate, -⟩ := heff.used hinv hold.1 hold.2
    exact ⟨hknown, hstate⟩
  · by_cases hdc : d = c
    · subst hdc
      rcases hsource q hd with hold | ⟨-, hcurrent⟩
      · -- where the core would be if its mark or its tail carried it
        have hcarry : (∃ i ∈ q.slot, i ∈ (s.cores d).clearings) ∨ (s.cores d).atTail = true →
            (∃ i ∈ q.slot, i ∈ (s'.cores d).clearings) ∨ (s'.cores d).atTail = true := by
          rintro (⟨i, hslot, hi⟩ | htail)
          · rcases hmarking.pending (h.tidy d) hold hi with hi' | htail
            · exact .inl ⟨i, hslot, hi'⟩
            · exact .inr htail
          · rw [heff.of_atTail htail] at hd
            cases hd
        rcases h.footed d q hold with hlive | hrest
        · obtain ⟨hknown, hstate⟩ := h.used d q hold
          rcases (heff.used hinv hknown hstate).2.2 hlive with hlive' | hends
          · exact .inl hlive'
          · rcases hcovered q hends d hold with hc | hrest
            · obtain ⟨-, herr, status, hmain⟩ := hinv.ends_current hends hc
              obtain ⟨i, hslot, -⟩ := hmarks.marked d q (by rw [hmain]; rfl)
              refine .inr (.inl ⟨i, hslot, ?_⟩)
              rw [heff.of_finalize herr hmain, hslot]
              exact List.mem_singleton_self i
            · exact .inr (hcarry hrest)
        · exact .inr (hcarry hrest)
      · obtain ⟨Q, hQ, -⟩ := hsound'.running d q hcurrent
        exact .inl ⟨Q, hQ⟩
    · rw [heff.others d hdc] at hd ⊢
      rcases h.footed d q hd with hlive | hrest
      · obtain ⟨hknown, hstate⟩ := h.used d q hd
        rcases (heff.used hinv hknown hstate).2.2 hlive with hlive' | hends
        · exact .inl hlive'
        · rcases hcovered q hends d hd with hc | hrest
          · exact absurd (hinv.ends_current hends hc).1 hdc
          · exact .inr hrest
      · exact .inr hrest

theorem marks_of_reach {ok : State E → Action E → Prop} {config : BootConfig E}
    (hwrap : ∀ s a, ok s a → s.NoWrap a) (h : Reach next ok (init config) s) : s.Marks :=
  h.invariant_over (fun _ ht ↦ inv_of_noWrap hwrap ht)
    (.init config) fun t a _ ht hmarks hok hnext ↦ hmarks.effect ht (ht.effect (hwrap t a hok) hnext)

/-- As long as processes end only where no other core is caught on their kernel stack, and no
allocation falls into the tail of a core on a dead process's stack, an allocated slot has a kernel
stack nobody is on. -/
theorem stackUnused_of_covered (config : BootConfig E) (s : State E) (a : Action E)
    (h : Reach next (fun t a ↦ t.NoWrap a ∧ t.Covered a ∧ t.Settled a) (init config) s)
    (hsettled : s.Settled a) : s.StackUnused a := by
  have hwrap : ∀ (t : State E) (a : Action E), t.NoWrap a ∧ t.Covered a ∧ t.Settled a → t.NoWrap a :=
    fun _ _ hok ↦ hok.1
  have hfooting : s.Footing := by
    refine h.invariant_over (J := fun t ↦ t.Inv False ∧ t.OwnStacks ∧ t.Marks) (fun t ht ↦ ?_)
      (.init config) fun t b u ht hfoot hok hnext ↦ ?_
    · exact ⟨inv_of_noWrap hwrap ht, ownStacks_of_reach hwrap ht,
        marks_of_reach hwrap ht⟩
    · have hinv' := ht.1.next hok.1 (fun hf ↦ hf.elim) hnext
      exact hfoot.effect ht.1 ht.2.1 ht.2.2 (ht.1.effect hok.1 hnext) hinv'.scene.sound hok.2.1
  exact hfooting.unused (marks_of_reach hwrap h) hsettled

instance (s : State E) (a : Action E) : Decidable (s.Covered a) :=
  inferInstanceAs (Decidable (∀ p ∈ s.ends a.core, ∀ d, (s.cores d).stack = some p →
    s.sched.current d = some p ∨ (∃ i ∈ p.slot, i ∈ (s.cores d).clearings) ∨
      (s.cores d).atTail = true))

instance (s : State E) (a : Action E) : Decidable (s.Settled a) :=
  inferInstanceAs (Decidable (_ → _))

def collectedEarly : List (Action Unit) :=
  childRuns ++ serve 1 sysExit 0 3 ++ serve 0 sysWait (Pid.new 1 1).raw 4 ++ serve 0 sysSpawn 0 2

theorem stackUnused_of_covered_collectedEarly :
    ∃ s, Reach next (fun t a ↦ t.NoWrap a ∧ t.Covered a ∧ t.Settled a) (init solo) s ∧
      s.allocates (go 0) = true ∧ s.sched.freeSlot s.stackBusy = some 2 ∧
      (s.cores 1).stack = some (Pid.new 1 1) ∧ s.StackUnused (go 0) := by
  refine exists_of_run collectedEarly (by decide +kernel) fun s hreach
    (hstate : s.allocates (go 0) = true ∧ s.sched.freeSlot s.stackBusy = some 2 ∧
      (s.cores 1).stack = some (Pid.new 1 1) ∧ s.Settled (go 0)) ↦ ?_
  obtain ⟨hallocates, hfree, hstack, hsettled⟩ := hstate
  exact ⟨hallocates, hfree, hstack, stackUnused_of_covered solo s (go 0) hreach hsettled⟩

def killedWhileLeaving : List (Action Unit) :=
  childRuns ++ spawnAndStart 2 (Pid.new 2 1) ++ [⟨1, .trap .timer userFrame⟩, go 1] ++
    serve 0 sysKill (Pid.new 1 1).raw 7 ++ serve 0 sysWait (Pid.new 1 1).raw 4 ++
    serve 0 sysSpawn 0 2

theorem stack_reused : ∃ s, Reach next State.NoWrap (init solo) s ∧
    (s.next (go 0)).isSome = true ∧ ¬ s.StackUnused (go 0) := by
  refine exists_of_run killedWhileLeaving (by decide +kernel) fun s _
    (hstate : s.allocates (go 0) = true ∧ s.sched.freeSlot s.stackBusy = some 1 ∧
      (s.cores 1).stack = some (Pid.new 1 1) ∧ (s.next (go 0)).isSome = true) ↦ ?_
  obtain ⟨hallocates, hfree, hstack, hnext⟩ := hstate
  exact ⟨hnext, fun hunused ↦ hunused hallocates 1 hfree 1 _ hstack (by decide)⟩

end State

end Tarnos.Kernel
