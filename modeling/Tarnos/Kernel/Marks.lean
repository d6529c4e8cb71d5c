import Mathlib.Algebra.Order.BigOperators.Group.Finset
import Tarnos.Kernel.Reaping

namespace Tarnos.Task.Inner

open Abi Function

variable {E : Type} {s s' : Inner E} {i j : Fin maxProcesses} {p r : Pid} {P : Process E}

structure Left (s : Inner E) (i : Fin maxProcesses) : Prop where
  unreserved : s.view (s.pidAt i) ≠ .reserved
  off : ∀ P, s.view (s.pidAt i) = .occupied P → P.state = .running ∧
    ∀ c, s.current c ≠ some (s.pidAt i)

theorem Left.not_current (h : s.Left i) {c : CoreId} (hslot : p.slot = some i)
    (hP : s.view p = .occupied P) : s.current c ≠ some p := by
  obtain ⟨j, hj, hpid, -⟩ := slot_of_eq hP
  rw [hslot] at hj
  cases hj
  rw [hpid] at hP ⊢
  exact (h.off P hP).2 c

theorem left_of_off (hslot : p.slot = some i) (hP : s.view p = .occupied P)
    (hrun : P.state = .running) (hcur : ∀ c, s.current c ≠ some p) : s.Left i := by
  obtain ⟨j, hj, hpid, -⟩ := slot_of_eq hP
  rw [hslot] at hj
  cases hj
  rw [hpid] at hP hcur
  refine ⟨by rw [hP]; simp, fun Q hQ ↦ ?_⟩
  rw [hP] at hQ
  cases hQ
  exact ⟨hrun, hcur⟩

theorem left_of_dead (hslot : p.slot = some i) (hP : s.view p ≠ .empty) (hissued : s'.issued = s.issued)
    (hdead : ¬ s'.table.Live p) (hreserved : s'.view p ≠ .reserved) : s'.Left i := by
  obtain ⟨j, hj, hpid⟩ := slot_of_view hP
  rw [hslot] at hj
  cases hj
  have hpid' : s'.pidAt i = p := by rw [pidAt_of_issued hissued, ← hpid]
  refine ⟨by rw [hpid']; exact hreserved, fun Q hQ ↦ ?_⟩
  rw [hpid'] at hQ
  exact absurd ⟨Q, hQ⟩ hdead

theorem Left.steady (h : s.Left i) (hs : s.table.Steady s'.table) : s'.Left i := by
  have hpid := pidAt_of_issued (s := s) hs.issued
  refine ⟨fun hr ↦ ?_, fun P' hP' ↦ ?_⟩
  · rw [hpid] at hr
    exact h.unreserved (hs.reserved _ hr)
  · rw [hpid] at hP' ⊢
    have hlive : s.table.Live (s.pidAt i) := hs.live_iff.mp ⟨P', hP'⟩
    obtain ⟨P, hP⟩ := hlive
    obtain ⟨hrun, hcur⟩ := h.off P hP
    obtain ⟨Q, hQ, hrun', hcur'⟩ := hs.evicted _ P hP hrun hcur
    rw [show s'.table.view (s.pidAt i) = .occupied P' from hP'] at hQ
    cases hQ
    exact ⟨hrun', hcur'⟩

theorem Left.put (slot : Slot E) (h : s.Left i) (hr : s.view r = .reserved)
    (hissued : s'.issued = s.issued) (hcurrent : s'.current = s.current)
    (hview : ∀ q, s'.view q = if q = r then slot else s.view q) : s'.Left i := by
  have hpid := pidAt_of_issued (s := s) hissued
  have hne : s.pidAt i ≠ r := by
    rintro rfl
    exact h.unreserved hr
  refine ⟨?_, fun P hP ↦ ?_⟩
  · rw [hpid, hview, if_neg hne]
    exact h.unreserved
  · rw [hpid, hview, if_neg hne] at hP
    rw [hpid, hcurrent]
    exact h.off P hP

theorem Left.allocate {busy : Fin maxProcesses → Bool} (h : s.Left i)
    (hfree : s.freeSlot busy = some j) (hij : i ≠ j) : (s.allocatePid busy).2.Left i := by
  have hpid : (s.allocatePid busy).2.pidAt i = s.pidAt i := by
    simp [allocatePid, hfree, pidAt, hij]
  have hview : (s.allocatePid busy).2.view (s.pidAt i) = s.view (s.pidAt i) := by
    rw [view_allocatePid hfree, if_neg (s.freshPid_ne_pidAt j i).symm]
  have hcurrent : (s.allocatePid busy).2.current = s.current := by simp [allocatePid, hfree]
  refine ⟨by rw [hpid, hview]; exact h.unreserved, fun P hP ↦ ?_⟩
  rw [hpid, hview] at hP
  rw [hpid, hcurrent]
  exact h.off P hP

theorem Left.finalize {status : ExitStatus} (h : s.Left i) (hsound : s.table.Sound)
    (hP : s.view p = .occupied P) (htable : s'.table = s.table.finalize p P status) : s'.Left i := by
  have hissued : s'.issued = s.issued := by
    rw [← table_issued, htable, Table.finalize_issued, table_issued]
  have hpid := pidAt_of_issued (s := s) hissued
  refine ⟨fun hr ↦ ?_, fun C' hC' ↦ ?_⟩
  · rw [hpid, ← table_view, htable, Table.finalize_reserved hsound hP] at hr
    exact h.unreserved hr
  · rw [hpid] at hC' ⊢
    rw [← table_view, htable] at hC'
    obtain ⟨-, C, hC, hout⟩ := Table.finalize_occupied hsound hP hC'
    obtain ⟨hrun, hcur⟩ := h.off C hC
    refine ⟨?_, fun c hc ↦ ?_⟩
    · exact (hout.state_eq (by simp [hrun])).trans hrun
    · rw [← table_current, htable, Table.finalize_current] at hc
      split at hc
      · cases hc
      · exact hcur c hc

end Tarnos.Task.Inner

namespace Tarnos.Kernel

open Abi Arch Kcore Tarnos.Task Foundation.Transition Function

variable {E : Type}

def Core.clearings (core : Core E) : List (Fin maxProcesses) :=
  core.errands.filterMap Errand.clears ++ core.main.outgoing.toList

namespace State

def clears (s : State E) (i : Fin maxProcesses) : ℕ := ∑ c, (s.cores c).clearings.count i

section Lists

theorem clears_light {errands : List (Errand E)} (h : ∀ e ∈ errands, e.Light) :
    errands.filterMap Errand.clears = [] :=
  List.filterMap_eq_nil_iff.mpr fun e he ↦ (h e he).clears

theorem clears_dropBox (drops : List (Process E)) :
    (drops.map (Errand.dropBox (E := E))).filterMap Errand.clears = [] := by
  rw [List.filterMap_map]
  exact List.filterMap_eq_nil_iff.mpr fun _ _ ↦ rfl

theorem clears_outgoing (outgoing : Option (Fin maxProcesses)) :
    (outgoingErrands outgoing : List (Errand E)).filterMap Errand.clears = outgoing.toList := by
  cases outgoing <;> rfl

end Lists

variable {s s' : State E} {c : CoreId} {i : Fin maxProcesses} {p : Pid}

theorem clearings_cons (herr : (s.cores c).errands = .clearStackBusy i :: (s'.cores c).errands)
    (hmain : (s'.cores c).main = (s.cores c).main) :
    (s.cores c).clearings = i :: (s'.cores c).clearings := by
  unfold Core.clearings
  rw [herr, hmain]
  rfl

theorem Release.off {b : State E} (h : s.Release b c outgoing) (hsound : s.sched.table.Sound)
    (hc : s.sched.current c = some p) (d : CoreId) : b.sched.current d ≠ some p := by
  intro hd
  rw [h.current] at hd
  by_cases hdc : d = c
  · rw [hdc, update_self] at hd
    cases hd
  · rw [update_of_ne hdc] at hd
    exact hdc (hsound.injective d c p hd hc)

theorem marked_caller {m : Main E} {q : Pid} (h : m.marked = some q) : m.caller = some q := by
  cases m with
  | finalize pid status => exact h
  | _ => cases h

section

inductive Marking (s : State E) (c : CoreId) (s' : State E) : Prop
  | keep (hclears : (s'.cores c).clearings = (s.cores c).clearings)
      (hbusy : s'.stackBusy = s.stackBusy)
      (hmarked : ∀ q, (s'.cores c).main.marked = some q → (s.cores c).main.marked = some q)
  | clear {i : Fin maxProcesses}
      (herr : (s.cores c).errands = .clearStackBusy i :: (s'.cores c).errands)
      (hmain : (s'.cores c).main = (s.cores c).main)
      (hbusy : s'.stackBusy = update s.stackBusy i false)
  | mark {p : Pid} {i : Fin maxProcesses} (hclears : (s'.cores c).clearings = (s.cores c).clearings)
      (hslot : p.slot = some i) (hbusy : s'.stackBusy = update s.stackBusy i true)
      (hmarked : (s'.cores c).main.marked = some p)
  | leave {p : Pid} {P : Process E} {i : Fin maxProcesses} (hc : s.sched.current c = some p)
      (hP : s.sched.view p = .occupied P) (hslot : p.slot = some i)
      (hold : (s.cores c).clearings = []) (hnew : (s'.cores c).clearings = [i])
      (hbusy : s'.stackBusy = update s.stackBusy i true) (hleft : s'.sched.Left i)
      (hmarked : (s'.cores c).main.marked = none)

theorem Release.marking {b t : State E} (h : s.Release b c outgoing) (hsound : s.sched.table.Sound)
    (herr : (s.cores c).errands = []) (hsteady : b.sched.table.Steady t.sched.table)
    (hnew : (t.cores c).clearings = outgoing.toList) (hbusy : t.stackBusy = b.stackBusy)
    (hmarked : (t.cores c).main.marked = none) : s.Marking c t := by
  have hold : (s.cores c).clearings = (s.cores c).main.outgoing.toList := by
    unfold Core.clearings
    rw [herr]
    rfl
  rcases h.busy with ⟨hout, hsame⟩ | ⟨hout, q, i, Q, hc, hslot, hi, hset, hQ, hrun⟩
  · refine .keep (by rw [hnew, hold, hout]) (hbusy.trans hsame) fun q hq ↦ ?_
    rw [hmarked] at hq
    cases hq
  · obtain ⟨Q₀, hQ₀, -⟩ := hsound.running c q hc
    have hleft := Inner.left_of_off hslot hQ hrun (h.off hsound hc)
    exact .leave hc hQ₀ hslot (by rw [hold, hout]; rfl) (by rw [hnew, hi]; rfl) (hbusy.trans hset)
      (hleft.steady hsteady) hmarked

variable [DecidableEq E]

theorem Effect.clears_eq (heff : s.Effect c s') (i : Fin maxProcesses) :
    s'.clears i + (s.cores c).clearings.count i = s.clears i + (s'.cores c).clearings.count i := by
  have hcores : s'.cores = update s.cores c (s'.cores c) := by
    funext d
    by_cases hd : d = c
    · rw [hd, update_self]
    · rw [update_of_ne hd, heff.others d hd]
  unfold clears
  rw [hcores, update_self]
  exact Foundation.Sums.sum_comp_update (fun core : Core E ↦ core.clearings.count i) s.cores c
    (s'.cores c)

theorem Effect.left (heff : s.Effect c s') (hsound : s.sched.table.Sound) (h : s.sched.Left i)
    (hbusy : s.stackBusy i = true) : s'.sched.Left i := by
  cases heff.reshapes with
  | steady hsteady => exact h.steady hsteady
  | @reserve j hfree _ ht =>
    rw [ht]
    refine h.allocate hfree ?_
    rintro rfl
    rw [(Inner.freeSlot_some hfree).2] at hbusy
    cases hbusy
  | fill hreserved hview hcurrent hissued => exact h.put _ hreserved hissued hcurrent hview
  | finalize _ hP htable => exact h.finalize hsound hP htable

variable [Fintype E]

theorem Effect.marking (heff : s.Effect c s') (hinv : s.Inv False)
    (hmarks : ∀ q, (s.cores c).main.marked = some q → ∃ i, q.slot = some i ∧ s.stackBusy i = true) :
    s.Marking c s' := by
  have hsound : s.sched.table.Sound := hinv.scene.sound
  -- a core without errands between two points that have nothing to clear
  have hkeep : ∀ {t : State E}, (s.cores c).errands = [] → (s.cores c).main.outgoing = none →
      (t.cores c).errands.filterMap Errand.clears = [] → (t.cores c).main.outgoing = none →
      t.stackBusy = s.stackBusy → (t.cores c).main.marked = none → s.Marking c t := by
    intro t herr hout herr' hout' hbusy hmarked
    refine .keep ?_ hbusy fun q hq ↦ by rw [hmarked] at hq; cases hq
    unfold Core.clearings
    rw [herr, hout, hout', herr']
    rfl
  cases heff with
  | @errand errand rest more b herr hcores _ _ _ hbusy hmore hlast =>
    cases hclear : errand.clears with
    | none =>
      rw [hclear] at hbusy
      refine .keep ?_ hbusy fun q hq ↦ by rwa [goto_main] at hq
      unfold Core.clearings
      rw [goto_errands, goto_main, List.filterMap_append, clears_light hmore, herr,
        List.filterMap_cons, hclear]
      rfl
    | some i =>
      obtain rfl : errand = .clearStackBusy i := by
        cases errand with
        | clearStackBusy j => exact congrArg _ (Option.some.inj hclear)
        | _ => cases hclear
      refine .clear ?_ goto_main hbusy
      rw [goto_errands, hlast (by rw [hclear]; simp)]
      exact herr
  | light herr hold hnew _ _ _ _ _ _ _ hbusy herrands =>
    exact hkeep herr hold.outgoing (by rw [goto_errands]; exact clears_light herrands)
      (by rw [goto_main]; exact hnew.outgoing) hbusy (by rw [goto_main]; exact hnew.marked)
  | trap herr hmain hnew =>
    exact hkeep herr (by rw [hmain]; rfl) (by rw [setCore_self]; rfl)
      (by rw [setCore_self]; exact hnew.outgoing) rfl (by rw [setCore_self]; exact hnew.marked)
  | leave herr hmain =>
    exact hkeep herr (by rw [hmain]; rfl) (by rw [setCore_self]; rfl) (by rw [setCore_self]; rfl) rfl
      (by rw [setCore_self]; rfl)
  | bootDone herr hmain =>
    exact hkeep herr (by rw [hmain]; rfl) (by rw [setCore_self]; rfl)
      (by rw [setCore_self]; rfl) rfl (by rw [setCore_self]; rfl)
  | reserve herr _ _ hold hnew =>
    exact hkeep herr hold.outgoing (by rw [goto_errands]; rfl) (by rw [goto_main]; exact hnew.outgoing)
      rfl (by rw [goto_main]; exact hnew.marked)
  | load herr hmain =>
    exact hkeep herr (by rw [hmain]; rfl) (by rw [goto_errands]; rfl) (by rw [goto_main]; rfl) rfl
      (by rw [goto_main]; rfl)
  | spawn herr hmain _ _ _ _ _ _ hbusy | bootSpawn herr hmain _ _ _ _ _ _ _ _ hbusy =>
    exact hkeep herr (by rw [hmain]; rfl) (by rw [goto_errands]; rfl) (by rw [goto_main]; rfl) hbusy
      (by rw [goto_main]; rfl)
  | spawnFail herr hmain =>
    exact hkeep herr (by rw [hmain]; rfl) (by rw [goto_errands]; rfl)
      (by rw [goto_main]; rfl) rfl (by rw [goto_main]; rfl)
  | mark herr hmain hslot =>
    refine .mark ?_ hslot rfl (by rw [goto_main]; rfl)
    unfold Core.clearings
    rw [goto_errands, goto_main, herr, hmain]
    rfl
  | @exit p P status errands b herr hmain hc hP _ htable _ hbusy herrands =>
    obtain ⟨i, hslot, hset⟩ := hmarks p (by rw [hmain]; rfl)
    have hissued : b.sched.issued = s.sched.issued := by
      rw [← Inner.table_issued, htable, Table.finalize_issued, Inner.table_issued]
    have hdead : ¬ b.sched.table.Live p := by
      rw [htable]
      exact Table.finalize_dead hsound hP
    have hunreserved : b.sched.view p ≠ .reserved := by
      rw [← Inner.table_view, htable]
      intro hr
      rw [Table.finalize_reserved hsound hP] at hr
      rw [Inner.table_view, hP] at hr
      cases hr
    have hleft : b.sched.Left i :=
      Inner.left_of_dead (s := s.sched) hslot (by rw [hP]; simp) hissued hdead hunreserved
    refine .leave hc hP hslot ?_ ?_ ?_ hleft (by rw [goto_main]; rfl)
    · unfold Core.clearings
      rw [herr, hmain]
      rfl
    · unfold Core.clearings
      rw [goto_errands, goto_main, clears_light herrands, hslot]
      rfl
    · rw [show (b.goto c (.switchNext p.slot (s.sched.orphanBoxes p ++ [P])) errands).stackBusy =
        s.stackBusy from hbusy, ← hset, update_eq_self]
  | kill herr hmain _ _ _ _ _ _ hbusy =>
    exact hkeep herr (by rw [hmain]; rfl)
      (by rw [goto_errands, List.filterMap_cons, clears_dropBox]; rfl) (by rw [goto_main]; rfl) hbusy
      (by rw [goto_main]; rfl)
  | @dispatch p P b sched rest outgoing mid herr hrelease hqueue hP _ htable _ hmid =>
    refine hrelease.marking hsound herr (htable ▸ hrelease.dispatch_steady hqueue hP) ?_ rfl
      (by simp [State.dispatch, Main.marked])
    unfold State.dispatch Core.clearings
    rw [setCore_self]
    simp only [List.filterMap_append, clears_dropBox, clears_light hmid, clears_outgoing]
    simp [Main.outgoing]
  | @abandon b sched outgoing mid herr hrelease htable hmid =>
    refine hrelease.marking hsound herr (htable ▸ .refl _) ?_ rfl
      (by simp [State.abandon, Main.marked])
    unfold State.abandon Core.clearings
    rw [setCore_self]
    simp only [List.filterMap_append, clears_dropBox, clears_light hmid, clears_outgoing]
    simp [Main.outgoing]

/-- The busy marks of kernel stacks: each is cleared once, is still set until then, and only for an
occupant that has left its core. -/
structure Marks (s : State E) : Prop where
  single : ∀ i, s.clears i ≤ 1
  busy : ∀ i, 0 < s.clears i → s.stackBusy i = true
  left : ∀ i, 0 < s.clears i → s.sched.Left i
  marked : ∀ c q, (s.cores c).main.marked = some q → ∃ i, q.slot = some i ∧ s.stackBusy i = true

end

namespace Marks

theorem init (config : BootConfig E) : (State.init config).Marks := by
  have hcore : ∀ c, ((State.init config).cores c).clearings = [] ∧
      ((State.init config).cores c).main.marked = none := by
    intro c
    simp only [State.init]
    split_ifs <;> exact ⟨rfl, rfl⟩
  have hclears : ∀ i, (State.init config).clears i = 0 := fun i ↦
    Finset.sum_eq_zero fun c _ ↦ by rw [(hcore c).1]; rfl
  refine ⟨fun i ↦ by rw [hclears]; omega, fun i hi ↦ ?_, fun i hi ↦ ?_, fun c q hq ↦ ?_⟩
  · rw [hclears] at hi
    omega
  · rw [hclears] at hi
    omega
  · rw [(hcore c).2] at hq
    cases hq

theorem not_pending (h : s.Marks) (hsound : s.sched.table.Sound) (hc : s.sched.current c = some p)
    (hslot : p.slot = some i) : s.clears i = 0 := by
  by_contra hne
  obtain ⟨P, hP, -⟩ := hsound.running c p hc
  exact (h.left i (Nat.pos_of_ne_zero hne)).not_current hslot hP hc

variable [DecidableEq E] [Fintype E]

theorem effect (h : s.Marks) (hinv : s.Inv False) (heff : s.Effect c s') : s'.Marks := by
  have hsound : s.sched.table.Sound := hinv.scene.sound
  have hleft : ∀ i, 0 < s.clears i → s'.sched.Left i := fun i hi ↦
    heff.left hsound (h.left i hi) (h.busy i hi)
  have hmarked : ∀ d q, d ≠ c → (s'.cores d).main.marked = some q →
      (s.cores d).main.marked = some q := fun d q hd hq ↦ by rwa [heff.others d hd] at hq
  cases heff.marking hinv (h.marked c) with
  | keep hclears hbusy hsame =>
    have hcount : ∀ i, s'.clears i = s.clears i := by
      intro i
      have hi := heff.clears_eq i
      rw [hclears] at hi
      omega
    refine ⟨fun i ↦ by rw [hcount]; exact h.single i, fun i hi ↦ ?_, fun i hi ↦ ?_, fun d q hq ↦ ?_⟩
    · rw [hbusy]
      exact h.busy i (by rwa [hcount] at hi)
    · exact hleft i (by rwa [hcount] at hi)
    · rw [hbusy]
      by_cases hd : d = c
      · subst hd
        exact h.marked d q (hsame q hq)
      · exact h.marked d q (hmarked d q hd hq)
  | @clear i herr hsame hbusy =>
    have hclears := clearings_cons herr hsame
    have hcount : ∀ j, s'.clears j + (if i = j then 1 else 0) = s.clears j := by
      intro j
      have hj := heff.clears_eq j
      rw [hclears, List.count_cons] at hj
      simp only [beq_iff_eq] at hj
      omega
    have hi : s'.clears i = 0 := by
      have := hcount i
      have := h.single i
      simp only [if_true] at *
      omega
    have hpos : ∀ j, 0 < s'.clears j → j ≠ i ∧ 0 < s.clears j := by
      intro j hj
      have := hcount j
      refine ⟨?_, by omega⟩
      rintro rfl
      omega
    refine ⟨fun j ↦ ?_, fun j hj ↦ ?_, fun j hj ↦ hleft j (hpos j hj).2, fun d q hq ↦ ?_⟩
    · have := hcount j
      have := h.single j
      omega
    · rw [hbusy, update_of_ne (hpos j hj).1]
      exact h.busy j (hpos j hj).2
    · have hq' : (s.cores d).main.marked = some q := by
        by_cases hd : d = c
        · subst hd
          rwa [hsame] at hq
        · exact hmarked d q hd hq
      obtain ⟨j, hslot, hj⟩ := h.marked d q hq'
      refine ⟨j, hslot, ?_⟩
      have hji : j ≠ i := by
        rintro rfl
        have hc := hinv.current_of_caller (c := d) rfl (marked_caller hq')
        have hzero := h.not_pending hsound hc hslot
        have := hcount j
        simp only [if_true] at this
        omega
      rw [hbusy, update_of_ne hji]
      exact hj
  | @mark p i hclears hslot hbusy hnew =>
    have hcount : ∀ i, s'.clears i = s.clears i := by
      intro i
      have hi := heff.clears_eq i
      rw [hclears] at hi
      omega
    have hset : ∀ j, s.stackBusy j = true → s'.stackBusy j = true := by
      intro j hj
      rw [hbusy]
      by_cases hji : j = i
      · rw [hji, update_self]
      · rwa [update_of_ne hji]
    refine ⟨fun i ↦ by rw [hcount]; exact h.single i, fun j hj ↦ ?_, fun j hj ↦ ?_, fun d q hq ↦ ?_⟩
    · exact hset j (h.busy j (by rwa [hcount] at hj))
    · exact hleft j (by rwa [hcount] at hj)
    · by_cases hd : d = c
      · subst hd
        rw [hnew] at hq
        cases hq
        exact ⟨i, hslot, by rw [hbusy, update_self]⟩
      · obtain ⟨j, hj, hjb⟩ := h.marked d q (hmarked d q hd hq)
        exact ⟨j, hj, hset j hjb⟩
  | @leave p P i hc hP hslot hold hnew hbusy hleft' hnone =>
    have hzero := h.not_pending hsound hc hslot
    have hcount : ∀ j, s'.clears j = s.clears j + if i = j then 1 else 0 := by
      intro j
      have hj := heff.clears_eq j
      rw [hold, hnew, List.count_nil, List.count_singleton] at hj
      simp only [beq_iff_eq] at hj
      omega
    have hset : ∀ j, s.stackBusy j = true → s'.stackBusy j = true := by
      intro j hj
      rw [hbusy]
      by_cases hji : j = i
      · rw [hji, update_self]
      · rwa [update_of_ne hji]
    refine ⟨fun j ↦ ?_, fun j hj ↦ ?_, fun j hj ↦ ?_, fun d q hq ↦ ?_⟩
    · rw [hcount]
      split
      · rename_i hij
        rw [← hij, hzero]
      · exact h.single j
    · by_cases hij : i = j
      · rw [← hij, hbusy, update_self]
      · rw [hcount, if_neg hij] at hj
        exact hset j (h.busy j hj)
    · by_cases hij : i = j
      · rw [← hij]
        exact hleft'
      · rw [hcount, if_neg hij] at hj
        exact hleft j hj
    · by_cases hd : d = c
      · subst hd
        rw [hnone] at hq
        cases hq
      · obtain ⟨j, hj, hjb⟩ := h.marked d q (hmarked d q hd hq)
        exact ⟨j, hj, hset j hjb⟩

end Marks

end State

end Tarnos.Kernel
