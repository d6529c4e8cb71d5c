import Tarnos.Task.Sound

namespace Tarnos.Task.Table

open Abi Arch Function

variable {E : Type} {t : Table E} {p q r : Pid} {P Q : Process E} {c : CoreId}

/-- A slot without a process is written: it becomes empty, reserved, or holds a new suspended
process whose parent is alive. -/
theorem Sound.relabel {t' : Table E} (ht : t.Sound) (slot : Slot E)
    (hview : ∀ q, t'.view q = if q = r then slot else t.view q) (hqueue : t'.queue = t.queue)
    (hcurrent : t'.current = t.current) (hissued : ∀ q, t.issued q → t'.issued q)
    (hold : ¬ t.Live r) (hknown : ∀ q, t.Known q → t'.Known q) (hplaced : slot ≠ .empty → t'.issued r)
    (hzombie : ∀ q status, slot ≠ .zombie q status)
    (hnew : ∀ P, slot = .occupied P → ¬ t.Known r ∧ P.pid = r ∧ P.state = .suspended ∧
      P.waitWaiter = none ∧
      ∀ q, P.parent = some q → ∃ Q, t.view q = .occupied Q ∧ Q.state ≠ .suspended) : t'.Sound := by
  have hself : t'.view r = slot := by rw [hview, if_pos rfl]
  have hneg : ∀ q, q ≠ r → t'.view q = t.view q := fun q hq ↦ by rw [hview, if_neg hq]
  have hforth : ∀ q Q, t.view q = .occupied Q → t'.view q = .occupied Q := by
    intro q Q hQ
    rw [hneg q (fun hqr ↦ hold ⟨Q, hqr ▸ hQ⟩), hQ]
  have hback : ∀ q Q, t'.view q = .occupied Q →
      (q = r ∧ slot = .occupied Q) ∨ t.view q = .occupied Q := by
    intro q Q hQ
    obtain rfl | hqr := eq_or_ne q r
    · exact .inl ⟨rfl, hself ▸ hQ⟩
    · exact .inr (hneg q hqr ▸ hQ)
  have hkept : ∀ q Q, t.Known q → t'.view q = .occupied Q → t.view q = .occupied Q := by
    intro q Q hk hQ
    rcases hback q Q hQ with ⟨rfl, hslot⟩ | hQ
    · exact absurd hk (hnew Q hslot).1
    · exact hQ
  constructor
  · intro q Q hQ
    rcases hback q Q hQ with ⟨rfl, hslot⟩ | hQ
    · exact (hnew Q hslot).2.1
    · exact ht.stored q Q hQ
  · intro q
    rw [hqueue, ht.queued q]
    constructor
    · rintro ⟨Q, hQ, hst⟩
      exact ⟨Q, hforth q Q hQ, hst⟩
    · rintro ⟨Q, hQ, hst⟩
      rcases hback q Q hQ with ⟨rfl, hslot⟩ | hQ
      · cases hst.symm.trans (hnew Q hslot).2.2.1
      · exact ⟨Q, hQ, hst⟩
  · rw [hqueue]
    exact ht.nodup
  · intro c q hc
    rw [hcurrent] at hc
    obtain ⟨Q, hQ, hst⟩ := ht.running c q hc
    exact ⟨Q, hforth q Q hQ, hst⟩
  · rw [hcurrent]
    exact ht.injective
  · intro q hq
    obtain rfl | hqr := eq_or_ne q r
    · exact hplaced (hself ▸ hq)
    · exact hissued q (ht.issued q (hneg q hqr ▸ hq))
  · intro q Q u hQ hpar
    rcases hback q Q hQ with ⟨rfl, hslot⟩ | hQ
    · obtain ⟨U, hU, hst⟩ := (hnew Q hslot).2.2.2.2 u hpar
      exact ⟨fun hur ↦ hold ⟨U, hur ▸ hU⟩, U, hforth u U hU, hst⟩
    · obtain ⟨hne, U, hU, hst⟩ := ht.parent q Q u hQ hpar
      exact ⟨hne, U, hforth u U hU, hst⟩
  · intro q u status hz
    have hqr : q ≠ r := by
      rintro rfl
      exact hzombie u status (hself ▸ hz)
    obtain ⟨hk, hnot⟩ := ht.zombie q u status (hneg q hqr ▸ hz)
    exact ⟨hknown u hk, fun U hU ↦ hnot U (hkept u U hk hU)⟩
  · intro q Q w hQ hw
    rcases hback q Q hQ with ⟨rfl, hslot⟩ | hQ
    · cases hw.symm.trans (hnew Q hslot).2.2.2.1
    · rcases ht.waiter q Q w hQ hw with ⟨hpar, W, hW, hst⟩ | ⟨hpar, hk, hdead⟩
      · exact .inl ⟨hpar, W, hforth w W hW, hst⟩
      · exact .inr ⟨hpar, hknown w hk, fun ⟨W, hW⟩ ↦ hdead ⟨W, hkept w W hk hW⟩⟩
  · intro q Q hQ hst
    rcases hback q Q hQ with ⟨rfl, hslot⟩ | hQ
    · cases hst.symm.trans (hnew Q hslot).2.2.1
    · exact ht.blocked q Q hQ hst

theorem Sound.reserve (ht : t.Sound) (hfresh : ¬ t.issued r) :
    ((t.set r .reserved).issue r).Sound := by
  have hempty : t.view r = .empty := by
    by_contra h
    exact hfresh (ht.issued r h)
  refine ht.relabel (r := r) .reserved (fun q ↦ by simp) rfl rfl (fun q hq ↦ .inr hq) ?_ ?_
    (fun _ ↦ .inl rfl) (by simp) (by simp)
  · rintro ⟨P, hP⟩
    rw [hempty] at hP
    cases hP
  · rintro q ⟨hiss, hres⟩
    refine ⟨.inr hiss, ?_⟩
    have hqr : q ≠ r := by
      rintro rfl
      exact hfresh hiss
    rwa [issue_view, set_of_ne hqr]

theorem Sound.vacate (ht : t.Sound) (hold : ¬ t.Live r) : (t.set r .empty).Sound := by
  refine ht.relabel (r := r) .empty (fun q ↦ by simp) rfl rfl (fun _ hq ↦ hq) hold ?_ (absurd rfl)
    (by simp) (by simp)
  rintro q ⟨hiss, hres⟩
  refine ⟨hiss, ?_⟩
  rw [set_view]
  split
  · simp
  · exact hres

theorem Sound.create (ht : t.Sound) (hr : t.view r = .reserved) (hpid : P.pid = r)
    (hstate : P.state = .suspended) (hwaiter : P.waitWaiter = none)
    (hparent : ∀ q, P.parent = some q → ∃ Q, t.view q = .occupied Q ∧ Q.state ≠ .suspended) :
    (t.set r (.occupied P)).Sound := by
  have hiss : t.issued r := ht.issued r (by rw [hr]; simp)
  refine ht.relabel (r := r) (.occupied P) (fun q ↦ by simp) rfl rfl (fun _ hq ↦ hq) ?_ ?_
    (fun _ ↦ hiss) (by simp) fun P' hP' ↦ ?_
  · rintro ⟨R, hR⟩
    rw [hr] at hR
    cases hR
  · rintro q ⟨hq, hres⟩
    have hqr : q ≠ r := by
      rintro rfl
      exact hres hr
    exact ⟨hq, by rwa [set_of_ne hqr]⟩
  · cases hP'
    exact ⟨fun hk ↦ hk.2 hr, hpid, hstate, hwaiter, hparent⟩

theorem Sound.createReady (ht : t.Sound) (hr : t.view r = .reserved) (hpid : P.pid = r)
    (hstate : P.state = .ready) (hwaiter : P.waitWaiter = none) (hparent : P.parent = none) :
    ((t.set r (.occupied P)).enqueue r).Sound := by
  have hcreated := ht.create (P := { P with state := .suspended }) hr hpid rfl hwaiter
    (fun q hq ↦ by rw [hparent] at hq; cases hq)
  have hview : (t.set r (.occupied { P with state := .suspended })).view r =
      .occupied { P with state := .suspended } := by rw [set_view, if_pos rfl]
  have hready := hcreated.makeReady hview (rfl : P.pid = P.pid) rfl rfl hstate (by simp)
    (hcreated.not_current hview (by simp)) (hcreated.not_waits hview (by simp))
  have hset : (t.set r (.occupied { P with state := .suspended })).set r (.occupied P) =
      t.set r (.occupied P) := by
    simp [set]
  rwa [hset] at hready

section Finalize

variable {status : ExitStatus}

def wokenSlot (P : Process E) (status : ExitStatus) (q : Pid) (slot : Slot E) : Slot E :=
  match slot with
  | .occupied W =>
    if P.waitWaiter = some q then .occupied (applyWakeResult W (.waitCompleted status))
    else .occupied W
  | slot => slot

theorem finalize_current (c : CoreId) :
    (t.finalize p P status).current c = if t.current c = some p then none else t.current c := by
  unfold finalize
  cases P.waitWaiter with
  | none => rfl
  | some w =>
    simp only [reap, wake]
    split
    · split <;> rfl
    · rfl

theorem finalize_issued : (t.finalize p P status).issued = t.issued := by
  unfold finalize
  cases P.waitWaiter with
  | none => rfl
  | some w =>
    simp only [reap, wake]
    split
    · split <;> rfl
    · rfl

variable (ht : t.Sound) (hP : t.view p = .occupied P)

include ht hP

theorem Sound.waiter_ne_self (w : Pid) (hw : P.waitWaiter = some w) : w ≠ p := by
  rintro rfl
  rcases ht.waiter w P w hP hw with ⟨hpar, -⟩ | ⟨-, -, hdead⟩
  · exact (ht.parent w P w hP hpar).1 rfl
  · exact hdead ⟨P, hP⟩

theorem Sound.waiter_blocked {w : Pid} {W : Process E} (hw : P.waitWaiter = some w)
    (hW : t.view w = .occupied W) : W.state = .blocked := by
  rcases ht.waiter p P w hP hw with ⟨-, W', hW', hst⟩ | ⟨-, -, hdead⟩
  · rw [hW] at hW'
    cases hW'
    exact hst
  · exact absurd ⟨W, hW⟩ hdead

theorem finalize_view (q : Pid) :
    (t.finalize p P status).view q =
      reapedSlot p (if q = p then remains P status else wokenSlot P status q (t.view q)) := by
  unfold finalize
  cases hwait : P.waitWaiter with
  | none =>
    simp only [reap, remove_view]
    congr 1
    split
    · rfl
    · cases t.view q <;> simp [wokenSlot, hwait]
  | some w =>
    have hwp := ht.waiter_ne_self hP w hwait
    have hremains : remains P status = .empty := by simp [remains, hwait]
    simp only [reap]
    congr 1
    unfold wake
    rw [remove_view, if_neg hwp, hremains]
    cases hW : t.view w with
    | occupied W =>
      have hst := ht.waiter_blocked hP hwait hW
      simp only [hst, if_true, enqueue_view, set_view, remove_view]
      by_cases hqp : q = p
      · subst hqp
        simp [hwp.symm]
      · by_cases hqw : q = w
        · subst hqw
          simp [hqp, wokenSlot, hW, hwait]
        · have hne : ¬ w = q := fun h ↦ hqw h.symm
          simp only [hqp, hqw, if_false]
          cases t.view q <;> simp [wokenSlot, hwait, hne]
    | _ =>
      rw [remove_view]
      split
      · rfl
      · rename_i hqp
        cases hQ : t.view q with
        | occupied Q =>
          have hne : ¬ w = q := by
            rintro rfl
            rw [hW] at hQ
            cases hQ
          simp [wokenSlot, hwait, hne]
        | _ => rfl

theorem finalize_queue :
    (t.finalize p P status).queue.Nodup ∧ ∀ q, q ∈ (t.finalize p P status).queue ↔
      (q ∈ t.queue ∧ q ≠ p) ∨ (P.waitWaiter = some q ∧ t.Live q) := by
  have hfilter : ∀ q, (q ∈ t.queue.filter fun r ↦ r ≠ p) ↔ q ∈ t.queue ∧ q ≠ p := by
    intro q
    simp [List.mem_filter]
  have hnodup : (t.queue.filter fun r ↦ r ≠ p).Nodup := ht.nodup.filter _
  unfold finalize
  cases hwait : P.waitWaiter with
  | none =>
    refine ⟨hnodup, fun q ↦ ?_⟩
    simp only [reap, remove_queue]
    rw [hfilter q]
    simp
  | some w =>
    have hwp := ht.waiter_ne_self hP w hwait
    simp only [reap]
    unfold wake
    rw [remove_view, if_neg hwp]
    cases hW : t.view w with
    | occupied W =>
      have hst := ht.waiter_blocked hP hwait hW
      have hnot : w ∉ t.queue := ht.not_queued hW (by rw [hst]; simp)
      simp only [hst, if_true, enqueue_queue, set_queue, remove_queue]
      constructor
      · refine List.nodup_append.mpr ⟨hnodup, List.nodup_singleton w, fun a ha b hb ↦ ?_⟩
        rw [List.mem_singleton] at hb
        rintro rfl
        exact hnot (hb ▸ ((hfilter a).mp ha).1)
      · intro q
        rw [List.mem_append, hfilter q, List.mem_singleton]
        refine or_congr Iff.rfl ⟨?_, ?_⟩
        · rintro rfl
          exact ⟨rfl, W, hW⟩
        · rintro ⟨hq, -⟩
          exact (Option.some.inj hq).symm
    | _ =>
      refine ⟨hnodup, fun q ↦ ?_⟩
      simp only [remove_queue]
      rw [hfilter q]
      constructor
      · exact .inl
      · rintro (h | ⟨hq, Q, hQ⟩)
        · exact h
        · cases hq
          rw [hW] at hQ
          cases hQ

/-- What the termination of `p` leaves of a process `C` at `q`: only the waiting parent, now ready,
and the parent links to the dead process differ. -/
structure Outlives (p : Pid) (P : Process E) (q : Pid) (C C' : Process E) : Prop where
  pid : C'.pid = C.pid
  addressSpace : C'.addressSpace = C.addressSpace
  waitWaiter : C'.waitWaiter = C.waitWaiter
  pendingWake : C'.pendingWake = C.pendingWake
  spared : ¬ (C.parent = some p ∧ C.state = .suspended)
  parent : (C.parent = some p ∧ C'.parent = none) ∨ (C.parent ≠ some p ∧ C'.parent = C.parent)
  state : (P.waitWaiter ≠ some q ∧ C'.state = C.state) ∨
    (P.waitWaiter = some q ∧ C.state = .blocked ∧ C'.state = .ready)

omit ht hP in
theorem Outlives.state_eq {C C' : Process E} (h : Outlives p P q C C') (hC : C.state ≠ .blocked) :
    C'.state = C.state := by
  rcases h.state with ⟨-, hst⟩ | ⟨-, hst, -⟩
  · exact hst
  · exact absurd hst hC

omit ht hP in
theorem Outlives.suspended {C C' : Process E} (h : Outlives p P q C C')
    (hC : C.state ≠ .suspended) : C'.state ≠ .suspended := by
  rcases h.state with ⟨-, hst⟩ | ⟨-, -, hst⟩
  · rwa [hst]
  · simp [hst]

theorem finalize_occupied {C' : Process E}
    (h : (t.finalize p P status).view q = .occupied C') :
    q ≠ p ∧ ∃ C, t.view q = .occupied C ∧ Outlives p P q C C' := by
  rw [finalize_view ht hP] at h
  obtain ⟨W, hslot, hnot, hcase⟩ := reapedSlot_occupied h
  have hqp : q ≠ p := by
    rintro rfl
    rw [if_pos rfl, remains] at hslot
    split at hslot <;> cases hslot
  rw [if_neg hqp] at hslot
  refine ⟨hqp, ?_⟩
  cases hQ : t.view q with
  | occupied C =>
    refine ⟨C, rfl, ?_⟩
    rw [hQ] at hslot
    simp only [wokenSlot] at hslot
    by_cases hw : P.waitWaiter = some q
    · have hblocked := ht.waiter_blocked hP hw hQ
      rw [if_pos hw] at hslot
      cases hslot
      rcases hcase with rfl | ⟨rfl, hpar, hsus⟩
      · exact ⟨rfl, rfl, rfl, rfl, fun h ↦ by simp [hblocked] at h, .inr ⟨hnot, rfl⟩,
          .inr ⟨hw, hblocked, rfl⟩⟩
      · exact ⟨rfl, rfl, rfl, rfl, fun h ↦ by simp [hblocked] at h, .inl ⟨hpar, rfl⟩,
          .inr ⟨hw, hblocked, rfl⟩⟩
    · rw [if_neg hw] at hslot
      cases hslot
      rcases hcase with rfl | ⟨rfl, hpar, hsus⟩
      · exact ⟨rfl, rfl, rfl, rfl, fun h ↦ hnot h.1, .inr ⟨hnot, rfl⟩, .inl ⟨hw, rfl⟩⟩
      · exact ⟨rfl, rfl, rfl, rfl, fun h ↦ hsus h.2, .inl ⟨hpar, rfl⟩, .inl ⟨hw, rfl⟩⟩
  | _ =>
    rw [hQ] at hslot
    cases hslot

theorem finalize_survives {C : Process E} (hqp : q ≠ p) (hC : t.view q = .occupied C)
    (hnot : ¬ (C.parent = some p ∧ C.state = .suspended)) :
    ∃ C', (t.finalize p P status).view q = .occupied C' ∧ Outlives p P q C C' := by
  obtain ⟨C', hC'⟩ : ∃ C', (t.finalize p P status).view q = .occupied C' := by
    rw [finalize_view ht hP, if_neg hqp, hC]
    simp only [wokenSlot]
    by_cases hw : P.waitWaiter = some q
    · rw [if_pos hw]
      by_cases hpar : C.parent = some p <;> simp [reapedSlot, hpar]
    · rw [if_neg hw]
      by_cases hpar : C.parent = some p
      · have hsus : C.state ≠ .suspended := fun h ↦ hnot ⟨hpar, h⟩
        simp [reapedSlot, hpar, hsus]
      · simp [reapedSlot, hpar]
  obtain ⟨-, C₀, hC₀, hout⟩ := finalize_occupied ht hP hC'
  cases hC.symm.trans hC₀
  exact ⟨C', hC', hout⟩

theorem finalize_zombie {u : Pid} {st : ExitStatus}
    (h : (t.finalize p P status).view q = .zombie u st) :
    (q ≠ p ∧ t.view q = .zombie u st ∧ u ≠ p) ∨
    (q = p ∧ P.waitWaiter = none ∧ P.parent = some u ∧ u ≠ p) ∨
    (q ≠ p ∧ u = p ∧ ∃ C, t.view q = .occupied C ∧ C.parent = some p ∧ C.state = .suspended ∧
      C.waitWaiter = none) := by
  rw [finalize_view ht hP] at h
  by_cases hqp : q = p
  · rw [if_pos hqp] at h
    rcases reapedSlot_zombie h with ⟨hslot, hu⟩ | ⟨-, C, hslot, -⟩
    · unfold remains at hslot
      split at hslot
      · rename_i hwait hpar
        cases hslot
        exact .inr (.inl ⟨hqp, hwait, hpar, hu⟩)
      · cases hslot
    · unfold remains at hslot
      split at hslot <;> cases hslot
  · rw [if_neg hqp] at h
    rcases reapedSlot_zombie h with ⟨hslot, hu⟩ | ⟨hu, C, hslot, hpar, hsus, hwait⟩
    · refine .inl ⟨hqp, ?_, hu⟩
      cases hQ : t.view q with
      | occupied C =>
        rw [hQ] at hslot
        simp only [wokenSlot] at hslot
        split at hslot <;> cases hslot
      | _ =>
        rw [hQ] at hslot
        exact hslot
    · refine .inr (.inr ⟨hqp, hu, ?_⟩)
      cases hQ : t.view q with
      | occupied W =>
        rw [hQ] at hslot
        simp only [wokenSlot] at hslot
        by_cases hw : P.waitWaiter = some q
        · rw [if_pos hw] at hslot
          cases hslot
          cases hsus
        · rw [if_neg hw] at hslot
          cases hslot
          exact ⟨C, rfl, hpar, hsus, hwait⟩
      | _ =>
        rw [hQ] at hslot
        cases hslot

theorem finalize_reserved : (t.finalize p P status).view q = .reserved ↔ t.view q = .reserved := by
  rw [finalize_view ht hP, reapedSlot_reserved]
  by_cases hqp : q = p
  · rw [if_pos hqp, hqp, hP, remains]
    split <;> simp
  · rw [if_neg hqp]
    cases t.view q with
    | occupied C =>
      simp only [wokenSlot]
      split <;> simp
    | _ => rfl

theorem finalize_dead : ¬ (t.finalize p P status).Live p := by
  rintro ⟨C, hC⟩
  exact (finalize_occupied ht hP hC).1 rfl

theorem finalize_live (h : (t.finalize p P status).Live q) : t.Live q := by
  obtain ⟨C', hC'⟩ := h
  obtain ⟨-, C, hC, -⟩ := finalize_occupied ht hP hC'
  exact ⟨C, hC⟩

theorem finalize_known : (t.finalize p P status).Known q ↔ t.Known q := by
  unfold Known
  rw [finalize_issued]
  exact and_congr Iff.rfl (not_congr (finalize_reserved ht hP))

theorem finalize_running (h : t.current c = some q) (hqp : q ≠ p) :
    ∃ C', (t.finalize p P status).view q = .occupied C' ∧ C'.state = .running := by
  obtain ⟨C, hC, hrun⟩ := ht.running c q h
  obtain ⟨C', hC', hout⟩ := finalize_survives ht hP hqp hC (by simp [hrun])
  exact ⟨C', hC', (hout.state_eq (by simp [hrun])).trans hrun⟩

theorem Sound.finalize
    (hunique : ∀ w q, P.waitWaiter = some w → t.Live w → t.Waits w q → q = p) :
    (t.finalize p P status).Sound := by
  obtain ⟨hnodup, hqueue⟩ := finalize_queue ht hP
  have hcurrent : ∀ c q, (t.finalize p P status).current c = some q →
      t.current c = some q ∧ q ≠ p := by
    intro c q hc
    rw [finalize_current] at hc
    split at hc
    · cases hc
    · rename_i hne
      exact ⟨hc, fun h ↦ hne (h ▸ hc)⟩
  -- nobody becomes suspended
  have hkeep : ∀ q C, t.view q = .occupied C → C.state ≠ .suspended → q ≠ p →
      ∃ C', (t.finalize p P status).view q = .occupied C' ∧ C'.state ≠ .suspended := by
    intro q C hC hsus hqp
    obtain ⟨C', hC', hout⟩ := finalize_survives ht hP hqp hC fun h ↦ hsus h.2
    exact ⟨C', hC', hout.suspended hsus⟩
  refine ⟨?_, ?_, hnodup, ?_, ?_, ?_, ?_, ?_, ?_, ?_⟩
  · intro q C' hC'
    obtain ⟨-, C, hC, hout⟩ := finalize_occupied ht hP hC'
    rw [hout.pid, ht.stored q C hC]
  · intro q
    rw [hqueue q]
    constructor
    · rintro (⟨hq, hqp⟩ | ⟨hw, W, hW⟩)
      · obtain ⟨C, hC, hready⟩ := (ht.queued q).mp hq
        obtain ⟨C', hC', hout⟩ := finalize_survives ht hP hqp hC (by simp [hready])
        exact ⟨C', hC', (hout.state_eq (by simp [hready])).trans hready⟩
      · have hblocked := ht.waiter_blocked hP hw hW
        obtain ⟨W', hW', hout⟩ := finalize_survives ht hP
          (ht.waiter_ne_self hP q hw) hW (by simp [hblocked])
        refine ⟨W', hW', ?_⟩
        rcases hout.state with ⟨hne, -⟩ | ⟨-, -, hst⟩
        · exact absurd hw hne
        · exact hst
    · rintro ⟨C', hC', hready⟩
      obtain ⟨hqp, C, hC, hout⟩ := finalize_occupied ht hP hC'
      rcases hout.state with ⟨-, hst⟩ | ⟨hw, -, -⟩
      · exact .inl ⟨(ht.queued q).mpr ⟨C, hC, hst ▸ hready⟩, hqp⟩
      · exact .inr ⟨hw, C, hC⟩
  · intro c q hc
    obtain ⟨hc₀, hqp⟩ := hcurrent c q hc
    exact finalize_running ht hP hc₀ hqp
  · intro c d q hc hd
    exact ht.injective c d q (hcurrent c q hc).1 (hcurrent d q hd).1
  · intro q hq
    rw [finalize_issued]
    refine ht.issued q fun hempty ↦ hq ?_
    rw [finalize_view ht hP, hempty, if_neg]
    · rfl
    · rintro rfl
      rw [hP] at hempty
      cases hempty
  · intro q C' u hC' hpar'
    obtain ⟨-, C, hC, hout⟩ := finalize_occupied ht hP hC'
    rcases hout.parent with ⟨-, hnone⟩ | ⟨hne, hsame⟩
    · rw [hnone] at hpar'
      cases hpar'
    · rw [hsame] at hpar'
      obtain ⟨huq, U, hU, hsus⟩ := ht.parent q C u hC hpar'
      exact ⟨huq, hkeep u U hU hsus fun h ↦ hne (h ▸ hpar')⟩
  · intro q u st hz
    have hsus : (∀ U, t.view u = .occupied U → U.state ≠ .suspended) → ∀ U',
        (t.finalize p P status).view u = .occupied U' → U'.state ≠ .suspended := by
      intro hst U' hU'
      obtain ⟨-, U, hU, hout⟩ := finalize_occupied ht hP hU'
      exact hout.suspended (hst U hU)
    rw [finalize_known ht hP]
    rcases finalize_zombie ht hP hz with ⟨-, hz₀, hup⟩ | ⟨-, -, hpar, -⟩ | ⟨-, hup, -⟩
    · obtain ⟨hk, hnot⟩ := ht.zombie q u st hz₀
      exact ⟨hk, hsus hnot⟩
    · obtain ⟨-, U, hU, hst⟩ := ht.parent p P u hP hpar
      refine ⟨Live.known ⟨U, hU⟩ ht, hsus fun U₀ hU₀ ↦ ?_⟩
      cases hU.symm.trans hU₀
      exact hst
    · subst hup
      exact ⟨Live.known ⟨P, hP⟩ ht, fun U hU ↦ absurd ⟨U, hU⟩ (finalize_dead ht hP)⟩
  · intro q C' w hC' hw'
    obtain ⟨hqp, C, hC, hout⟩ := finalize_occupied ht hP hC'
    rw [hout.waitWaiter] at hw'
    rcases ht.waiter q C w hC hw' with ⟨hcw, W, hW, hblocked⟩ | ⟨hnone, hk, hdead⟩
    · by_cases hwp : w = p
      · subst hwp
        refine .inr ⟨?_, (finalize_known ht hP).mpr (Live.known ⟨P, hP⟩ ht), finalize_dead ht hP⟩
        rcases hout.parent with ⟨-, h⟩ | ⟨h, -⟩
        · exact h
        · exact absurd hcw h
      · have hcp : C.parent ≠ some p := by
          rw [hcw]
          exact fun h ↦ hwp (Option.some.inj h)
        rcases hout.parent with ⟨h, -⟩ | ⟨-, h⟩
        · exact absurd h hcp
        obtain ⟨W', hW', houtW⟩ := finalize_survives ht hP hwp hW (by simp [hblocked])
        refine .inl ⟨h.trans hcw, W', hW', ?_⟩
        rcases houtW.state with ⟨-, hst⟩ | ⟨hpw, -, -⟩
        · exact hst.trans hblocked
        · exact absurd (hunique w q hpw ⟨W, hW⟩ ⟨C, hC, hw'⟩) hqp
    · refine .inr ⟨?_, (finalize_known ht hP).mpr hk, fun h ↦ hdead (finalize_live ht hP h)⟩
      rcases hout.parent with ⟨-, h⟩ | ⟨-, h⟩
      · exact h
      · exact h.trans hnone
  · intro q C' hC' hblocked
    obtain ⟨-, C, hC, hout⟩ := finalize_occupied ht hP hC'
    rw [hout.pendingWake]
    rcases hout.state with ⟨-, hst⟩ | ⟨-, -, hst⟩
    · exact ht.blocked q C hC (hst ▸ hblocked)
    · rw [hst] at hblocked
      cases hblocked

end Finalize

end Tarnos.Task.Table

namespace Tarnos.Task.Inner

variable {E : Type} {s : Inner E} {p : Pid} {P : Process E}

theorem length_le_of_views {l : List Pid} (hnodup : l.Nodup) (hview : ∀ q ∈ l, s.view q ≠ .empty) :
    l.length ≤ maxProcesses := by
  have hsub : l ⊆ (List.finRange maxProcesses).map s.pidAt := by
    intro q hq
    obtain ⟨i, -, hpid⟩ := slot_of_view (hview q hq)
    exact List.mem_map.mpr ⟨i, List.mem_finRange i, hpid.symm⟩
  have hle := (hnodup.subperm hsub).length_le
  rwa [List.length_map, List.length_finRange] at hle

theorem queue_length_lt (hs : s.table.Sound) (hview : s.view p ≠ .empty) (hp : p ∉ s.queue) :
    s.queue.length < maxProcesses := by
  have hnodup : (p :: s.queue).Nodup := List.nodup_cons.mpr ⟨hp, hs.nodup⟩
  have hle := length_le_of_views (s := s) hnodup <| by
    intro q hq
    rcases List.mem_cons.mp hq with rfl | hq
    · exact hview
    · obtain ⟨Q, hQ, -⟩ := (hs.queued q).mp hq
      rw [← table_view, hQ]
      simp
  rwa [List.length_cons] at hle

theorem queue_length_lt_of_occupied (hs : s.table.Sound) (hP : s.view p = .occupied P)
    (hstate : P.state ≠ .ready) : s.queue.length < maxProcesses :=
  queue_length_lt hs (by rw [hP]; simp) (hs.not_queued hP hstate)

theorem queue_room (hs : s.table.Sound) (hview : s.view p = .reserved) :
    s.queue.length < maxProcesses := by
  refine queue_length_lt hs (p := p) (by rw [hview]; simp) fun hq ↦ ?_
  obtain ⟨P, hP, -⟩ := (hs.queued p).mp hq
  cases hview.symm.trans hP

theorem finalizable (hs : s.table.Sound) (hP : s.view p = .occupied P) : s.Finalizable p P := by
  refine ⟨hP, fun hpar ↦ (hs.parent p P p hP hpar).1 rfl, fun w hw ↦ ?_, fun j C hC hpar hsus ↦ ?_⟩
  · refine ⟨hs.waiter_ne_self hP w hw, fun W hW ↦ ?_⟩
    have hblocked := hs.waiter_blocked hP hw hW
    exact ⟨hblocked, queue_length_lt_of_occupied hs hW (by rw [hblocked]; simp)⟩
  · have hview : s.view (s.pidAt j) = .occupied C := by rw [view_pidAt, hC]
    have hne : C.state ≠ .ready := by rw [hsus]; simp
    have hnrun : C.state ≠ .running := by rw [hsus]; simp
    refine ⟨hs.not_queued hview hne, hs.not_current hview hnrun, fun k ↦ ⟨?_, ?_⟩, fun w hw ↦ ?_⟩
    · intro K hK hKpar
      have hKview : s.view (s.pidAt k) = .occupied K := by rw [view_pidAt, hK]
      obtain ⟨-, C', hC', hst⟩ := hs.parent (s.pidAt k) K (s.pidAt j) hKview hKpar
      rw [table_view, hview] at hC'
      cases hC'
      exact hst hsus
    · intro st hK
      have hKview : s.view (s.pidAt k) = .zombie (s.pidAt j) st := by rw [view_pidAt, hK]
      exact (hs.zombie (s.pidAt k) (s.pidAt j) st hKview).2 C hview hsus
    · rcases hs.waiter (s.pidAt j) C w hview hw with ⟨hw', -⟩ | ⟨hnone, -⟩
      · rw [hpar] at hw'
        exact (Option.some.inj hw').symm
      · rw [hpar] at hnone
        cases hnone

end Tarnos.Task.Inner
