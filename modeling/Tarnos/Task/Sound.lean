import Tarnos.Task.Finalize

namespace Tarnos.Task.Table

open Abi Arch Function

variable {E : Type} {t : Table E} {p q : Pid} {P P' Q : Process E} {c d : CoreId}

/-- The pid of a process that exists or existed; a mere reservation does not count. -/
def Known (t : Table E) (p : Pid) : Prop := t.issued p ∧ t.view p ≠ .reserved

def Live (t : Table E) (p : Pid) : Prop := ∃ P, t.view p = .occupied P

def Waits (t : Table E) (p q : Pid) : Prop := ∃ Q, t.view q = .occupied Q ∧ Q.waitWaiter = some p

/-- The consistency of table, queue and cores, and of the family relations in the table. -/
structure Sound (t : Table E) : Prop where
  stored : ∀ p P, t.view p = .occupied P → P.pid = p
  queued : ∀ p, p ∈ t.queue ↔ ∃ P, t.view p = .occupied P ∧ P.state = .ready
  nodup : t.queue.Nodup
  running : ∀ c p, t.current c = some p → ∃ P, t.view p = .occupied P ∧ P.state = .running
  injective : ∀ c d p, t.current c = some p → t.current d = some p → c = d
  issued : ∀ p, t.view p ≠ .empty → t.issued p
  parent : ∀ p P q, t.view p = .occupied P → P.parent = some q →
    q ≠ p ∧ ∃ Q, t.view q = .occupied Q ∧ Q.state ≠ .suspended
  zombie : ∀ p q status, t.view p = .zombie q status →
    t.Known q ∧ ∀ Q, t.view q = .occupied Q → Q.state ≠ .suspended
  waiter : ∀ p P w, t.view p = .occupied P → P.waitWaiter = some w →
    (P.parent = some w ∧ ∃ W, t.view w = .occupied W ∧ W.state = .blocked) ∨
    (P.parent = none ∧ t.Known w ∧ ¬ t.Live w)
  blocked : ∀ p P, t.view p = .occupied P → P.state = .blocked → P.pendingWake = none

theorem Live.known (h : t.Live p) (ht : t.Sound) : t.Known p := by
  obtain ⟨P, hP⟩ := h
  have hne : t.view p ≠ .empty := by rw [hP]; simp
  exact ⟨ht.issued p hne, by rw [hP]; simp⟩

theorem Sound.not_queued (ht : t.Sound) (hP : t.view p = .occupied P) (hstate : P.state ≠ .ready) :
    p ∉ t.queue := by
  intro hmem
  obtain ⟨P', hP', hready⟩ := (ht.queued p).mp hmem
  rw [hP] at hP'
  cases hP'
  exact hstate hready

theorem Sound.not_current (ht : t.Sound) (hP : t.view p = .occupied P)
    (hstate : P.state ≠ .running) (c : CoreId) : t.current c ≠ some p := by
  intro hc
  obtain ⟨P', hP', hrun⟩ := ht.running c p hc
  rw [hP] at hP'
  cases hP'
  exact hstate hrun

def BlockedAt (t : Table E) (p : Pid) : Prop := ∃ P, t.view p = .occupied P ∧ P.state = .blocked

theorem set_of_ne {slot : Slot E} (h : q ≠ p) : (t.set p slot).view q = t.view q := by
  rw [set_view, if_neg h]

/-- `t'` has the processes, zombies and reservations of `t`; records may differ in everything
but pid and parent. -/
structure Revises (t t' : Table E) : Prop where
  issued : t'.issued = t.issued
  slot : ∀ q, t'.view q = t.view q ∨
    ∃ Q Q', t.view q = .occupied Q ∧ t'.view q = .occupied Q' ∧ Q'.pid = Q.pid ∧ Q'.parent = Q.parent

namespace Revises

variable {t' : Table E} (h : Revises t t')

include h

theorem back (hQ : t'.view q = .occupied Q) :
    ∃ Q₀, t.view q = .occupied Q₀ ∧ Q.pid = Q₀.pid ∧ Q.parent = Q₀.parent := by
  rcases h.slot q with heq | ⟨Q₀, Q', hQ₀, hQ', hpid, hpar⟩
  · exact ⟨Q, heq ▸ hQ, rfl, rfl⟩
  · rw [hQ'] at hQ
    cases hQ
    exact ⟨Q₀, hQ₀, hpid, hpar⟩

theorem live_iff : t'.Live q ↔ t.Live q := by
  rcases h.slot q with heq | ⟨Q₀, Q', hQ₀, hQ', -⟩
  · unfold Live
    rw [heq]
  · exact ⟨fun _ ↦ ⟨Q₀, hQ₀⟩, fun _ ↦ ⟨Q', hQ'⟩⟩

theorem other {slot : Slot E} (hslot : ∀ Q, slot ≠ .occupied Q) :
    t'.view q = slot ↔ t.view q = slot := by
  rcases h.slot q with heq | ⟨Q₀, Q', hQ₀, hQ', -⟩
  · rw [heq]
  · rw [hQ₀, hQ']
    exact ⟨fun hs ↦ absurd hs.symm (hslot Q'), fun hs ↦ absurd hs.symm (hslot Q₀)⟩

theorem known_iff : t'.Known q ↔ t.Known q := by
  unfold Known
  rw [h.issued]
  exact and_congr Iff.rfl (not_congr (h.other (by simp)))

end Revises

/-- A revision keeps the table sound if queue and cores agree with it, nobody becomes suspended
and whoever is waited for still has a blocked waiter. -/
theorem Sound.revise {t' : Table E} (ht : t.Sound) (h : Revises t t')
    (hqueued : ∀ q, q ∈ t'.queue ↔ ∃ Q, t'.view q = .occupied Q ∧ Q.state = .ready)
    (hnodup : t'.queue.Nodup)
    (hrunning : ∀ c q, t'.current c = some q → ∃ Q, t'.view q = .occupied Q ∧ Q.state = .running)
    (hinjective : ∀ c d q, t'.current c = some q → t'.current d = some q → c = d)
    (hsuspended : ∀ q Q, t'.view q = .occupied Q → Q.state = .suspended →
      ∃ Q₀, t.view q = .occupied Q₀ ∧ Q₀.state = .suspended)
    (hwaiter : ∀ q Q w, t'.view q = .occupied Q → Q.waitWaiter = some w →
      (t.Waits w q ∧ (t.BlockedAt w → t'.BlockedAt w)) ∨ (Q.parent = some w ∧ t'.BlockedAt w))
    (hblocked : ∀ q Q, t'.view q = .occupied Q → Q.state = .blocked → Q.pendingWake = none) :
    t'.Sound := by
  refine ⟨?_, hqueued, hnodup, hrunning, hinjective, ?_, ?_, ?_, ?_, hblocked⟩
  · intro q Q hQ
    obtain ⟨Q₀, hQ₀, hpid, -⟩ := h.back hQ
    rw [hpid, ht.stored q Q₀ hQ₀]
  · intro q hq
    rw [h.issued]
    exact ht.issued q fun hempty ↦ hq ((h.other (by simp)).mpr hempty)
  · intro q Q u hQ hpar
    obtain ⟨Q₀, hQ₀, -, hpar₀⟩ := h.back hQ
    obtain ⟨hne, U, hU, hst⟩ := ht.parent q Q₀ u hQ₀ (hpar₀ ▸ hpar)
    obtain ⟨U', hU'⟩ := h.live_iff.mpr ⟨U, hU⟩
    refine ⟨hne, U', hU', fun hsus ↦ hst ?_⟩
    obtain ⟨U₀, hU₀, hsus₀⟩ := hsuspended u U' hU' hsus
    rw [hU] at hU₀
    cases hU₀
    exact hsus₀
  · intro q u status hz
    obtain ⟨hk, hnot⟩ := ht.zombie q u status ((h.other (by simp)).mp hz)
    refine ⟨h.known_iff.mpr hk, fun U hU hsus ↦ ?_⟩
    obtain ⟨U₀, hU₀, hsus₀⟩ := hsuspended u U hU hsus
    exact hnot U₀ hU₀ hsus₀
  · intro q Q w hQ hw
    rcases hwaiter q Q w hQ hw with ⟨⟨Q₀, hQ₀, hw₀⟩, hkeep⟩ | hnew
    · obtain ⟨Q₁, hQ₁, -, hpar⟩ := h.back hQ
      rw [hQ₀] at hQ₁
      cases hQ₁
      rcases ht.waiter q Q₀ w hQ₀ hw₀ with ⟨hpar₀, hW⟩ | ⟨hpar₀, hk, hdead⟩
      · exact .inl ⟨hpar.trans hpar₀, hkeep hW⟩
      · exact .inr ⟨hpar.trans hpar₀, h.known_iff.mpr hk, fun hl ↦ hdead (h.live_iff.mp hl)⟩
    · exact .inl hnew

/-- `t'` is `t` with the record `P'` in the place of `P`; pid and parent are the same. -/
structure Replaces (t t' : Table E) (p : Pid) (P P' : Process E) : Prop where
  old : t.view p = .occupied P
  view : ∀ q, t'.view q = if q = p then .occupied P' else t.view q
  issued : t'.issued = t.issued
  pid : P'.pid = P.pid
  parent : P'.parent = P.parent

namespace Replaces

variable {t' : Table E} (h : t.Replaces t' p P P')

include h

theorem self : t'.view p = .occupied P' := by rw [h.view, if_pos rfl]

theorem of_ne (hq : q ≠ p) : t'.view q = t.view q := by rw [h.view, if_neg hq]

theorem occupied (hQ : t'.view q = .occupied Q) :
    (q = p ∧ Q = P') ∨ (q ≠ p ∧ t.view q = .occupied Q) := by
  obtain rfl | hqp := eq_or_ne q p
  · rw [h.self] at hQ
    cases hQ
    exact .inl ⟨rfl, rfl⟩
  · exact .inr ⟨hqp, h.of_ne hqp ▸ hQ⟩

theorem revises : Revises t t' := by
  refine ⟨h.issued, fun q ↦ ?_⟩
  obtain rfl | hqp := eq_or_ne q p
  · exact .inr ⟨P, P', h.old, h.self, h.pid, h.parent⟩
  · exact .inl (h.of_ne hqp)

theorem waits (hwaiter : P'.waitWaiter = P.waitWaiter) : t'.Waits = t.Waits := by
  funext w q
  unfold Waits
  obtain rfl | hqp := eq_or_ne q p
  · simp [h.self, h.old, hwaiter]
  · rw [h.of_ne hqp]

end Replaces

/-- Queue and cores have to agree with the new state, and a process that waits for somebody stays
blocked. -/
theorem Sound.replace {t' : Table E} (ht : t.Sound) (h : t.Replaces t' p P P')
    (hwaiter : ∀ w, P'.waitWaiter = some w →
      P.waitWaiter = some w ∨ (P.parent = some w ∧ t'.BlockedAt w))
    (hself : p ∈ t'.queue ↔ P'.state = .ready)
    (hothers : ∀ q, q ≠ p → (q ∈ t'.queue ↔ q ∈ t.queue)) (hnodup : t'.queue.Nodup)
    (hcurrent : ∀ c q, t'.current c = some q →
      (q = p ∧ P'.state = .running) ∨ (q ≠ p ∧ t.current c = some q))
    (hinjective : ∀ c d q, t'.current c = some q → t'.current d = some q → c = d)
    (hsuspended : P'.state = .suspended → P.state = .suspended)
    (hwaits : P'.state = .blocked ∨ ∀ q, ¬ t.Waits p q)
    (hblocked : P'.state = .blocked → P'.pendingWake = none) : t'.Sound := by
  have hkeep : ∀ w q, t.Waits w q → t.BlockedAt w → t'.BlockedAt w := by
    rintro w q hw ⟨W, hW, hst⟩
    obtain rfl | hwp := eq_or_ne w p
    · exact ⟨P', h.self, hwaits.resolve_right fun hnone ↦ hnone q hw⟩
    · exact ⟨W, by rw [h.of_ne hwp, hW], hst⟩
  refine ht.revise h.revises (fun q ↦ ?_) hnodup (fun c q hc ↦ ?_) hinjective
    (fun q Q hQ hsus ↦ ?_) (fun q Q w hQ hw ↦ ?_) (fun q Q hQ hst ↦ ?_)
  · obtain rfl | hqp := eq_or_ne q p
    · simp [hself, h.self]
    · rw [hothers q hqp, h.of_ne hqp]
      exact ht.queued q
  · rcases hcurrent c q hc with ⟨rfl, hrun⟩ | ⟨hqp, hold⟩
    · exact ⟨P', h.self, hrun⟩
    · rw [h.of_ne hqp]
      exact ht.running c q hold
  · rcases h.occupied hQ with ⟨rfl, rfl⟩ | ⟨-, hQ⟩
    · exact ⟨P, h.old, hsuspended hsus⟩
    · exact ⟨Q, hQ, hsus⟩
  · rcases h.occupied hQ with ⟨rfl, rfl⟩ | ⟨-, hQ⟩
    · rcases hwaiter w hw with hold | ⟨hpar, hnew⟩
      · exact .inl ⟨⟨P, h.old, hold⟩, hkeep w q ⟨P, h.old, hold⟩⟩
      · exact .inr ⟨h.parent.trans hpar, hnew⟩
    · exact .inl ⟨⟨Q, hQ, hw⟩, hkeep w q ⟨Q, hQ, hw⟩⟩
  · rcases h.occupied hQ with ⟨rfl, rfl⟩ | ⟨-, hQ⟩
    · exact hblocked hst
    · exact ht.blocked q Q hQ hst

section

variable (hP : t.view p = .occupied P) (hpid : P'.pid = P.pid) (hparent : P'.parent = P.parent)

include hP hpid hparent

theorem replaces_set : t.Replaces (t.set p (.occupied P')) p P P' :=
  ⟨hP, fun _ ↦ set_view .., rfl, hpid, hparent⟩

theorem replaces_enqueue : t.Replaces ((t.set p (.occupied P')).enqueue p) p P P' :=
  ⟨hP, fun _ ↦ set_view .., rfl, hpid, hparent⟩

theorem replaces_letGo {joined : List Pid} : t.Replaces (t.letGo c p P' joined) p P P' :=
  ⟨hP, fun _ ↦ letGo_view .., rfl, hpid, hparent⟩

end

theorem replaces_dispatch (hP : t.view p = .occupied P) :
    t.Replaces (t.dispatch c p P) p P { P with state := .running } :=
  ⟨hP, fun _ ↦ dispatch_view .., rfl, rfl, rfl⟩

section

variable (ht : t.Sound) (hP : t.view p = .occupied P)

include ht hP

theorem Sound.not_waits (hstate : P.state ≠ .blocked) (q : Pid) : ¬ t.Waits p q := by
  rintro ⟨Q, hQ, hw⟩
  rcases ht.waiter q Q p hQ hw with ⟨-, W, hW, hst⟩ | ⟨-, -, hdead⟩
  · rw [hP] at hW
    cases hW
    exact hstate hst
  · exact hdead ⟨P, hP⟩

theorem Sound.amend (hpid : P'.pid = P.pid)
    (hstate : P'.state = P.state) (hparent : P'.parent = P.parent)
    (hwaiter : ∀ w, P'.waitWaiter = some w →
      P.waitWaiter = some w ∨ (P.parent = some w ∧ (t.set p (.occupied P')).BlockedAt w))
    (hblocked : P.state = .blocked → P'.pendingWake = none) : (t.set p (.occupied P')).Sound := by
  refine ht.replace (replaces_set hP hpid hparent) hwaiter ?_ (fun _ _ ↦ Iff.rfl) ht.nodup
    (fun c q hc ↦ ?_) ht.injective (fun hsus ↦ hstate ▸ hsus) ?_
    fun hst ↦ hblocked (hstate ▸ hst)
  · rw [set_queue, ht.queued p, hP, hstate]
    simp
  · obtain rfl | hqp := eq_or_ne q p
    · obtain ⟨Q, hQ, hrun⟩ := ht.running c q hc
      cases hP.symm.trans hQ
      exact .inl ⟨rfl, hstate.trans hrun⟩
    · exact .inr ⟨hqp, hc⟩
  · exact or_iff_not_imp_left.mpr fun hst ↦ ht.not_waits hP (hstate ▸ hst)

theorem Sound.touch (hpid : P'.pid = P.pid) (hstate : P'.state = P.state)
    (hparent : P'.parent = P.parent) (hwaiter : P'.waitWaiter = P.waitWaiter)
    (hblocked : P.state = .blocked → P'.pendingWake = none) : (t.set p (.occupied P')).Sound :=
  ht.amend hP hpid hstate hparent (fun _ hw ↦ .inl (hwaiter ▸ hw)) hblocked

theorem Sound.makeReady (hpid : P'.pid = P.pid) (hparent : P'.parent = P.parent)
    (hwaiter : P'.waitWaiter = P.waitWaiter) (hready : P'.state = .ready) (hnot : P.state ≠ .ready)
    (hcur : ∀ c, t.current c ≠ some p) (hwaits : ∀ q, ¬ t.Waits p q) :
    ((t.set p (.occupied P')).enqueue p).Sound := by
  have hpq : p ∉ t.queue := ht.not_queued hP hnot
  refine ht.replace (replaces_enqueue hP hpid hparent) (fun _ hw ↦ .inl (hwaiter ▸ hw)) ?_
    (fun q hqp ↦ ?_) ?_ (fun c q hc ↦ .inr ⟨fun hqp ↦ hcur c (hqp ▸ hc), hc⟩) ht.injective ?_
    (.inr hwaits) ?_
  · simp [hready]
  · simp [hqp]
  · rw [enqueue_queue, set_queue]
    exact List.nodup_append.mpr ⟨ht.nodup, List.nodup_singleton p, fun a ha b hb ↦ by
      rw [List.mem_singleton] at hb
      rintro rfl
      exact hpq (hb ▸ ha)⟩
  · simp [hready]
  · simp [hready]

end

theorem Sound.release (ht : t.Sound) (c : CoreId) : (t.setCurrent c none).Sound := by
  have hcur : ∀ d q, (t.setCurrent c none).current d = some q → t.current d = some q := by
    intro d q hd
    rw [setCurrent_current] at hd
    split at hd
    · cases hd
    · exact hd
  refine ht.revise ⟨rfl, fun q ↦ .inl rfl⟩ ht.queued ht.nodup
    (fun d q hd ↦ ht.running d q (hcur d q hd))
    (fun d e q hd he ↦ ht.injective d e q (hcur d q hd) (hcur e q he))
    (fun q Q hQ hsus ↦ ⟨Q, hQ, hsus⟩) (fun q Q w hQ hw ↦ .inl ⟨⟨Q, hQ, hw⟩, id⟩) ht.blocked

section

variable (ht : t.Sound) (hP : t.view p = .occupied P) (hpid : P'.pid = P.pid)
  (hparent : P'.parent = P.parent) (hwaiter : P'.waitWaiter = P.waitWaiter)
  (hblocked : P'.state = .blocked) (hpending : P'.pendingWake = none) (hrun : P.state = .running)
  (hcur : ∀ c, t.current c ≠ some p)

include ht hP hpid hparent hwaiter hblocked hpending hrun hcur

theorem Sound.makeBlocked : (t.set p (.occupied P')).Sound := by
  have hpq : p ∉ t.queue := ht.not_queued hP (by rw [hrun]; simp)
  refine ht.replace (replaces_set hP hpid hparent) (fun _ hw ↦ .inl (hwaiter ▸ hw)) ?_
    (fun _ _ ↦ Iff.rfl) ht.nodup (fun c q hc ↦ .inr ⟨fun hqp ↦ hcur c (hqp ▸ hc), hc⟩) ht.injective
    ?_ (.inl hblocked) fun _ ↦ hpending
  · simp [hblocked, hpq]
  · simp [hblocked]

theorem Sound.makeWaiting (hQ : t.view q = .occupied Q) (hchild : Q.parent = some p) :
    ((t.set q (.occupied { Q with waitWaiter := some p })).set p (.occupied P')).Sound := by
  have hqp : q ≠ p := ((ht.parent q Q p hQ hchild).1).symm
  have hbase := ht.makeBlocked hP hpid hparent hwaiter hblocked hpending hrun hcur
  have hQ' : (t.set p (.occupied P')).view q = .occupied Q := by rw [set_of_ne hqp, hQ]
  have hcomm : (t.set q (.occupied { Q with waitWaiter := some p })).set p (.occupied P') =
      (t.set p (.occupied P')).set q (.occupied { Q with waitWaiter := some p }) := by
    simp only [set]
    rw [update_comm hqp]
  rw [hcomm]
  refine hbase.amend hQ' rfl rfl rfl (fun w hw ↦ ?_) (hbase.blocked q Q hQ')
  cases hw
  refine .inr ⟨hchild, P', ?_, hblocked⟩
  rw [set_of_ne hqp.symm, set_view, if_pos rfl]

end

theorem Sound.dispatch {rest : List Pid} (ht : t.Sound) (hqueue : t.queue = p :: rest)
    (hP : t.view p = .occupied P) : (t.dispatch c p P).Sound := by
  obtain ⟨P₀, hP₀, hready⟩ := (ht.queued p).mp (by rw [hqueue]; exact List.mem_cons_self)
  rw [hP] at hP₀
  cases hP₀
  have hnodup := ht.nodup
  rw [hqueue] at hnodup
  obtain ⟨hprest, hrest⟩ := List.nodup_cons.mp hnodup
  have hnot : P.state ≠ .running := by rw [hready]; simp
  have hcur : ∀ d, t.current d ≠ some p := ht.not_current hP hnot
  refine ht.replace (replaces_dispatch hP) (fun _ hw ↦ .inl hw) ?_
    (fun q hqp ↦ ?_) ?_ (fun d q hd ↦ ?_) (fun d e q hd he ↦ ?_) (fun hsus ↦ by cases hsus)
    (.inr (ht.not_waits hP (by rw [hready]; simp))) (fun hst ↦ by cases hst)
  · simp [hqueue, hprest]
  · simp [hqueue, hqp]
  · rw [dispatch_queue, hqueue]
    exact hrest
  · rw [dispatch_current] at hd
    split at hd
    · cases hd
      exact .inl ⟨rfl, rfl⟩
    · exact .inr ⟨fun hqp ↦ hcur d (hqp ▸ hd), hd⟩
  · rw [dispatch_current] at hd he
    split at hd
    · rename_i hdc
      cases hd
      split at he
      · rename_i hec
        rw [hdc, hec]
      · exact absurd he (hcur e)
    · split at he
      · cases he
        exact absurd hd (hcur d)
      · exact ht.injective d e q hd he

end Tarnos.Task.Table
