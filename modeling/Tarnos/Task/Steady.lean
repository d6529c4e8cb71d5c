import Tarnos.Task.Lifecycle

namespace Tarnos.Task

open Abi Arch Function

variable {E : Type}

def Slot.frame : Slot E → Option ℕ
  | .occupied P => some P.addressSpace
  | _ => none

namespace Table

variable {t t' t'' : Table E} {p q : Pid} {P P' : Process E} {c : CoreId}

/-- `t'` has the processes of `t` with their address spaces; no process became suspended, no new
zombie or reservation appeared, and a process that was taken off its core stays off. -/
structure Steady (t t' : Table E) : Prop where
  issued : t'.issued = t.issued
  frame : ∀ q, (t'.view q).frame = (t.view q).frame
  suspended : ∀ q Q', t'.view q = .occupied Q' → Q'.state = .suspended →
    ∃ Q, t.view q = .occupied Q ∧ Q.state = .suspended
  zombie : ∀ q u status, t'.view q = .zombie u status → t.view q = .zombie u status
  reserved : ∀ q, t'.view q = .reserved → t.view q = .reserved
  evicted : ∀ q Q, t.view q = .occupied Q → Q.state = .running → (∀ c, t.current c ≠ some q) →
    ∃ Q', t'.view q = .occupied Q' ∧ Q'.state = .running ∧ ∀ c, t'.current c ≠ some q

theorem frame_eq_some {a : ℕ} :
    (t.view q).frame = some a ↔ ∃ Q, t.view q = .occupied Q ∧ Q.addressSpace = a := by
  cases t.view q <;> simp [Slot.frame]

theorem live_iff_frame : t.Live q ↔ (t.view q).frame.isSome := by
  unfold Live
  cases t.view q <;> simp [Slot.frame]

theorem wake_current (t : Table E) (p : Pid) (result : WakeResult) :
    (t.wake p result).current = t.current := by
  unfold wake
  split
  · split <;> rfl
  · rfl

namespace Steady

theorem refl (t : Table E) : Steady t t :=
  ⟨rfl, fun _ ↦ rfl, fun _ Q' hQ' hs ↦ ⟨Q', hQ', hs⟩, fun _ _ _ h ↦ h, fun _ h ↦ h,
    fun _ Q hQ hrun hcur ↦ ⟨Q, hQ, hrun, hcur⟩⟩

theorem trans (h : Steady t t') (h' : Steady t' t'') : Steady t t'' := by
  refine ⟨h'.issued.trans h.issued, fun q ↦ (h'.frame q).trans (h.frame q), fun q Q'' hQ'' hs ↦ ?_,
    fun q u st hz ↦ h.zombie q u st (h'.zombie q u st hz),
    fun q hr ↦ h.reserved q (h'.reserved q hr), fun q Q hQ hrun hcur ↦ ?_⟩
  · obtain ⟨Q', hQ', hs'⟩ := h'.suspended q Q'' hQ'' hs
    exact h.suspended q Q' hQ' hs'
  · obtain ⟨Q', hQ', hrun', hcur'⟩ := h.evicted q Q hQ hrun hcur
    exact h'.evicted q Q' hQ' hrun' hcur'

theorem of_view (hissued : t'.issued = t.issued) (hview : t'.view = t.view)
    (hcurrent : ∀ c q, t'.current c = some q → t.current c = some q) : Steady t t' := by
  refine ⟨hissued, fun q ↦ by rw [hview], fun q Q' hQ' hs ↦ ⟨Q', by rw [← hview]; exact hQ', hs⟩,
    fun q u st hz ↦ by rw [← hview]; exact hz, fun q hr ↦ by rw [← hview]; exact hr,
    fun q Q hQ hrun hcur ↦ ?_⟩
  exact ⟨Q, by rw [hview]; exact hQ, hrun, fun c hc ↦ hcur c (hcurrent c q hc)⟩

theorem live_iff (h : Steady t t') : t'.Live q ↔ t.Live q := by
  rw [live_iff_frame, live_iff_frame, h.frame q]

theorem occupied (h : Steady t t') (hQ : t.view q = .occupied P) :
    ∃ P', t'.view q = .occupied P' ∧ P'.addressSpace = P.addressSpace := by
  have hframe := h.frame q
  rw [hQ] at hframe
  exact frame_eq_some.mp hframe

theorem set (hP : t.view p = .occupied P) (P' : Process E)
    (hspace : P'.addressSpace = P.addressSpace)
    (hsuspended : P'.state = .suspended → P.state = .suspended)
    (hrunning : P.state = .running → P'.state = .running ∨ ∃ c, t.current c = some p) :
    Steady t (t.set p (.occupied P')) := by
  refine ⟨rfl, fun q ↦ ?_, fun q Q' hQ' hs ↦ ?_, fun q u st hz ↦ ?_, fun q hr ↦ ?_,
    fun q Q hQ hrun hcur ↦ ?_⟩
  · rw [set_view]
    split
    · rename_i hqp
      rw [hqp, hP, Slot.frame, Slot.frame, hspace]
    · rfl
  · rw [set_view] at hQ'
    split at hQ'
    · rename_i hqp
      cases hQ'
      exact ⟨P, hqp ▸ hP, hsuspended hs⟩
    · exact ⟨Q', hQ', hs⟩
  · rw [set_view] at hz
    split at hz
    · cases hz
    · exact hz
  · rw [set_view] at hr
    split at hr
    · cases hr
    · exact hr
  · by_cases hqp : q = p
    · subst hqp
      rw [hP] at hQ
      cases hQ
      rcases hrunning hrun with hrun' | ⟨c, hc⟩
      · exact ⟨P', by rw [set_view, if_pos rfl], hrun', hcur⟩
      · exact absurd hc (hcur c)
    · exact ⟨Q, by rw [set_of_ne hqp, hQ], hrun, hcur⟩

theorem vacate (hdead : ¬ t.Live p) : Steady t (t.set p .empty) := by
  refine ⟨rfl, fun q ↦ ?_, fun q Q' hQ' hs ↦ ?_, fun q u st hz ↦ ?_, fun q hr ↦ ?_,
    fun q Q hQ hrun hcur ↦ ?_⟩
  · rw [set_view]
    split
    · rename_i hqp
      rw [hqp]
      cases hview : t.view p with
      | occupied P => exact absurd ⟨P, hview⟩ hdead
      | _ => rfl
    · rfl
  · rw [set_view] at hQ'
    split at hQ'
    · cases hQ'
    · exact ⟨Q', hQ', hs⟩
  · rw [set_view] at hz
    split at hz
    · cases hz
    · exact hz
  · rw [set_view] at hr
    split at hr
    · cases hr
    · exact hr
  · have hqp : q ≠ p := by
      rintro rfl
      exact hdead ⟨Q, hQ⟩
    exact ⟨Q, by rw [set_of_ne hqp, hQ], hrun, hcur⟩

theorem wake (t : Table E) (p : Pid) (result : WakeResult) : Steady t (t.wake p result) := by
  unfold Table.wake
  cases hP : t.view p with
  | occupied P =>
    simp only
    split
    · rename_i hblocked
      refine (set hP (applyWakeResult P result) (by simp) (by simp) fun hrun ↦ ?_).trans
        (of_view rfl rfl fun _ _ h ↦ h)
      rw [hrun] at hblocked
      cases hblocked
    · exact set hP { P with pendingWake := some result } rfl id .inl
  | _ => exact refl t

theorem dispatch (hP : t.view p = .occupied P) (hready : P.state = .ready) :
    Steady t (t.dispatch c p P) := by
  have hset := set hP { P with state := .running } rfl (by simp) fun _ ↦ .inl rfl
  refine ⟨hset.issued, hset.frame, hset.suspended, hset.zombie, hset.reserved,
    fun q Q hQ hrun hcur ↦ ?_⟩
  have hqp : q ≠ p := by
    rintro rfl
    rw [hP] at hQ
    cases hQ
    rw [hready] at hrun
    cases hrun
  refine ⟨Q, by rw [dispatch_view, if_neg hqp, hQ], hrun, fun d hd ↦ ?_⟩
  rw [dispatch_current] at hd
  split at hd
  · exact hqp (Option.some.inj hd).symm
  · exact hcur d hd

end Steady

end Table

namespace Inner

variable {s s' : Inner E}

theorem generations_of_issued (h : s'.issued = s.issued) : s'.generations = s.generations := by
  have hle : ∀ {a b : Inner E}, a.issued = b.issued → ∀ i, a.generations i ≤ b.generations i := by
    intro a b hab i
    have hissued : a.issued (a.pidAt i) := by
      refine ⟨i, a.pidAt_slot i, ?_⟩
      rw [← (eq_pidAt_iff.mp (rfl : a.pidAt i = a.pidAt i)).2]
      exact UInt32.le_refl _
    rw [hab] at hissued
    obtain ⟨j, hslot, hgen⟩ := hissued
    rw [a.pidAt_slot] at hslot
    cases hslot
    rwa [← (eq_pidAt_iff.mp (rfl : a.pidAt i = a.pidAt i)).2] at hgen
  funext i
  exact UInt32.le_antisymm (hle h i) (hle h.symm i)

theorem pidAt_of_issued (h : s'.issued = s.issued) : s'.pidAt = s.pidAt := by
  funext i
  simp only [pidAt, generations_of_issued h]

theorem processes_of_table (h : s'.issued = s.issued) (i : Fin maxProcesses) :
    s'.processes i = s'.view (s.pidAt i) := by
  rw [← pidAt_of_issued h, view_pidAt]

end Inner

end Tarnos.Task
