import Tarnos.Kernel.Answers
import Tarnos.Kernel.Fates
import Tarnos.Kernel.Reuse
import Tarnos.Rt.Syscall

namespace Tarnos.Kernel

open Abi Arch Kcore Tarnos.Task Foundation.Transition Function Inner Table

variable {E : Type}

/-- How a process ended, with the parent it had then, and the waits for it that succeeded. -/
structure Obituary where
  ended : Option (Option Pid × ExitStatus)
  returned : List (Pid × ExitStatus)
  deriving DecidableEq

def Obituary.blank : Obituary := ⟨none, []⟩

abbrev Obituaries := Pid → Obituary

namespace State

/-- The end of `q` in the next step of core `c`: by its own termination, or with its parent if it is
suspended. -/
def finishes (s : State E) (c : CoreId) (q : Pid) : Option (Option Pid × ExitStatus) :=
  match s.terminates c, s.sched.occupiedMut q with
  | some (r, status), some Q =>
    if q = r then some (Q.parent, status)
    else if Q.parent = some r ∧ Q.state = .suspended then some (Q.parent, .killed)
    else none
  | _, _ => none

/-- The wait for `q` that succeeds in the next step of core `c`, with its caller and the status it
yields: the call of the core itself finds a zombie, or the core terminates `q`, which its parent
waits for. -/
def answers (s : State E) (c : CoreId) (q : Pid) : Option (Pid × ExitStatus) :=
  match s.terminates c with
  | some (r, status) =>
    match (s.sched.occupiedMut q).bind Process.waitWaiter with
    | some w => if r = q ∧ s.isLive w = true then some (w, status) else none
    | none => none
  | none =>
    match (s.cores c).errands, (s.cores c).main with
    | [], .waitForChild target caller _ =>
      match s.sched.waitOutcome target caller with
      | .alreadyDone status => if target = q then some (caller, status) else none
      | _ => none
    | _, _ => none

def obituary (s : State E) (a : Action E) (d : Obituaries) : Obituaries := fun q ↦
  ⟨(s.finishes a.core q).or (d q).ended, (d q).returned ++ (s.answers a.core q).toList⟩

section Events

variable {s s' : State E} {a : Action E} {c : CoreId} {p q : Pid} {P Q : Process E}
  {status : ExitStatus} {f : TrapFrame} {parent : Option Pid}

theorem finishes_cases (h : s.finishes c q = some (parent, status)) :
    ∃ Q, s.sched.view q = .occupied Q ∧ parent = Q.parent ∧ (s.terminates c = some (q, status) ∨
      ∃ r status', s.terminates c = some (r, status') ∧ q ≠ r ∧ Q.parent = some r ∧
        Q.state = .suspended ∧
        status = .killed) := by
  unfold finishes at h
  split at h
  · rename_i r status' Q hends hQ
    have hQ := occupiedMut_eq_some.mp hQ
    split at h
    · rename_i hqr
      cases h
      subst hqr
      exact ⟨Q, hQ, rfl, .inl hends⟩
    · rename_i hqr
      split at h
      · rename_i hchild
        cases h
        exact ⟨Q, hQ, rfl, .inr ⟨r, status', hends, hqr, hchild.1, hchild.2, rfl⟩⟩
      · cases h
  · cases h

theorem finishes_of_terminates (hends : s.terminates c = some (q, status))
    (hQ : s.sched.view q = .occupied Q) :
    s.finishes c q = some (Q.parent, status) := by
  simp [finishes, hends, occupiedMut_eq_some.mpr hQ]

theorem finishes_of_reaped {r : Pid} (hends : s.terminates c = some (r, status))
    (hQ : s.sched.view q = .occupied Q) (hqr : q ≠ r) (hparent : Q.parent = some r)
    (hstate : Q.state = .suspended) : s.finishes c q = some (some r, .killed) := by
  simp [finishes, hends, occupiedMut_eq_some.mpr hQ, hqr, hparent, hstate]

theorem finishes_of_absent (h : ∀ Q, s.sched.view q ≠ .occupied Q) : s.finishes c q = none := by
  unfold finishes
  split
  · rename_i hQ
    exact absurd (occupiedMut_eq_some.mp hQ) (h _)
  · rfl

theorem answers_cases (h : s.answers c q = some (p, status)) :
    ((s.cores c).errands = [] ∧ (∃ f, (s.cores c).main = .waitForChild q p f) ∧
      s.sched.waitOutcome q p = .alreadyDone status) ∨
    ∃ P, s.Bereaves c p q status ∧ s.sched.view p = .occupied P := by
  unfold answers at h
  split at h
  · rename_i r status' hends
    split at h
    · rename_i w hw
      obtain ⟨Q, hQ, hwaiter⟩ := Option.bind_eq_some_iff.mp hw
      split at h
      · rename_i hlive
        cases h
        obtain ⟨rfl, hlive⟩ := hlive
        obtain ⟨P, hP⟩ := Option.isSome_iff_exists.mp hlive
        exact .inr ⟨P, ⟨hends, Q, occupiedMut_eq_some.mp hQ, hwaiter⟩,
          occupiedMut_eq_some.mp hP⟩
      · cases h
    · cases h
  · split at h
    · rename_i target caller f herr hmain
      split at h
      · rename_i status' hwait
        split at h
        · rename_i htarget
          cases h
          subst htarget
          exact .inl ⟨herr, ⟨f, hmain⟩, hwait⟩
        · cases h
      · cases h
    · cases h

theorem answers_of_collect (herr : (s.cores c).errands = [])
    (hmain : (s.cores c).main = .waitForChild q p f)
    (hwait : s.sched.waitOutcome q p = .alreadyDone status) : s.answers c q = some (p, status) := by
  simp [answers, terminates, herr, hmain, hwait]

theorem answers_of_bereaves (h : s.Bereaves c p q status) (hP : s.sched.view p = .occupied P) :
    s.answers c q = some (p, status) := by
  obtain ⟨hends, Q, hQ, hwaiter⟩ := h
  simp [answers, hends, occupiedMut_eq_some.mpr hQ, hwaiter, isLive,
    occupiedMut_eq_some.mpr hP]

theorem answers_zombie {r : Pid} {status' : ExitStatus} (hview : s.sched.view q = .zombie r status')
    (h : s.answers c q = some (p, status)) : p = r ∧ status = status' := by
  rcases answers_cases h with ⟨-, -, hwait⟩ | ⟨P, ⟨-, Q, hQ, -⟩, -⟩
  · obtain ⟨hzombie, -⟩ := waitForChild_done hwait
    cases hview.symm.trans hzombie
    exact ⟨rfl, rfl⟩
  · cases hview.symm.trans hQ

theorem answers_of_absent (hoccupied : ∀ Q, s.sched.view q ≠ .occupied Q)
    (hzombie : ∀ r status, s.sched.view q ≠ .zombie r status) : s.answers c q = none := by
  by_contra hne
  obtain ⟨⟨p, status⟩, h⟩ := Option.ne_none_iff_exists'.mp hne
  rcases answers_cases h with ⟨-, -, hwait⟩ | ⟨P, ⟨-, Q, hQ, -⟩, -⟩
  · exact hzombie _ _ (waitForChild_done hwait).1
  · exact hoccupied _ hQ

theorem answers_occupied (hQ : s.sched.view q = .occupied Q) (h : s.answers c q = some (p, status)) :
    s.terminates c = some (q, status) ∧ Q.waitWaiter = some p ∧ ∃ P, s.sched.view p = .occupied P := by
  rcases answers_cases h with ⟨-, -, hwait⟩ | ⟨P, ⟨hends, Q', hQ', hwaiter⟩, hP⟩
  · cases hQ.symm.trans (waitForChild_done hwait).1
  · cases hQ.symm.trans hQ'
    exact ⟨hends, hwaiter, P, hP⟩

variable [DecidableEq E]

theorem empty_of_answers {r : Pid} {status' : ExitStatus}
    (hview : s.sched.view q = .zombie r status') (h : s.answers a.core q = some (p, status))
    (hs : s.next a = some s') : s'.sched.view q = .empty := by
  rcases answers_cases h with ⟨herr, ⟨f, hmain⟩, hwait⟩ | ⟨P, ⟨-, Q, hQ, -⟩, -⟩
  · obtain ⟨-, htable, -⟩ := waitForChild_done hwait
    have hstep := mainStep_of_next hs herr hmain
    simp only [mainStep, waitForChild, hwait] at hstep
    cases hstep
    change (s.sched.waitForChild q p).table.view q = _
    rw [htable, set_view, if_pos rfl]
  · cases hview.symm.trans hQ

end Events

end State

inductive Obituary.Fits (t : Table E) (q : Pid) : Slot E → Obituary → Prop
  | occupied {P : Process E} : Fits t q (.occupied P) .blank
  | reserved : Fits t q .reserved .blank
  | unused : Fits t q .empty .blank
  | zombie {p : Pid} {status : ExitStatus} : Fits t q (.zombie p status) ⟨some (some p, status), []⟩
  | unclaimed {parent : Option Pid} {status : ExitStatus} (hknown : t.Known q)
      (hdead : ∀ p, parent = some p → t.Known p ∧ ¬ t.Live p) :
      Fits t q .empty ⟨some (parent, status), []⟩
  | returned {p : Pid} {status : ExitStatus} (hknown : t.Known q) :
      Fits t q .empty ⟨some (some p, status), [(p, status)]⟩

namespace State

def Booked (s : State E) (d : Obituaries) : Prop := ∀ q, (d q).Fits s.sched.table q (s.sched.view q)

section Steps

variable {s s' : State E} {a : Action E} {p q : Pid} {P Q : Process E} {status : ExitStatus}
  {d : Obituaries}

theorem obituary_same (hfinishes : s.finishes a.core q = none) (hanswers : s.answers a.core q = none) :
    s.obituary a d q = d q := by
  simp [obituary, hfinishes, hanswers]

theorem Booked.init (config : BootConfig E) : (State.init config).Booked fun _ ↦ .blank := by
  intro q
  rw [show (State.init config).sched = Inner.init from rfl, Inner.view_init]
  exact .unused

variable [DecidableEq E] [Fintype E]

theorem Inv.dead_of_finishes {x : Option Pid × ExitStatus} (h : s.Inv False)
    (hs : s.next a = some s') (hfinishes : s.finishes a.core q = some x) :
    ¬ s'.sched.table.Live q := by
  obtain ⟨Q, hQ, -, hends | ⟨r, status', hends, -, hparent, hstate, -⟩⟩ := finishes_cases hfinishes
  · exact h.dead_of_ends hs hends hQ hQ (.inl rfl)
  · obtain ⟨-, R, hR, -⟩ := h.scene.sound.parent q Q r hQ hparent
    exact h.dead_of_ends hs hends hR hQ (.inr ⟨hparent, hstate⟩)

theorem Inv.obituary_live (h : s.Inv False) (hs : s.next a = some s')
    (hQ : s.sched.view q = .occupied Q) (hlive : s'.sched.table.Live q) :
    s.obituary a d q = d q := by
  refine obituary_same ?_ ?_
  · by_contra hne
    obtain ⟨x, hx⟩ := Option.ne_none_iff_exists'.mp hne
    exact h.dead_of_finishes hs hx hlive
  · by_contra hne
    obtain ⟨⟨p, status⟩, hx⟩ := Option.ne_none_iff_exists'.mp hne
    exact h.dead_of_ends hs (answers_occupied hQ hx).1 hQ hQ (.inl rfl) hlive

section

variable (h : s.Inv False) (hwrap : s.NoWrap a) (hs : s.next a = some s')

include h hwrap hs

theorem Inv.obituary_ended (hQ : s.sched.view q = .occupied Q)
    (hends : s.terminates a.core = some (q, status)) :
    Obituary.Fits s'.sched.table q (remains Q status) (s.obituary a (fun _ ↦ .blank) q) := by
  have hknown : s'.sched.table.Known q :=
    (h.effect hwrap hs).known h (Table.Live.known ⟨Q, hQ⟩ h.scene.sound)
  have hfinishes := finishes_of_terminates hends hQ
  cases hanswers : s.answers a.core q with
  | some x =>
    obtain ⟨w, status'⟩ := x
    obtain ⟨hends', hwaiter, W, hW⟩ := answers_occupied hQ hanswers
    cases hends.symm.trans hends'
    obtain ⟨hparent, -⟩ | ⟨-, -, hdead⟩ := h.scene.sound.waiter q Q w hQ hwaiter
    · simp only [obituary, hfinishes, hanswers, hparent, remains, hwaiter]
      exact .returned hknown
    · exact absurd ⟨W, hW⟩ hdead
  | none =>
    simp only [obituary, hfinishes, hanswers, remains]
    cases hwaiter : Q.waitWaiter with
    | none =>
      cases hparent : Q.parent with
      | none => exact .unclaimed hknown fun p hp ↦ by cases hp
      | some p => exact .zombie
    | some w =>
      -- a waiter that is not answered is gone, and the process has no parent any more
      obtain ⟨-, W, hW, -⟩ | ⟨hparent, -, -⟩ := h.scene.sound.waiter q Q w hQ hwaiter
      · cases (answers_of_bereaves ⟨hends, Q, hQ, hwaiter⟩ hW).symm.trans hanswers
      · rw [hparent]
        exact .unclaimed hknown fun p hp ↦ by cases hp

theorem Inv.dead_stays (hdead : s.sched.table.Known p ∧ ¬ s.sched.table.Live p) :
    s'.sched.table.Known p ∧ ¬ s'.sched.table.Live p := by
  refine ⟨(h.effect hwrap hs).known h hdead.1, fun ⟨P', hP'⟩ ↦ hdead.2 ?_⟩
  exact h.live_before (next_turn hs) hP' hdead.1

theorem Inv.dead_after (hends : s.terminates a.core = some (p, status))
    (hP : s.sched.view p = .occupied P) : s'.sched.table.Known p ∧ ¬ s'.sched.table.Live p :=
  ⟨(h.effect hwrap hs).known h (Table.Live.known ⟨P, hP⟩ h.scene.sound),
    h.dead_of_ends hs hends hP hP (.inl rfl)⟩

theorem Inv.obituary_reaped (hends : s.terminates a.core = some (p, status))
    (hP : s.sched.view p = .occupied P) (hQ : s.sched.view q = .occupied Q)
    (hparent : Q.parent = some p) (hstate : Q.state = .suspended) :
    Obituary.Fits s'.sched.table q (if Q.waitWaiter.isSome then .empty else .zombie p .killed)
      (s.obituary a (fun _ ↦ .blank) q) := by
  have hqp := (h.scene.sound.parent q Q p hQ hparent).1
  have hfinishes := finishes_of_reaped hends hQ hqp.symm hparent hstate
  have hanswers : s.answers a.core q = none := by
    by_contra hne
    obtain ⟨⟨w, status'⟩, hx⟩ := Option.ne_none_iff_exists'.mp hne
    cases hends.symm.trans ((answers_occupied hQ hx).1)
    exact hqp rfl
  simp only [obituary, hfinishes, hanswers]
  split
  · refine .unclaimed ((h.effect hwrap hs).known h (Table.Live.known ⟨Q, hQ⟩ h.scene.sound)) ?_
    intro r hr
    cases hr
    exact h.dead_after hwrap hs hends hP
  · exact .zombie

end

theorem Booked.next (hbooked : s.Booked d) (h : s.Inv False) (hwrap : s.NoWrap a)
    (hs : s.next a = some s') : s'.Booked (s.obituary a d) := by
  intro q
  have heff := h.effect hwrap hs
  have hfate := h.fate (p := q) (next_turn hs)
  have hfits := hbooked q
  -- only a pid that was never used is allocated
  have hfresh : s'.sched.view q = .reserved → ¬ s.sched.table.Known q :=
    fun hreserved hknown ↦ (heff.known h hknown).2 hreserved
  cases hview : s.sched.view q with
  | occupied Q =>
    rw [hview] at hfate hfits
    have hblank : d q = .blank := by
      generalize d q = k at hfits
      cases hfits
      rfl
    have hsame : s.obituary a d q = s.obituary a (fun _ ↦ .blank) q := by simp [obituary, hblank]
    generalize hslot : s'.sched.view q = slot at hfate
    cases hfate with
    | same | rewritten _ | orphaned _ _ _ _ _ =>
      rw [h.obituary_live hs hview ⟨_, hslot⟩, hblank]
      exact .occupied
    | ended hends heq =>
      rw [hsame, heq]
      exact h.obituary_ended hwrap hs hview hends
    | reaped hends hP hparent hstate heq =>
      rw [hsame, heq]
      exact h.obituary_reaped hwrap hs hends hP hview hparent hstate
  | reserved =>
    rw [obituary_same (finishes_of_absent (by simp [hview])) (answers_of_absent (by simp [hview])
      (by simp [hview]))]
    rw [hview] at hfate hfits
    generalize s'.sched.view q = slot at hfate
    generalize d q = k at hfits
    cases hfits
    cases hfate with
    | same => exact .reserved
    | released _ _ => exact .unused
    | placed _ _ => exact .occupied
  | empty =>
    rw [obituary_same (finishes_of_absent (by simp [hview])) (answers_of_absent (by simp [hview])
      (by simp [hview]))]
    rw [hview] at hfate hfits
    generalize hslot : s'.sched.view q = slot at hfate
    generalize d q = k at hfits
    cases hfate with
    | same =>
      cases hfits with
      | unused => exact .unused
      | unclaimed hknown hdead =>
        exact .unclaimed (heff.known h hknown) fun p hp ↦ h.dead_stays hwrap hs (hdead p hp)
      | returned hknown => exact .returned (heff.known h hknown)
    | allocated _ _ =>
      cases hfits with
      | unused => exact .reserved
      | unclaimed hknown _ | returned hknown => exact absurd hknown (hfresh hslot)
  | zombie r status =>
    have hknown : s'.sched.table.Known q :=
      heff.known h ⟨h.scene.sound.issued q (by rw [show s.scene.table.view q = _ from hview]; simp),
        by simp [hview]⟩
    have hd : d q = ⟨some (some r, status), []⟩ := by
      rw [hview] at hfits
      generalize d q = k at hfits
      cases hfits
      rfl
    have hfinishes : s.finishes a.core q = none := finishes_of_absent (by simp [hview])
    cases hanswers : s.answers a.core q with
    | some x =>
      obtain ⟨rfl, rfl⟩ := answers_zombie hview hanswers
      rw [empty_of_answers hview hanswers hs]
      simp only [obituary, hfinishes, hanswers, hd]
      exact .returned hknown
    | none =>
      rw [obituary_same hfinishes hanswers, hd]
      rw [hview] at hfate
      generalize s'.sched.view q = slot at hfate
      cases hfate with
      | same => exact .zombie
      | collected herr hmain =>
        have hwait : s.sched.waitOutcome q r = .alreadyDone status := by
          rw [waitOutcome_eq, hview]
          exact if_pos rfl
        cases (answers_of_collect herr hmain hwait).symm.trans hanswers
      | cleared hends hR =>
        refine .unclaimed hknown fun p hp ↦ ?_
        cases hp
        exact h.dead_after hwrap hs hends hR

end Steps

/-- Waits that have not ended are on record with a child that has not, those that have succeeded
are written down with the child. -/
structure Expects (s : State E) (g : Journal E) (d : Obituaries) : Prop where
  waiting : ∀ p P q, s.sched.view p = .occupied P → (g p).place = some (.child q) →
    (g p).outcome = none → s.sched.table.Waits p q
  answered : ∀ p P q result, s.sched.view p = .occupied P → (g p).place = some (.child q) →
    (g p).outcome = some result → ∃ status, result = .waitCompleted status ∧
      (p, status) ∈ (d q).returned

section Waits

variable {s s' : State E} {a : Action E} {p q : Pid} {P P' : Process E} {g : Journal E}
  {d : Obituaries} {f : TrapFrame}

theorem Expects.init (config : BootConfig E) (g : Journal E) (d : Obituaries) :
    (State.init config).Expects g d := by
  have hview : ∀ p P, (State.init config).sched.view p ≠ .occupied P := by
    intro p P hP
    rw [show (State.init config).sched = Inner.init from rfl, Inner.view_init] at hP
    cases hP
  exact ⟨fun p P q hP ↦ absurd hP (hview p P), fun p P q result hP ↦ absurd hP (hview p P)⟩

variable [DecidableEq E] [Fintype E]

theorem Inv.waits_of_awaits (h : s.Inv False) (hs : s.next a = some s')
    (hawaits : s.Awaits a.core p q f) : s'.sched.table.Waits p q := by
  obtain ⟨P, Q, sched, -, -, -, hqp, hblock, -, htable, -⟩ :=
    h.waiting hawaits.hmain hawaits.hwait
  have hstep := mainStep_of_next hs hawaits.herr hawaits.hmain
  simp only [mainStep, waitForChild, hawaits.hwait,
    blockCurrent, withSched, hblock] at hstep
  have hview : sched.table.view q = .occupied { Q with waitWaiter := some p } := by
    rw [htable, letGo_view, if_neg hqp, set_view, if_pos rfl]
  rcases view_switchToNextOrHalt (b := s.withSched sched) hview hstep with hQ' | ⟨hQ', -⟩
  · exact ⟨_, hQ', rfl⟩
  · exact ⟨_, hQ', rfl⟩

theorem Inv.waits_next (h : s.Inv False) (hs : s.next a = some s')
    (hP : s.sched.view p = .occupied P) (hP' : s'.sched.view p = .occupied P')
    (hwaits : s.sched.table.Waits p q) (hset : s.settled a.core p = none) :
    s'.sched.table.Waits p q := by
  have hblocked := h.blocked_of_waits hP hwaits
  obtain ⟨Q, hQ, hwaiter⟩ := id hwaits
  have hparent : Q.parent = some p := by
    rcases h.scene.sound.waiter q Q p hQ hwaiter with ⟨hparent, -⟩ | ⟨-, -, hdead⟩
    · exact hparent
    · exact absurd ⟨P, hP⟩ hdead
  have hlive : ∃ Q', s'.sched.view q = .occupied Q' := by
    have hfate := h.fate (p := q) (next_turn hs)
    rw [show s.sched.view q = .occupied Q from hQ] at hfate
    generalize s'.sched.view q = slot at hfate
    cases hfate with
    | same | rewritten _ | orphaned _ _ _ _ _ => exact ⟨_, rfl⟩
    | ended hends _ => cases hset.symm.trans (settled_of_bereaves ⟨hends, hwaits⟩)
    | reaped hends hR hparent' _ _ =>
      cases hparent.symm.trans hparent'
      exact absurd ⟨P', hP'⟩ (h.dead_of_ends hs hends hP hP (.inl rfl))
  obtain ⟨Q', hQ'⟩ := hlive
  have hcourse : ∀ {y : Saved}, s.Course a.core q (saved Q) y → y.waiter = some p := by
    intro y hcourse
    rcases hcourse.waiter with hsame | ⟨w, f, hawaits, -⟩
    · exact hsame.trans hwaiter
    · -- only its parent could wait for it anew, but that one is blocked
      obtain ⟨Q₀, hQ₀, hparent₀, -⟩ := waitForChild_block hawaits.hwait
      cases (show s.sched.view q = .occupied Q from hQ).symm.trans hQ₀
      cases hparent.symm.trans hparent₀
      have hc := h.current_of_caller hawaits.hmain rfl
      exact absurd hc (h.scene.sound.not_current hP (by rw [hblocked]; simp) a.core)
  refine ⟨Q', hQ', ?_⟩
  cases h.fared (next_turn hs) hQ' with
  | spawned _ _ _ hview | booted _ _ _ hview =>
    cases (show s.sched.view q = .occupied Q from hQ).symm.trans hview
  | went hQ₀ hstep =>
    cases (show s.sched.view q = .occupied Q from hQ).symm.trans hQ₀
    exact hcourse hstep
  | dispatched hQ₀ hstep _ hsaved _ _ _ =>
    cases (show s.sched.view q = .occupied Q from hQ).symm.trans hQ₀
    have hw := hcourse hstep
    rw [show Q'.waitWaiter = (saved Q').waiter from rfl, hsaved]
    exact hw

theorem Expects.next (hexpects : s.Expects g d) (hfits : s.Fits g) (h : s.Inv False)
    (hs : s.next a = some s') : s'.Expects (s.journal a s' g) (s.obituary a d) := by
  refine ⟨fun p P' q hP' hplace hnone ↦ ?_, fun p P' q result hP' hplace houtcome ↦ ?_⟩
  · rcases hfits.live_or_fresh h hs hP' with ⟨P, hP⟩ | ⟨f, hfresh⟩
    · have hnoted := hfits.noted (a := a) (u := s') h hP
      generalize s.journal a s' g p = k at hplace hnone hnoted
      cases hnoted with
      | begun _ => cases hplace
      | settled _ _ _ _ => cases hnone
      | registered hr _ =>
        obtain ⟨-, -, -, ⟨_, heq, _⟩ | ⟨_, heq, _⟩ | ⟨q', f, heq, hawaits⟩⟩ := registered_cases hr
        · cases heq.symm.trans (Option.some.inj hplace)
        · cases heq.symm.trans (Option.some.inj hplace)
        · cases heq.symm.trans (Option.some.inj hplace)
          exact h.waits_of_awaits hs hawaits
      | same _ _ hset => exact h.waits_next hs hP hP' (hexpects.waiting p P q hP hplace hnone) hset
    · rw [hfresh] at hplace
      cases hplace
  · rcases hfits.live_or_fresh h hs hP' with ⟨P, hP⟩ | ⟨f, hfresh⟩
    · have hnoted := hfits.noted (a := a) (u := s') h hP
      generalize s.journal a s' g p = k at hplace houtcome hnoted
      cases hnoted with
      | begun _ => cases hplace
      | registered _ _ => cases houtcome
      | settled hset hplace' _ _ =>
        cases hplace'.symm.trans hplace
        cases houtcome
        cases settled_cases hset with
        | waits hbereaves =>
          refine ⟨_, rfl, List.mem_append_right _ ?_⟩
          rw [answers_of_bereaves hbereaves hP]
          exact List.mem_singleton_self _
      | same _ _ _ =>
        obtain ⟨status, rfl, hmem⟩ := hexpects.answered p P q result hP hplace houtcome
        exact ⟨status, rfl, List.mem_append_left _ hmem⟩
    · rw [hfresh] at hplace
      cases hplace

end Waits

def tidings [DecidableEq E] (s : State E) (a : Action E) (s' : State E) (x : Journal E × Obituaries) :
    Journal E × Obituaries :=
  (s.journal a s' x.1, s.obituary a x.2)

/-- The process `p` goes on with registers `f`: its core is about to return to it with them, or they
are stored for it and it is ready. -/
def GoesOn (s : State E) (c : CoreId) (p : Pid) (f : TrapFrame) : Prop :=
  ((s.cores c).main = .leave f ∧ s.sched.current c = some p) ∨
    ∃ P, s.sched.view p = .occupied P ∧ P.state = .ready ∧ P.trapFrame = f

/-- The status of every process that ends is delivered once: at most one wait for it succeeds, that
of its parent (`once`); until then it is kept for the parent (`owed`), whose wait finds it
(`collects`), and a parent that waits already (`registers`) gets it when the child ends (`waiting`,
`answered`).
Either way the wait yields the status in the same registers and frees the slot (`succeeds`), and
further waits are refused (`refuses`). -/
structure Delivers [DecidableEq E] (s : State E) (g : Journal E) (d : Obituaries) : Prop where
  once : ∀ q, (d q).returned = [] ∨ ∃ p status, (d q).returned = [(p, status)] ∧
    (d q).ended = some (some p, status) ∧ s.sched.view q = .empty
  owed : ∀ q p status, (d q).ended = some (some p, status) → (d q).returned = [] →
    s.sched.table.Live p → s.sched.view q = .zombie p status
  collects : ∀ c q p f status, (s.cores c).errands = [] →
    (s.cores c).main = .waitForChild q p f → (d q).ended = some (some p, status) →
    (d q).returned = [] → s.answers c q = some (p, status)
  registers : ∀ a s' q p f Q, (s.cores a.core).errands = [] →
    (s.cores a.core).main = .waitForChild q p f → s.sched.view q = .occupied Q →
    Q.parent = some p → s.journal a s' g p = ⟨f, some (.child q), none⟩
  waiting : ∀ p q, s.sched.table.Live p → (g p).place = some (.child q) → (g p).outcome = none →
    (d q).ended = none ∧ ∀ c parent status, s.finishes c q = some (parent, status) →
      s.finishes c p = none → s.answers c q = some (p, status)
  answered : ∀ p q result, s.sched.table.Live p → (g p).place = some (.child q) →
    (g p).outcome = some result → ∃ status, result = .waitCompleted status ∧
      (d q).returned = [(p, status)]
  succeeds : ∀ a s' q p status, s.next a = some s' → s.answers a.core q = some (p, status) →
    s'.sched.view q = .empty ∧ (g p).trap.rax = sysWait ∧ q = ⟨(g p).trap.rdi⟩ ∧
    ∃ f, f = { (g p).trap with rax := 0, rdi := status.toRegs.1, rsi := status.toRegs.2 } ∧
      Rt.sysWait f = .ok status ∧ s'.GoesOn a.core p f
  refuses : ∀ a s' q p f, s.next a = some s' → (s.cores a.core).errands = [] →
    (s.cores a.core).main = .waitForChild q p f → (d q).returned ≠ [] →
    s' = s.goto a.core (.leave (f.withRax SyscallError.invalidTarget.toRax)) []

section Runs

variable {s s' : State E} {a : Action E} {p q : Pid} {P Q : Process E} {status : ExitStatus}
  {g : Journal E} {d : Obituaries} {f : TrapFrame}

theorem Booked.once (h : s.Booked d) (q : Pid) : (d q).returned = [] ∨ ∃ p status,
    (d q).returned = [(p, status)] ∧ (d q).ended = some (some p, status) ∧
      s.sched.view q = .empty := by
  have hfits := h q
  generalize d q = k at hfits
  generalize s.sched.view q = slot at hfits
  cases hfits with
  | returned _ => exact .inr ⟨_, _, rfl, rfl, rfl⟩
  | _ => exact .inl rfl

theorem Booked.owed (h : s.Booked d) (hended : (d q).ended = some (some p, status))
    (hreturned : (d q).returned = []) (hlive : s.sched.table.Live p) :
    s.sched.view q = .zombie p status := by
  have hfits := h q
  generalize d q = k at hfits hended hreturned
  generalize s.sched.view q = slot at hfits
  cases hfits with
  | zombie =>
    cases hended
    rfl
  | unclaimed _ hdead =>
    cases hended
    exact absurd hlive (hdead p rfl).2
  | returned _ => cases hreturned
  | occupied | reserved | unused => cases hended

theorem Booked.blank (h : s.Booked d) (hQ : s.sched.view q = .occupied Q) : d q = .blank := by
  have hfits := h q
  rw [hQ] at hfits
  generalize d q = k at hfits
  cases hfits
  rfl

theorem sysWait_registers (f : TrapFrame) (status : ExitStatus) :
    Rt.sysWait { f with rax := 0, rdi := status.toRegs.1, rsi := status.toRegs.2 } = .ok status := by
  unfold Rt.sysWait
  rw [Rt.orError_zero rfl, ExitStatus.fromRegs_toRegs]

variable [Fintype E]

theorem Fits.awaiting {Q : Process E} (hfits : s.Fits g) (h : s.Inv False)
    (herr : (s.cores a.core).errands = []) (hmain : (s.cores a.core).main = .waitForChild q p f)
    (hQ : s.sched.view q = .occupied Q) (hparent : Q.parent = some p) :
    s.journal a s' g p = ⟨f, some (.child q), none⟩ := by
  have hwait : s.sched.waitOutcome q p = .mustBlock := by
    rw [waitOutcome_eq, hQ]
    exact if_pos hparent
  have hreg : s.registered a.core p = some (.child q) := registered_of_awaits ⟨herr, hmain, hwait⟩
  obtain ⟨hb, -, f', hf', hg⟩ := hfits.registers (a := a) h hreg
  rw [hmain] at hf'
  cases hf'
  rw [journal_registered hb hreg, hg]
  rfl

variable [DecidableEq E]

theorem Fits.collected (hfits : s.Fits g) (h : s.Inv False) (haims : s.Aims)
    (hs : s.next a = some s') (herr : (s.cores a.core).errands = [])
    (hmain : (s.cores a.core).main = .waitForChild q p f)
    (hwait : s.sched.waitOutcome q p = .alreadyDone status) :
    s'.sched.view q = .empty ∧ (g p).trap.rax = sysWait ∧ q = ⟨(g p).trap.rdi⟩ ∧
      s'.GoesOn a.core p
        { (g p).trap with rax := 0, rdi := status.toRegs.1, rsi := status.toRegs.2 } := by
  have hc := h.current_of_caller hmain rfl
  obtain ⟨P, hP, -⟩ := h.scene.sound.running _ _ hc
  have htrap : (g p).trap = f := (hfits.served a.core p f hc (by rw [hmain]; rfl)).trap
  have haim := haims a.core p P hc hP
  rw [hmain] at haim
  obtain ⟨hzombie, htable, -⟩ := waitForChild_done hwait
  refine ⟨empty_of_answers hzombie (answers_of_collect herr hmain hwait) hs, ?_⟩
  rw [htrap]
  refine ⟨haim.1, haim.2, .inl ?_⟩
  have hstep := mainStep_of_next hs herr hmain
  simp only [mainStep, waitForChild, hwait] at hstep
  cases hstep
  refine ⟨by rw [goto_main], ?_⟩
  change (s.sched.waitForChild q p).table.current a.core = _
  rw [htable]
  exact hc

theorem Fits.bereaved (hfits : s.Fits g) (h : s.Inv False) (hplaced : s.Placed g)
    (hs : s.next a = some s') (hP : s.sched.view p = .occupied P)
    (hbereaves : s.Bereaves a.core p q status) :
    s'.sched.view q = .empty ∧ (g p).trap.rax = sysWait ∧ q = ⟨(g p).trap.rdi⟩ ∧
      s'.GoesOn a.core p
        { (g p).trap with rax := 0, rdi := status.toRegs.1, rsi := status.toRegs.2 } := by
  obtain ⟨hends, hwaits⟩ := id hbereaves
  have hasked := hplaced p P hP _ (hfits.waits p q ⟨P, hP⟩ hwaits).1
  have hblocked := h.blocked_of_waits hP hwaits
  obtain ⟨hframe, -⟩ := (hfits.records p P hP).blocked hblocked
  obtain ⟨Q, hQ, hwaiter⟩ := hwaits
  have hsound : s.sched.table.Sound := h.scene.sound
  obtain ⟨htable, -⟩ := finalize_spec status (finalizable hsound hQ)
  have hview : ∀ r, s'.sched.view r = (s.sched.table.finalize q Q status).view r := by
    intro r
    rw [(next_of_terminates hends hs).1, ← htable]
    rfl
  refine ⟨?_, hasked.1, hasked.2, .inr ?_⟩
  · rw [hview, finalize_view hsound hQ, if_pos rfl, remains, hwaiter]
    rfl
  · have hpq : p ≠ q := by
      rintro rfl
      exact hsound.waiter_ne_self hQ p hwaiter rfl
    obtain ⟨P', hP', -⟩ :=
      finalize_survives hsound hQ hpq hP fun hbad ↦ by cases hblocked.symm.trans hbad.2
    obtain ⟨P₀, hP₀, hsaved⟩ := saved_finalize hsound hQ hP'
    cases hP.symm.trans hP₀
    rw [if_pos hwaiter, Saved.waken,
      if_pos (show (saved P).state = .blocked from hblocked)] at hsaved
    refine ⟨P', (hview p).trans hP', congrArg Saved.state hsaved, ?_⟩
    rw [show P'.trapFrame = (saved P').frame from rfl, hsaved, ← hframe]
    rfl

theorem delivers_of_reach (config : BootConfig E) (g₀ g : Journal E) (d : Obituaries) (s : State E)
    (h : Reach (noted next tidings) (fun x a ↦ x.1.NoWrap a)
      (init config, g₀, fun _ ↦ .blank) (s, g, d)) : s.Delivers g d := by
  have hbase : ∀ t, Reach next State.NoWrap (init config) t →
      t.Inv False ∧ t.Housed ∧ t.Aims := fun t ht ↦
    ⟨inv_of_noWrap (fun _ _ hok ↦ hok) ht, (lawful_of_reach ht).1, aims_of_reach ht⟩
  obtain ⟨hfits, hplaced, hbooked, hexpects⟩ :
      s.Fits g ∧ s.Placed g ∧ s.Booked d ∧ s.Expects g d := by
    refine Reach.noted_invariant
      (I := fun t x ↦ t.Fits x.1 ∧ t.Placed x.1 ∧ t.Booked x.2 ∧ t.Expects x.1 x.2) hbase ?_ ?_ h
    · exact ⟨Fits.init config _, Placed.init config _, Booked.init config, Expects.init config _ _⟩
    · intro t a u x ⟨hinv, hhoused, haims⟩ ⟨hfits, hplaced, hbooked, hexpects⟩ hwrap hs
      exact ⟨hfits.next hinv hwrap hs, hplaced.next hfits hinv haims hhoused hs,
        hbooked.next hinv hwrap hs, hexpects.next hfits hinv hs⟩
  obtain ⟨hinv, -, haims⟩ := hbase s h.forget
  refine ⟨hbooked.once, fun q p status hended hreturned hlive ↦ hbooked.owed hended hreturned hlive,
    fun c q p f status herr hmain hended hreturned ↦ ?_,
    fun a s' q p f Q herr hmain hQ hparent ↦ hfits.awaiting hinv herr hmain hQ hparent,
    fun p q ⟨P, hP⟩ hplace hnone ↦ ?_,
    fun p q result ⟨P, hP⟩ hplace houtcome ↦ ?_, fun a s' q p status hs hanswers ↦ ?_,
    fun a s' q p f hs herr hmain hreturned ↦ ?_⟩
  · obtain ⟨P, hP, -⟩ := hinv.scene.sound.running _ _ (hinv.current_of_caller hmain rfl)
    refine answers_of_collect herr hmain ?_
    rw [waitOutcome_eq, hbooked.owed hended hreturned ⟨P, hP⟩]
    exact if_pos rfl
  · have hwaits := hexpects.waiting p P q hP hplace hnone
    obtain ⟨Q, hQ, hwaiter⟩ := id hwaits
    refine ⟨by rw [hbooked.blank hQ]; rfl, fun c parent status hfinishes hgoes ↦ ?_⟩
    obtain ⟨Q₀, hQ₀, -, hends | ⟨r, status', hends, -, hparent, -, -⟩⟩ := finishes_cases hfinishes
    · exact answers_of_bereaves ⟨hends, hwaits⟩ hP
    · -- it would end with its parent, which is the one that waits
      cases (show s.sched.view q = .occupied Q from hQ).symm.trans hQ₀
      rcases hinv.scene.sound.waiter q Q p hQ hwaiter with ⟨hparent', -⟩ | ⟨-, -, hdead⟩
      · cases hparent.symm.trans hparent'
        cases hgoes.symm.trans (finishes_of_terminates hends hP)
      · exact absurd ⟨P, hP⟩ hdead
  · obtain ⟨status, rfl, hmem⟩ := hexpects.answered p P q result hP hplace houtcome
    refine ⟨status, rfl, ?_⟩
    rcases hbooked.once q with hnil | ⟨p', status', heq, -, -⟩
    · rw [hnil] at hmem
      cases hmem
    · rw [heq] at hmem ⊢
      rw [List.mem_singleton.mp hmem]
  · have hgoes : s'.sched.view q = .empty ∧ (g p).trap.rax = sysWait ∧ q = ⟨(g p).trap.rdi⟩ ∧
        s'.GoesOn a.core p
          { (g p).trap with rax := 0, rdi := status.toRegs.1, rsi := status.toRegs.2 } := by
      rcases answers_cases hanswers with ⟨herr, ⟨f, hmain⟩, hwait⟩ | ⟨P, hbereaves, hP⟩
      · exact hfits.collected hinv haims hs herr hmain hwait
      · exact hfits.bereaved hinv hplaced hs hP hbereaves
    obtain ⟨hempty, hrax, hrdi, hgoes⟩ := hgoes
    exact ⟨hempty, hrax, hrdi, _, rfl, sysWait_registers _ status, hgoes⟩
  · rcases hbooked.once q with hnil | ⟨p', status', -, -, hempty⟩
    · exact absurd hnil hreturned
    · have hwait : s.sched.waitOutcome q p = .invalid := by
        rw [waitOutcome_eq, hempty]
      have hstep := mainStep_of_next hs herr hmain
      simp only [mainStep, waitForChild, hwait] at hstep
      cases hstep
      rfl

end Runs

def exitAwaited : List (Action Unit) :=
  childRuns ++ serve 0 sysWait twin.raw 3 ++ serve 1 sysExit 7 2

theorem delivers_of_reach_exitAwaited :
    ∃ s g d, Reach (noted next tidings) (fun x a ↦ x.1.NoWrap a)
        (init soloEndpoint, (fun _ ↦ .fresh userFrame), fun _ ↦ .blank) (s, g, d) ∧
      s.answers 1 twin = some (Pid.new 0 1, .exited 7) ∧ s.Delivers g d := by
  obtain ⟨⟨s, g, d⟩, hreach, hanswers⟩ : ∃ x, Reach (noted next tidings)
      (fun x a ↦ x.1.NoWrap a)
      (init soloEndpoint, (fun _ ↦ .fresh userFrame), fun _ ↦ .blank) x ∧
        x.1.answers 1 twin = some (Pid.new 0 1, .exited 7) :=
    exists_of_run exitAwaited (by decide +kernel) fun _ _ h ↦ h
  exact ⟨s, g, d, hreach, hanswers, delivers_of_reach _ _ g d s hreach⟩

def exitThenWait (c : CoreId) : List (Action Unit) :=
  serve c sysExit 0 7 ++ serve 0 sysWait twin.raw 2

/-- Two waits for one pid succeed: the child and its twin exit one after the other. -/
theorem wait_succeeds_twice :
    ∃ s s' t, Reach next (fun _ _ ↦ True) (init soloEndpoint) s ∧
      s.answers 0 twin = some (Pid.new 0 1, .exited 0) ∧ s.next (go 0) = some s' ∧
      Reach next (fun _ _ ↦ True) s' t ∧
      t.answers 0 twin = some (Pid.new 0 1, .exited 0) := by
  have hrun : ((run next (init soloEndpoint)
      (childRuns ++ exitThenWait 1)).bind fun s ↦
        (s.next (go 0)).bind fun s' ↦
          (s'.wrapFrom 1 ([go 0] ++ serve 0 sysSpawn 0 3 ++ [⟨0, .refuse⟩] ++ advance 0 2)
            (spawnAndStart 1 twin ++ advance 2 3 ++ exitThenWait 2)).map fun t ↦
              decide (s.answers 0 twin = some (Pid.new 0 1, .exited 0) ∧
                t.answers 0 twin = some (Pid.new 0 1, .exited 0))) = some true := by
    decide +kernel
  obtain ⟨s, hs, hrun⟩ := Option.bind_eq_some_iff.mp hrun
  obtain ⟨s', hs', hrun⟩ := Option.bind_eq_some_iff.mp hrun
  obtain ⟨t, ht, hanswers⟩ := Option.map_eq_some_iff.mp hrun
  obtain ⟨hfirst, hsecond⟩ := of_decide_eq_true hanswers
  exact ⟨s, s', t, run_reach hs, hfirst, hs', wrapFrom_reach ht, hsecond⟩

end State

end Tarnos.Kernel
