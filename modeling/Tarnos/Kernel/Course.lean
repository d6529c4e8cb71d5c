import Tarnos.Kernel.Claims

namespace Tarnos.Kernel

open Abi Arch Kcore Tarnos.Task Function Inner

variable {E : Type} {sched : Inner E} {f : TrapFrame} {m : Main E}

/-- What scheduling and waking change of a process record. -/
structure Saved where
  state : ProcessState
  frame : TrapFrame
  pending : Option WakeResult
  waiter : Option Pid

def saved (P : Process E) : Saved := ⟨P.state, P.trapFrame, P.pendingWake, P.waitWaiter⟩

/-- A result reaches a process: it is applied if the process is blocked, else kept for it. -/
def Saved.waken (x : Saved) (result : WakeResult) : Saved :=
  if x.state = .blocked then { x with state := .ready, frame := result.applyTo x.frame }
  else { x with pending := some result }

theorem saved_wakenRecord (P : Process E) (result : WakeResult) :
    saved (wakenRecord P result) = (saved P).waken result := by
  unfold wakenRecord Saved.waken
  by_cases hstate : P.state = .blocked
  · simp [saved, hstate, applyWakeResult]
  · simp [saved, hstate]

namespace State

inductive Completes (s : State E) (c : CoreId) (p : Pid) : WakeResult → Prop
  | errand {x : Errand E} {rest : List (Errand E)} {notes : List (Event E)} {result : WakeResult}
      (herr : (s.cores c).errands = x :: rest) (hwakes : x.Wakes s p result notes) :
      Completes s c p result
  | ended {q : Pid} {Q : Process E} {status : ExitStatus} (hends : s.terminates c = some (q, status))
      (hQ : s.sched.view q = .occupied Q) (hwaiter : Q.waitWaiter = some p) :
      Completes s c p (.waitCompleted status)

/-- The next step of core `c` makes its process `p`, which trapped with frame `f`, wait for `q`. -/
structure Awaits (s : State E) (c : CoreId) (p q : Pid) (f : TrapFrame) : Prop where
  herr : (s.cores c).errands = []
  hmain : (s.cores c).main = .waitForChild q p f
  hwait : s.sched.waitOutcome q p = .mustBlock

/-- What a step of core `c` can do to the saved part of the record of `p`, a dispatch aside. -/
inductive Course (s : State E) (c : CoreId) (p : Pid) (x : Saved) : Saved → Prop
  | same : Course s c p x x
  | started (hstate : x.state = .suspended) : Course s c p x { x with state := .ready }
  | woken {result : WakeResult} (h : s.Completes c p result) : Course s c p x (x.waken result)
  | preempted {f : TrapFrame} (herr : (s.cores c).errands = [])
      (hmain : (s.cores c).main = .onTimerTick f) (hc : s.sched.current c = some p) :
      Course s c p x { x with state := .ready, frame := f }
  | blocked {f : TrapFrame} (herr : (s.cores c).errands = [])
      (hmain : (s.cores c).main = .blockCurrent f) (hc : s.sched.current c = some p)
      (hpending : x.pending = none) : Course s c p x { x with state := .blocked, frame := f }
  | stashed {f : TrapFrame} {result : WakeResult} (herr : (s.cores c).errands = [])
      (hmain : (s.cores c).main = .blockCurrent f) (hc : s.sched.current c = some p)
      (hpending : x.pending = some result) :
      Course s c p x { x with state := .ready, frame := result.applyTo f, pending := none }
  | waits {q : Pid} {f : TrapFrame} (h : s.Awaits c p q f) (hc : s.sched.current c = some p) :
      Course s c p x { x with state := .blocked, frame := f }
  | awaited {w : Pid} {f : TrapFrame} (h : s.Awaits c w p f) :
      Course s c p x { x with waiter := some w }

/-- How the process `P'` with pid `p` got through a step of core `c`: it is new, it is on, or it
is dispatched. -/
inductive Fared (s : State E) (c : CoreId) (s' : State E) (p : Pid) (P' : Process E) : Prop
  | spawned {f : TrapFrame} (herr : (s.cores c).errands = [])
      (hmain : (s.cores c).main = .spawnSuspended P' f) (hpid : P'.pid = p)
      (hview : s.sched.view p = .reserved)
  | booted {boot : BootProcess E} {rest : List (BootProcess E)} {frame : ℕ} {entry : UInt64}
      (herr : (s.cores c).errands = []) (hmain : (s.cores c).main = .bootSpawn p boot rest)
      (hP' : P' = boot.process p frame entry) (hview : s.sched.view p = .reserved)
  | went {P : Process E} (hP : s.sched.view p = .occupied P)
      (hcourse : s.Course c p (saved P) (saved P'))
  | dispatched {P : Process E} {x : Saved} (hP : s.sched.view p = .occupied P)
      (hcourse : s.Course c p (saved P) x) (hready : x.state = .ready)
      (hP' : saved P' = { x with state := .running }) (hc : s'.sched.current c = some p)
      (hmain : (s'.cores c).main = .leave x.frame) (herr : (s.cores c).errands = [])

section Steps

variable {s s' b : State E} {c : CoreId} {p q : Pid} {P P' : Process E} {strict : Prop}

theorem view_wake_ne (h : p ≠ q) (result : WakeResult) :
    (sched.wakeBlockedProcessLocked q result).view p = sched.view p := by
  rcases sched.wakeBlockedProcessLocked_cases q result with
    ⟨-, heq⟩ | ⟨Q, hQ, -, heq⟩ | ⟨Q, hQ, -, heq⟩
  · rw [heq]
  · rw [heq, view_setProcess hQ, if_neg h]
  · rw [heq, view_push, view_setProcess hQ, if_neg h]

theorem view_wake_occupied {result : WakeResult}
    (h : (sched.wakeBlockedProcessLocked q result).view p = .occupied P') :
    (p = q ∧ ∃ P, sched.view p = .occupied P ∧ P' = wakenRecord P result) ∨
      p ≠ q ∧ sched.view p = .occupied P' := by
  by_cases hpq : p = q
  · subst hpq
    rcases sched.wakeBlockedProcessLocked_cases p result with
      ⟨hnone, heq⟩ | ⟨P, hP, -, -⟩ | ⟨P, hP, -, -⟩
    · rw [heq] at h
      exact absurd h (hnone P')
    all_goals
      rw [view_wakeBlockedProcessLocked hP] at h
      exact .inl ⟨rfl, P, hP, (Slot.occupied.inj h).symm⟩
  · exact .inr ⟨hpq, (view_wake_ne hpq result).symm.trans h⟩

structure Yielded (s : State E) (c : CoreId) (b : State E) : Prop where
  sound : (b.sched.setCurrent c none).table.Sound
  course : ∀ p Q, b.sched.view p = .occupied Q →
    ∃ P, s.sched.view p = .occupied P ∧ s.Course c p (saved P) (saved Q)

theorem saved_finalize {t : Table E} {Q : Process E} {status : ExitStatus} (ht : t.Sound)
    (hQ : t.view q = .occupied Q) (hP' : (t.finalize q Q status).view p = .occupied P') :
    ∃ P, t.view p = .occupied P ∧ saved P' =
      if Q.waitWaiter = some p then (saved P).waken (.waitCompleted status) else saved P := by
  have hview := hP'
  rw [Table.finalize_view ht hQ] at hview
  obtain ⟨W, hslot, -, hcase⟩ := Table.reapedSlot_occupied hview
  have hsame : saved P' = saved W := by
    rcases hcase with rfl | ⟨rfl, -, -⟩ <;> rfl
  obtain ⟨hpq, P, hP, -⟩ := Table.finalize_occupied ht hQ hP'
  rw [if_neg hpq, hP] at hslot
  refine ⟨P, hP, hsame.trans ?_⟩
  simp only [Table.wokenSlot] at hslot
  split at hslot
  · rename_i hwaiter
    cases hslot
    rw [if_pos hwaiter, ← saved_wakenRecord, wakenRecord,
      if_pos (ht.waiter_blocked hQ hwaiter hP)]
  · rename_i hwaiter
    cases hslot
    rw [if_neg hwaiter]

theorem view_release_occupied {r : Pid}
    (hP' : (sched.releaseReservation r).view p = .occupied P') : sched.view p = .occupied P' := by
  unfold releaseReservation at hP'
  split at hP'
  · exact hP'
  · split at hP'
    · exact hP'
    · split at hP'
      · rw [view_setSlot] at hP'
        split at hP'
        · cases hP'
        · exact hP'
      · exact hP'

theorem view_allocate_occupied {busy : Fin maxProcesses → Bool}
    (hP' : (sched.allocatePid busy).2.view p = .occupied P') : sched.view p = .occupied P' := by
  cases hfree : sched.freeSlot busy with
  | none =>
    rw [allocatePid_full hfree] at hP'
    exact hP'
  | some i =>
    rw [view_allocatePid hfree] at hP'
    split at hP'
    · cases hP'
    · exact hP'

theorem Fared.of_set {t : Inner E} {Q Q' : Process E} (hview : s'.sched.view = t.view)
    (hset : ∀ r, t.view r = if r = q then .occupied Q' else s.sched.view r)
    (hQ : s.sched.view q = .occupied Q) (hcourse : s.Course c q (saved Q) (saved Q'))
    (hP' : s'.sched.view p = .occupied P') : s.Fared c s' p P' := by
  rw [hview, hset] at hP'
  split at hP'
  · rename_i hpq
    cases hP'
    subst hpq
    exact .went hQ hcourse
  · exact .went hP' .same

theorem Fared.of_sched (hsched : s'.sched = s.sched) (hP' : s'.sched.view p = .occupied P') :
    s.Fared c s' p P' := by
  rw [hsched] at hP'
  exact .went hP' .same

theorem Inv.fared_wake {errand : Errand E} {result : WakeResult} {notes : List (Event E)}
    {rest : List (Errand E)} (herr : (s.cores c).errands = errand :: rest)
    (hwakes : errand.Wakes s q result notes)
    (hview : s'.sched.view = (s.sched.wakeBlockedProcessLocked q result).view)
    (hP' : s'.sched.view p = .occupied P') : s.Fared c s' p P' := by
  rw [hview] at hP'
  rcases view_wake_occupied hP' with ⟨rfl, P, hP, rfl⟩ | ⟨-, hP⟩
  · refine .went hP ?_
    rw [saved_wakenRecord]
    exact .woken (.errand herr hwakes)
  · exact .went hP .same

variable [Fintype E]

theorem Inv.fared_finalize {status : ExitStatus} (h : s.Inv strict)
    (hends : s.terminates c = some (q, status)) (hne : s.sched.view q ≠ .empty)
    (hview : s'.sched.view = (s.sched.finalize q status).1.view)
    (hP' : s'.sched.view p = .occupied P') : s.Fared c s' p P' := by
  rw [hview] at hP'
  by_cases hlive : ∃ Q, s.sched.view q = .occupied Q
  · obtain ⟨Q, hQ⟩ := hlive
    obtain ⟨htable, -⟩ := finalize_spec status (finalizable h.scene.sound hQ)
    rw [← table_view, htable] at hP'
    obtain ⟨P, hP, hsaved⟩ := saved_finalize h.scene.sound hQ hP'
    refine .went hP ?_
    rw [hsaved]
    split
    · rename_i hwaiter
      exact .woken (.ended hends hQ hwaiter)
    · exact .same
  · push Not at hlive
    rw [finalize_absent hlive hne] at hP'
    exact .went hP' .same

theorem Inv.view_kill (h : s.Inv strict) (hmain : (s.cores c).main = .killScan q f) :
    s.sched.view q ≠ .empty := by
  obtain ⟨r, -, ⟨T, hT, -⟩ | ⟨status, hT⟩⟩ := h.scene.cores.kills c q (by rw [main_core hmain]; rfl)
  · rw [show s.sched.view q = .occupied T from hT]
    simp
  · rw [show s.sched.view q = .zombie r status from hT]
    simp

section

variable (h : s.Inv strict) (herr : (s.cores c).errands = [])

include h herr

theorem Inv.fared_spawn (hmain : (s.cores c).main = .spawnSuspended P f)
    (hspawn : s.sched.spawnSuspended P = .ok sched) (hview : s'.sched.view = sched.view)
    (hP' : s'.sched.view p = .occupied P') : s.Fared c s' p P' := by
  rw [hview] at hP'
  obtain ⟨-, hreserved, htable, -⟩ := h.spawned hmain hspawn
  rw [← table_view, htable, Table.set_view] at hP'
  split at hP'
  · rename_i hpid
    cases hP'
    exact .spawned herr hmain hpid.symm (hpid ▸ hreserved)
  · exact .went hP' .same

theorem Inv.fared_bootSpawn {boot : BootProcess E} {rest : List (BootProcess E)} {frame : ℕ}
    {entry : UInt64} (hmain : (s.cores c).main = .bootSpawn q boot rest)
    (hspawn : s.sched.spawn (boot.process q frame entry) = .ok sched)
    (hview : s'.sched.view = sched.view) (hP' : s'.sched.view p = .occupied P') :
    s.Fared c s' p P' := by
  obtain ⟨-, hreserved, -⟩ := h.booted hmain hspawn
  rw [hview, view_spawn hspawn (show s.sched.view q ≠ _ by rw [hreserved]; simp)] at hP'
  split at hP'
  · rename_i hpq
    cases hP'
    subst hpq
    exact .booted herr hmain rfl hreserved
  · exact .went hP' .same

theorem Inv.yielded (hmain : (s.cores c).main = m) (hyields : s.Yields c m b) : s.Yielded c b := by
  obtain ⟨-, -, -, hinv⟩ := h.yields hmain hyields
  refine ⟨hinv.sound, fun p Q hQ ↦ ?_⟩
  have hstows := h.stows hmain hyields p
  rw [hQ] at hstows
  generalize hslot : Slot.occupied Q = slot at hstows
  cases hstows with
  | same => exact ⟨Q, hslot.symm, .same⟩
  | preempted hc hP =>
    cases hslot
    exact ⟨_, hP, .preempted herr hmain hc⟩
  | @blocked P f hc hP =>
    cases hslot
    refine ⟨P, hP, ?_⟩
    unfold blockedRecord
    split
    · rename_i hpending
      exact .blocked herr hmain hc hpending
    · rename_i pending hpending
      exact .stashed herr hmain hc hpending
  | waits hc hP _ hwait =>
    cases hslot
    exact ⟨_, hP, .waits ⟨herr, hmain, hwait⟩ hc⟩
  | awaited _ hP _ hwait =>
    cases hslot
    exact ⟨_, hP, .awaited ⟨herr, hmain, hwait⟩⟩

theorem Inv.picked {pid : Pid} {popped sched : Inner E} (hmain : (s.cores c).main = m)
    (hyields : s.Yields c m b) (hpop : b.sched.pop = (some pid, popped))
    (hswitch : popped.switchTo c pid = .ok (P, sched)) :
    ∃ P₀ x, s.sched.view pid = .occupied P₀ ∧ s.Course c pid (saved P₀) x ∧ x.state = .ready ∧
      saved P = { x with state := .running } ∧ sched.current c = some pid ∧
      ∀ r, sched.view r = if r = pid then .occupied P else b.sched.view r := by
  have hyielded := h.yielded herr hmain hyields
  obtain ⟨P₀, rest, hqueue, hP₀, rfl, -, htable, -⟩ := table_dispatch hpop hswitch
  have hmem : pid ∈ (b.sched.setCurrent c none).table.queue := by
    change pid ∈ b.sched.queue
    rw [hqueue]
    exact List.mem_cons_self
  obtain ⟨P₁, hP₁, hready⟩ := (hyielded.sound.queued pid).mp hmem
  have heq : P₁ = P₀ := by
    rw [show (b.sched.setCurrent c none).table.view pid = .occupied P₀ from hP₀] at hP₁
    exact (Slot.occupied.inj hP₁).symm
  subst heq
  obtain ⟨P, hP, hcourse⟩ := hyielded.course pid P₁ hP₀
  refine ⟨P, saved P₁, hP, hcourse, hready, rfl, ?_, fun r ↦ ?_⟩
  · rw [← table_current, htable, Table.dispatch_current, if_pos rfl]
  · rw [← table_view, htable, Table.dispatch_view]
    rfl

end

theorem Inv.fared_dispatch {pid : Pid} {popped sched : Inner E} {errands : List (Errand E)}
    (h : s.Inv strict) (herr : (s.cores c).errands = []) (hmain : (s.cores c).main = m)
    (hyields : s.Yields c m b) (hpop : b.sched.pop = (some pid, popped))
    (hswitch : popped.switchTo c pid = .ok (P, sched))
    (hP' : ((b.withSched sched).dispatch c P errands).sched.view p = .occupied P') :
    s.Fared c ((b.withSched sched).dispatch c P errands) p P' := by
  obtain ⟨P₀, x, hP₀, hcourse, hready, hsaved, hc, hview⟩ :=
    h.picked herr hmain hyields hpop hswitch
  replace hP' : sched.view p = .occupied P' := hP'
  rw [hview] at hP'
  split at hP'
  · rename_i hpp
    cases hP'
    subst hpp
    refine .dispatched hP₀ hcourse hready hsaved hc ?_ herr
    rw [← show (saved P).frame = x.frame by rw [hsaved]]
    simp [dispatch, saved]
  · obtain ⟨P, hP, hcourse⟩ := (h.yielded herr hmain hyields).course p P' hP'
    exact .went hP hcourse

variable [DecidableEq E]

theorem Inv.fared (h : s.Inv strict) (hturn : s.Turn c s') (hP' : s'.sched.view p = .occupied P') :
    s.Fared c s' p P' := by
  cases hturn with
  | pollSend _ _ htrade | pollRecv _ _ htrade | wakeReceiver _ _ htrade
  | takeWaitingReceiver _ _ htrade | trySend _ _ _ htrade | tryRecv _ _ _ htrade =>
    exact .of_sched htrade.sched hP'
  | wake herr hwakes => exact Inv.fared_wake herr hwakes rfl hP'
  | bootAllocate | allocate => exact .went (view_allocate_occupied hP') .same
  | bootSpawn herr hmain _ hspawn => exact h.fared_bootSpawn herr hmain hspawn rfl hP'
  | @record call pid f P _ _ hP =>
    have hview := occupiedMut_eq_some.mp hP
    refine .of_set (t := s.sched.setProcess pid (callWrites call P)) ?_
      (fun r ↦ view_setProcess hview _ r) hview ?_ hP'
    · exact congrArg view
        (recordResolve_fields (s := s.withSched (s.sched.setProcess pid (callWrites call P)))
          P call).2.2.1
    · have hsame : saved (callWrites call P) = saved P := by cases call <;> rfl
      rw [hsame]
      exact .same
  | release => exact .went (view_release_occupied hP') .same
  | spawn herr hmain hspawn => exact h.fared_spawn herr hmain hspawn rfl hP'
  | grant _ _ hP =>
    have hview := occupiedMut_eq_some.mp hP
    exact .of_set (s := s) rfl (fun r ↦ view_setProcess hview _ r) hview .same hP'
  | start _ _ hstart =>
    obtain ⟨P, hP, -, hstate, rfl⟩ := startChild_ok hstart
    exact .of_set (s := s) rfl (fun r ↦ view_setProcess hP _ r) hP (.started hstate) hP'
  | @collect target caller f status _ _ hwait =>
    obtain ⟨-, htable, -⟩ := waitForChild_done hwait
    replace hP' : (s.sched.waitForChild target caller).table.view p = .occupied P' := hP'
    rw [htable, Table.set_view] at hP'
    split at hP'
    · cases hP'
    · exact .went hP' .same
  | kill herr hmain howner =>
    exact h.fared_finalize (terminates_kill herr hmain howner) (h.view_kill hmain) rfl hP'
  | exit herr hmain =>
    have hc := h.current_of_caller hmain rfl
    obtain ⟨Q, hQ, -⟩ := h.scene.sound.running _ _ hc
    exact h.fared_finalize (terminates_exit herr hmain)
      (by rw [show s.sched.view _ = .occupied Q from hQ]; simp) rfl hP'
  | dispatch herr hmain hyields hpop hswitch =>
    exact h.fared_dispatch herr hmain hyields hpop hswitch hP'
  | @abandon m b popped errands herr hmain hyields hpop =>
    obtain ⟨htable, -⟩ := table_pop_none hpop
    replace hP' : popped.table.view p = .occupied P' := hP'
    rw [htable] at hP'
    obtain ⟨P, hP, hcourse⟩ := (h.yielded herr hmain hyields).course p P' hP'
    exact .went hP hcourse
  | resumeTick _ hmain hpre hpop => exact absurd hpop (h.preempted_pop hmain hpre)
  | @rest halts m popped errands _ _ hpop =>
    obtain ⟨htable, -⟩ := table_pop_none hpop
    replace hP' : popped.table.view p = .occupied P' := hP'
    rw [htable] at hP'
    exact .went hP' .same
  | _ => exact .of_sched rfl hP'

end Steps

end State

end Tarnos.Kernel
