import Tarnos.Kernel.Course

namespace Tarnos.Kernel

open Abi Arch Kcore Tarnos.Task Function Inner Table

variable {E : Type} {status : ExitStatus}

namespace State

/-- What a step of core `c` can do to the slot of `p`; for the details of the record of a process
that goes on see `Fared`. -/
inductive Fate (s : State E) (c : CoreId) (p : Pid) : Slot E → Slot E → Prop
  | same {slot : Slot E} : Fate s c p slot slot
  | rewritten {P P' : Process E} (hparent : P'.parent = P.parent) :
      Fate s c p (.occupied P) (.occupied P')
  | allocated {i : Fin maxProcesses} (hfree : s.sched.freeSlot s.stackBusy = some i)
      (hp : p = s.sched.freshPid i) : Fate s c p .empty .reserved
  | released {f : TrapFrame} (herr : (s.cores c).errands = [])
      (hmain : (s.cores c).main = .releaseReservation p f) : Fate s c p .reserved .empty
  | placed {P : Process E} (herr : (s.cores c).errands = [])
      (hreserves : (s.cores c).main.reserves = some p) : Fate s c p .reserved (.occupied P)
  | ended {P : Process E} {status : ExitStatus} {slot : Slot E}
      (hends : s.terminates c = some (p, status))
      (hslot : slot = remains P status) : Fate s c p (.occupied P) slot
  | orphaned {P P' Q : Process E} {q : Pid} {status : ExitStatus}
      (hends : s.terminates c = some (q, status))
      (hQ : s.sched.view q = .occupied Q) (hparent : P.parent = some q)
      (hstate : P.state ≠ .suspended) (hnone : P'.parent = none) :
      Fate s c p (.occupied P) (.occupied P')
  | reaped {P Q : Process E} {q : Pid} {status : ExitStatus} {slot : Slot E}
      (hends : s.terminates c = some (q, status)) (hQ : s.sched.view q = .occupied Q)
      (hparent : P.parent = some q) (hstate : P.state = .suspended)
      (hslot : slot = if P.waitWaiter.isSome then .empty else .zombie q .killed) :
      Fate s c p (.occupied P) slot
  | collected {caller : Pid} {f : TrapFrame} {status : ExitStatus} (herr : (s.cores c).errands = [])
      (hmain : (s.cores c).main = .waitForChild p caller f) : Fate s c p (.zombie caller status) .empty
  | cleared {Q : Process E} {q : Pid} {status status' : ExitStatus}
      (hends : s.terminates c = some (q, status))
      (hQ : s.sched.view q = .occupied Q) : Fate s c p (.zombie q status') .empty

section Steps

variable {s s' b : State E} {c : CoreId} {p q : Pid} {P Q : Process E} {strict : Prop}

theorem Fate.of_view (h : s'.sched.view p = s.sched.view p) :
    s.Fate c p (s.sched.view p) (s'.sched.view p) := by
  rw [h]
  exact .same

theorem Fate.of_set {t : Inner E} {R : Process E} (hQ : s.sched.view q = .occupied Q)
    (hview : ∀ r, t.view r = if r = q then .occupied R else s.sched.view r)
    (hparent : R.parent = Q.parent) : s.Fate c p (s.sched.view p) (t.view p) := by
  rw [hview]
  split
  · rename_i hpq
    rw [hpq, hQ]
    exact .rewritten hparent
  · exact .same

theorem fate_remains {t : Table E} (ht : t.Sound) (hQ : t.view q = .occupied Q) :
    reapedSlot q (remains Q status) = remains Q status := by
  unfold remains
  split
  · rename_i parent _ hparent
    simp only [reapedSlot]
    exact if_neg fun heq ↦ (ht.parent q Q parent hQ hparent).1 heq
  · rfl

theorem view_switchToNextOrHalt {outgoing : Option (Fin maxProcesses)} {drops : List (Process E)}
    (hQ : b.sched.view p = .occupied Q) (hs : b.switchToNextOrHalt c outgoing drops = .next s') :
    s'.sched.view p = .occupied Q ∨
      s'.sched.view p = .occupied { Q with state := .running } ∧ p ∈ b.sched.queue := by
  unfold switchToNextOrHalt at hs
  split at hs
  · rename_i pid popped hpop
    unfold switchTo at hs
    split at hs
    · cases hs
    · rename_i R sched hswitch
      cases hs
      obtain ⟨R₀, rest, hqueue, hR₀, rfl, -, htable, -⟩ := table_dispatch hpop hswitch
      have hview : sched.view p = if p = pid then .occupied { R₀ with state := .running } else
          b.sched.view p := by
        rw [← table_view, htable, dispatch_view]
        rfl
      change sched.view p = _ ∨ sched.view p = _ ∧ _
      rw [hview]
      split
      · rename_i hp
        subst hp
        cases hQ.symm.trans hR₀
        exact .inr ⟨rfl, by rw [hqueue]; exact List.mem_cons_self⟩
      · exact .inl hQ
  · rename_i popped hpop
    cases hs
    obtain ⟨htable, -⟩ := table_pop_none hpop
    left
    change popped.table.view p = _
    rw [htable]
    exact hQ

variable [Fintype E]

theorem Inv.fate_finalize (h : s.Inv strict) (hends : s.terminates c = some (q, status))
    (hne : s.sched.view q ≠ .empty) :
    s.Fate c p (s.sched.view p) ((s.sched.finalize q status).1.view p) := by
  have hsound : s.sched.table.Sound := h.scene.sound
  by_cases hlive : ∃ Q, s.sched.view q = .occupied Q
  · obtain ⟨Q, hQ⟩ := hlive
    obtain ⟨htable, -⟩ := finalize_spec status (finalizable hsound hQ)
    have hview : (s.sched.finalize q status).1.view p = reapedSlot q
        (if p = q then remains Q status else wokenSlot Q status p (s.sched.view p)) := by
      rw [← table_view, htable, finalize_view hsound hQ, table_view]
    rw [hview]
    by_cases hpq : p = q
    · subst hpq
      rw [if_pos rfl, fate_remains hsound hQ, hQ]
      exact .ended hends rfl
    · rw [if_neg hpq]
      cases hP : s.sched.view p with
      | occupied P =>
        -- a parent that waits is blocked, so a suspended process is not woken
        obtain ⟨W, hW, hparent, hwaiter, hstate⟩ : ∃ W, wokenSlot Q status p (.occupied P) =
            .occupied W ∧ W.parent = P.parent ∧ W.waitWaiter = P.waitWaiter ∧
            (W.state = .suspended ↔ P.state = .suspended) := by
          simp only [wokenSlot]
          split
          · rename_i hwait
            refine ⟨_, rfl, rfl, rfl, ⟨fun hbad ↦ ?_, fun hbad ↦ ?_⟩⟩
            · cases hbad
            · cases (hsound.waiter_blocked hQ hwait hP).symm.trans hbad
          · exact ⟨P, rfl, rfl, rfl, Iff.rfl⟩
        rw [hW]
        simp only [reapedSlot, hparent, hwaiter]
        split
        · rename_i hpar
          by_cases hsus : P.state = .suspended
          · rw [if_pos (hstate.mpr hsus)]
            exact .reaped hends hQ hpar hsus rfl
          · rw [if_neg fun hbad ↦ hsus (hstate.mp hbad)]
            exact .orphaned hends hQ hpar hsus rfl
        · exact .rewritten hparent
      | zombie r st =>
        simp only [wokenSlot, reapedSlot]
        split
        · rename_i hr
          subst hr
          exact .cleared hends hQ
        · exact .same
      | empty | reserved => exact .same
  · push Not at hlive
    rw [finalize_absent hlive hne]
    exact .same

theorem Inv.fate_yields {m : Main E} (h : s.Inv strict) (hmain : (s.cores c).main = m)
    (hyields : s.Yields c m b) : s.Fate c p (s.sched.view p) (b.sched.view p) := by
  have hstows := h.stows hmain hyields p
  generalize b.sched.view p = slot at hstows
  cases hstows with
  | same => exact .same
  | preempted _ hP | waits _ hP | awaited _ hP =>
    rw [hP]
    exact .rewritten rfl
  | @blocked P f _ hP =>
    obtain ⟨-, -, hparent, -⟩ := blockedRecord_fields P f
    rw [hP]
    exact .rewritten hparent

theorem Inv.fate_switchTo {m : Main E} {pid : Pid} {popped sched : Inner E} (h : s.Inv strict)
    (hmain : (s.cores c).main = m) (hyields : s.Yields c m b)
    (hpop : b.sched.pop = (some pid, popped)) (hswitch : popped.switchTo c pid = .ok (P, sched)) :
    s.Fate c p (s.sched.view p) (sched.view p) := by
  have hfate := h.fate_yields (p := p) hmain hyields
  obtain ⟨P₀, rest, -, hP₀, rfl, -, htable, -⟩ := table_dispatch hpop hswitch
  have hview : sched.view p = if p = pid then .occupied { P₀ with state := .running } else
      b.sched.view p := by
    rw [← table_view, htable, dispatch_view]
    rfl
  rw [hview]
  split
  · rename_i hp
    subst hp
    rw [hP₀] at hfate
    generalize s.sched.view p = slot at hfate
    cases hfate with
    | same => exact .rewritten rfl
    | rewritten hparent => exact .rewritten hparent
    | placed herr hreserves => exact .placed herr hreserves
    | orphaned hends hQ hparent hstate hnone => exact .orphaned hends hQ hparent hstate hnone
    | @ended P status _ _ hslot =>
      unfold remains at hslot
      split at hslot <;> cases hslot
    | reaped _ _ _ _ hslot => split at hslot <;> cases hslot
  · exact hfate

variable [DecidableEq E]

theorem Inv.fate (h : s.Inv strict) (hturn : s.Turn c s') :
    s.Fate c p (s.sched.view p) (s'.sched.view p) := by
  cases hturn with
  | pollSend _ _ htrade | pollRecv _ _ htrade | wakeReceiver _ _ htrade
  | takeWaitingReceiver _ _ htrade | trySend _ _ _ htrade | tryRecv _ _ _ htrade =>
    exact .of_view (by rw [htrade.sched])
  | @wake errand pid result notes rest herr hwakes =>
    change s.Fate c p _ ((s.sched.wakeBlockedProcessLocked pid result).view p)
    rcases s.sched.wakeBlockedProcessLocked_cases pid result with
      ⟨-, heq⟩ | ⟨Q, hQ, -, heq⟩ | ⟨Q, hQ, -, heq⟩
    · rw [heq]
      exact .same
    · rw [heq]
      exact .of_set hQ (fun r ↦ view_setProcess hQ _ r) rfl
    · rw [heq]
      exact .of_set (R := applyWakeResult Q result) hQ (fun r ↦ view_setProcess hQ _ r) rfl
  | bootAllocate | allocate =>
    change s.Fate c p _ ((s.sched.allocatePid s.stackBusy).2.view p)
    cases hfree : s.sched.freeSlot s.stackBusy with
    | none =>
      rw [allocatePid_full hfree]
      exact .same
    | some i =>
      rw [view_allocatePid hfree]
      split
      · rename_i hp
        rw [hp, view_freshPid]
        exact .allocated hfree rfl
      · exact .same
  | @bootSpawn pid boot rest entry frame sched herr hmain _ hspawn =>
    obtain ⟨hreserves, hreserved, -⟩ := h.booted hmain hspawn
    change s.Fate c p _ (sched.view p)
    rw [view_spawn hspawn (show s.sched.view pid ≠ _ by rw [hreserved]; simp)]
    split
    · rename_i hp
      rw [show p = pid from hp, hreserved]
      exact .placed herr hreserves
    · exact .same
  | @record call pid f P _ _ hP =>
    have hview := occupiedMut_eq_some.mp hP
    have hsched := (recordResolve_fields (f := f)
      (s := s.withSched (s.sched.setProcess pid (callWrites call P))) P call).2.2.1
    change s.Fate c p _ (((s.withSched (s.sched.setProcess pid (callWrites call P))).recordResolve P f
      call).sched.view p)
    rw [hsched]
    exact .of_set hview (fun r ↦ view_setProcess hview _ r) (by cases call <;> rfl)
  | @release child f herr hmain =>
    change s.Fate c p _ ((s.sched.releaseReservation child).view p)
    cases hslot : child.slot with
    | none =>
      rw [releaseReservation_full hslot]
      exact .same
    | some i =>
      have hreserved := (h.reserved hmain rfl hslot).2
      obtain ⟨htable, -⟩ := releaseReservation_reserved hreserved
      have hview : (s.sched.releaseReservation child).view p =
          if p = child then .empty else s.sched.view p := by
        rw [← table_view, htable, set_view]
        rfl
      rw [hview]
      split
      · rename_i hp
        rw [hp, hreserved]
        exact .released herr hmain
      · exact .same
  | @spawn P f sched herr hmain hspawn =>
    change s.Fate c p _ (sched.view p)
    obtain ⟨hreserves, hreserved, htable, -⟩ := h.spawned hmain hspawn
    have hview : sched.view p = if p = P.pid then .occupied P else s.sched.view p := by
      rw [← table_view, htable, set_view]
      rfl
    rw [hview]
    split
    · rename_i hp
      rw [hp, hreserved]
      exact .placed herr hreserves
    · exact .same
  | grant _ _ hP =>
    have hview := occupiedMut_eq_some.mp hP
    exact .of_set hview (fun r ↦ view_setProcess hview _ r) rfl
  | start _ _ hstart =>
    obtain ⟨P, hP, -, -, rfl⟩ := startChild_ok hstart
    exact .of_set (R := { P with state := .ready }) hP (fun r ↦ view_setProcess hP _ r) rfl
  | @collect target caller f status herr hmain hwait =>
    obtain ⟨hzombie, htable, -⟩ := waitForChild_done hwait
    change s.Fate c p _ ((s.sched.waitForChild target caller).table.view p)
    rw [htable, set_view]
    split
    · rename_i hp
      rw [hp, hzombie]
      exact .collected herr hmain
    · exact .same
  | kill herr hmain howner =>
    exact h.fate_finalize (terminates_kill herr hmain howner) (h.view_kill hmain)
  | @exit pid status herr hmain =>
    obtain ⟨Q, hQ, -⟩ := h.scene.sound.running _ _ (h.current_of_caller hmain rfl)
    exact h.fate_finalize (terminates_exit herr hmain)
      (by rw [show s.sched.view pid = .occupied Q from hQ]; simp)
  | dispatch _ hmain hyields hpop hswitch => exact h.fate_switchTo hmain hyields hpop hswitch
  | @abandon m b popped errands _ hmain hyields hpop =>
    obtain ⟨htable, -⟩ := table_pop_none hpop
    change s.Fate c p _ (popped.table.view p)
    rw [htable]
    exact h.fate_yields hmain hyields
  | resumeTick _ hmain hpre hpop => exact absurd hpop (h.preempted_pop hmain hpre)
  | @rest halts m popped errands _ _ hpop =>
    obtain ⟨htable, -⟩ := table_pop_none hpop
    change s.Fate c p _ (popped.table.view p)
    rw [htable]
    exact .same
  | _ => exact .same

theorem Inv.dead_of_ends {a : Action E} (h : s.Inv strict)
    (hs : s.next a = some s') (hends : s.terminates a.core = some (q, status))
    (hQ : s.sched.view q = .occupied Q) (hP : s.sched.view p = .occupied P)
    (hdies : p = q ∨ P.parent = some q ∧ P.state = .suspended) : ¬ s'.sched.table.Live p := by
  rintro ⟨P', hP'⟩
  obtain ⟨htable, -⟩ := finalize_spec status (finalizable h.scene.sound hQ)
  rw [(next_of_terminates hends hs).1, htable] at hP'
  obtain ⟨hpq, C, hC, hout⟩ := finalize_occupied h.scene.sound hQ hP'
  cases hP.symm.trans hC
  rcases hdies with heq | hchild
  · exact hpq heq
  · exact hout.spared hchild

end Steps

end State

end Tarnos.Kernel
