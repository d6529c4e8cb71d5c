import Tarnos.Kernel.Answers

namespace Tarnos.Kernel

open Abi Arch Kcore Tarnos.Task Foundation.Transition Function Inner

variable {E : Type} {write : Process E → TrapFrame} {Q : Process E}

/-- The storage `trap_frame_for` hands out: one frame for each table index. -/
abbrev TrapFrames := Fin maxProcesses → TrapFrame

/-- `apply_wake_result` on the frame of a blocked process. -/
def applyAt (sched : Inner E) (pid : Pid) (result : WakeResult) (frames : TrapFrames) : TrapFrames :=
  match sched.occupiedMut pid, pid.slot with
  | some P, some i =>
    if P.state = .blocked then update frames i (result.applyTo (frames i)) else frames
  | _, _ => frames

def saveAt (sched : Inner E) (c : CoreId) (write : Process E → TrapFrame) (frames : TrapFrames) :
    TrapFrames :=
  match (sched.current c).bind Pid.slot with
  | some i =>
    match sched.processes i with
    | .occupied P => update frames i (write P)
    | _ => frames
  | none => frames

/-- What a blocking process finds in its frame: the trap, or the result that came early. -/
def blockedFrame (f : TrapFrame) (P : Process E) : TrapFrame :=
  match P.pendingWake with
  | none => f
  | some result => result.applyTo f

/-- The end of the process in the slot of `pid` reaches the frame of the parent that waits for it.
A suspended child that goes with it was waited for, if at all, by the process itself. -/
def bereaveAt (sched : Inner E) (pid : Pid) (status : ExitStatus) (frames : TrapFrames) : TrapFrames :=
  match pid.slot with
  | some i =>
    match sched.processes i with
    | .occupied P =>
      match P.waitWaiter with
      | some w => applyAt (sched.setSlot i .empty) w (.waitCompleted status) frames
      | none => frames
    | _ => frames
  | none => frames

def initialAt (pid : Pid) (entry : UInt64) (frames : TrapFrames) : TrapFrames :=
  match pid.slot with
  | some i => update frames i (TrapFrame.initialUserFrame entry userStackTop)
  | none => frames

namespace State

/-- The storage after a step: every write of the source to a trap frame. -/
def stores (s : State E) (a : Action E) (frames : TrapFrames) : TrapFrames :=
  match (s.cores a.core).errands, (s.cores a.core).main, a.choice with
  | .wakeSender pid _ :: _, _, _ => applyAt s.sched pid .sendCompleted frames
  | .handOver pid parcel :: _, _, _ => applyAt s.sched pid (recvCompleted parcel.message) frames
  | .peerClosed pid :: _, _, _ => applyAt s.sched pid .peerClosed frames
  | [], .onTimerTick f, _ => saveAt s.sched a.core (fun _ ↦ f) frames
  | [], .blockCurrent f, _ => saveAt s.sched a.core (blockedFrame f) frames
  | [], .waitForChild target caller f, _ =>
    if s.sched.waitOutcome target caller = .mustBlock then
      saveAt s.sched a.core (blockedFrame f) frames
    else frames
  | [], .killScan target _, _ =>
    if s.sched.owningCore target = none then bereaveAt s.sched target .killed frames else frames
  | [], .finalize pid status, _ => bereaveAt s.sched pid status frames
  | [], .fromElf _ child _, .image entry _ => initialAt child entry frames
  | [], .bootSpawn pid _ _, .image entry _ => initialAt pid entry frames
  | _, _, _ => frames

/-- Every process finds its own frame in the storage of its index. -/
structure Stored (s : State E) (frames : TrapFrames) : Prop where
  records : ∀ p P i, s.sched.view p = .occupied P → p.slot = some i → frames i = P.trapFrame
  child : ∀ c P i, (s.cores c).main.child = some P → P.pid.slot = some i → frames i = P.trapFrame

section Writes

variable {c : CoreId} {p q : Pid} {P : Process E} {frames : TrapFrames} {i : Fin maxProcesses}
  {sched : Inner E} {result : WakeResult} {status : ExitStatus}

theorem eq_of_slot (hp : sched.view p ≠ .empty) (hq : sched.view q ≠ .empty) (hpi : p.slot = some i)
    (hqi : q.slot = some i) : p = q := by
  obtain ⟨j, hj, hpid⟩ := slot_of_view hp
  obtain ⟨k, hk, hqid⟩ := slot_of_view hq
  cases hpi.symm.trans hj
  cases hqi.symm.trans hk
  rw [hpid, hqid]

theorem processes_of_view (hP : sched.view p = .occupied P) (hi : p.slot = some i) :
    sched.processes i = .occupied P := by
  obtain ⟨j, hj, hpid, -⟩ := slot_of_eq hP
  cases hi.symm.trans hj
  rw [← view_pidAt, ← hpid, hP]

theorem applyAt_self (hP : sched.view p = .occupied P) (hi : p.slot = some i)
    (hframe : frames i = P.trapFrame) :
    applyAt sched p result frames i = (wakenRecord P result).trapFrame := by
  unfold applyAt wakenRecord
  rw [occupiedMut_eq_some.mpr hP, hi]
  by_cases hblocked : P.state = .blocked
  · simp [hblocked, hframe, applyWakeResult]
  · simp [hblocked, hframe]

theorem bereaveAt_absent (hlive : ∀ Q, sched.view q ≠ .occupied Q) (hne : sched.view q ≠ .empty) :
    bereaveAt sched q status frames = frames := by
  obtain ⟨j, hj, hqid⟩ := slot_of_view hne
  have hproc : ∀ Q, sched.processes j ≠ .occupied Q := by
    intro Q hQ
    exact hlive Q (by rw [hqid, view_pidAt, hQ])
  cases hcase : sched.processes j with
  | occupied Q => exact absurd hcase (hproc Q)
  | _ => simp only [bereaveAt, hj, hcase]

theorem applyAt_of_ne (hp : sched.view p ≠ .empty) (hi : p.slot = some i)
    (hne : p = q → ∀ Q, sched.view q ≠ .occupied Q) : applyAt sched q result frames i = frames i := by
  cases hQ : sched.occupiedMut q with
  | none => simp only [applyAt, hQ]
  | some Q =>
    have hview := occupiedMut_eq_some.mp hQ
    cases hj : q.slot with
    | none => simp only [applyAt, hQ, hj]
    | some j =>
      have hij : i ≠ j := by
        rintro rfl
        exact hne (eq_of_slot hp (by rw [hview]; simp) hi hj) Q hview
      simp only [applyAt, hQ, hj]
      split
      · rw [update_of_ne hij]
      · rfl

theorem saveAt_self (hc : sched.current c = some p)
    (hP : sched.view p = .occupied P) (hi : p.slot = some i) :
    saveAt sched c write frames i = write P := by
  simp [saveAt, hc, hi, processes_of_view hP hi]

theorem saveAt_of_ne (hc : sched.current c = some q)
    (hQ : sched.view q = .occupied Q) (hp : sched.view p ≠ .empty) (hi : p.slot = some i)
    (hne : p ≠ q) : saveAt sched c write frames i = frames i := by
  obtain ⟨j, hj, -⟩ := slot_of_eq hQ
  have hij : i ≠ j := by
    rintro rfl
    exact hne (eq_of_slot hp (by rw [hQ]; simp) hi hj)
  simp [saveAt, hc, hj, processes_of_view hQ hj, update_of_ne hij]

theorem initialAt_self {entry : UInt64} (hi : p.slot = some i) :
    initialAt p entry frames i = TrapFrame.initialUserFrame entry userStackTop := by
  simp [initialAt, hi]

theorem initialAt_of_ne {entry : UInt64} (hp : sched.view p ≠ .empty)
    (hq : q.slot.isSome → sched.view q ≠ .empty) (hi : p.slot = some i) (hne : p ≠ q) :
    initialAt q entry frames i = frames i := by
  cases hj : q.slot with
  | none => simp only [initialAt, hj]
  | some j =>
    have hij : i ≠ j := by
      rintro rfl
      exact hne (eq_of_slot hp (hq (by rw [hj]; rfl)) hi hj)
    simp only [initialAt, hj, update_of_ne hij]

theorem bereaveAt_eq (hsound : sched.table.Sound) (hQ : sched.view q = .occupied Q)
    (hp : sched.view p ≠ .empty) (hi : p.slot = some i) :
    bereaveAt sched q status frames i =
      if Q.waitWaiter = some p then applyAt sched p (.waitCompleted status) frames i else frames i := by
  obtain ⟨j, hj, hqid, -⟩ := slot_of_eq hQ
  have hview : ∀ r, r ≠ q → (sched.setSlot j .empty).view r = sched.view r := by
    intro r hr
    rw [view_setSlot, ← hqid, if_neg hr]
  cases hwaiter : Q.waitWaiter with
  | none => simp [bereaveAt, hj, processes_of_view hQ hj, hwaiter]
  | some w =>
    have hwq := hsound.waiter_ne_self hQ w hwaiter
    simp only [bereaveAt, hj, processes_of_view hQ hj, hwaiter]
    have hocc : (sched.setSlot j .empty).occupiedMut w = sched.occupiedMut w := by
      rw [occupiedMut_eq, occupiedMut_eq, hview w hwq]
    have happly : applyAt (sched.setSlot j .empty) w (.waitCompleted status) frames =
        applyAt sched w (.waitCompleted status) frames := by
      unfold applyAt
      rw [hocc]
    rw [happly]
    by_cases hpw : w = p
    · rw [hpw, if_pos rfl]
    · rw [if_neg fun h ↦ hpw (Option.some.inj h)]
      exact applyAt_of_ne hp hi fun h ↦ absurd h.symm hpw

end Writes

section Steps

variable {s s' b : State E} {a : Action E} {c : CoreId} {p q : Pid} {P P' : Process E}
  {frames : TrapFrames} {i : Fin maxProcesses} {result : WakeResult} {status : ExitStatus}
  {m : Main E}

theorem stores_wakes {x : Errand E} {rest : List (Errand E)} {notes : List (Event E)}
    (herr : (s.cores a.core).errands = x :: rest) (hwakes : x.Wakes s q result notes) :
    s.stores a frames = applyAt s.sched q result frames := by
  cases hwakes <;> simp only [stores, herr]

theorem Stored.kept (hst : s.Stored frames) (hsame : s.stores a frames = frames)
    (hP : s.sched.view p = .occupied P) (hframe : P'.trapFrame = P.trapFrame)
    (hi : p.slot = some i) : s.stores a frames i = P'.trapFrame := by
  rw [hsame, hframe]
  exact hst.records p P i hP hi

theorem Stored.init (config : BootConfig E) (frames : TrapFrames) :
    (State.init config).Stored frames := by
  refine ⟨fun p P i hP _ ↦ ?_, fun c P i hP _ ↦ ?_⟩
  · rw [show (State.init config).sched = Inner.init from rfl, Inner.view_init] at hP
    cases hP
  · simp only [State.init] at hP
    split at hP
    · cases hP
    · split at hP <;> cases hP

theorem Course.frame {x y : Saved} (h : s.Course c p x y) :
    y.frame = x.frame ∨ (∃ f, s.sched.current c = some p ∧ (s.cores c).main.saves = some f ∧
        (y.frame = f ∨ ∃ result, x.pending = some result ∧ y.frame = result.applyTo f)) ∨
      x.state = .blocked ∧ ∃ result, s.Completes c p result ∧ y.frame = result.applyTo x.frame := by
  cases h with
  | same | started _ | awaited _ => exact .inl rfl
  | @woken result h =>
    unfold Saved.waken
    split
    · rename_i hblocked
      exact .inr (.inr ⟨hblocked, result, h, rfl⟩)
    · exact .inl rfl
  | preempted _ hmain hc | blocked _ hmain hc _ =>
    exact .inr (.inl ⟨_, hc, by rw [hmain]; rfl, .inl rfl⟩)
  | stashed _ hmain hc hpending =>
    exact .inr (.inl ⟨_, hc, by rw [hmain]; rfl, .inr ⟨_, hpending, rfl⟩⟩)
  | waits h hc => exact .inr (.inl ⟨_, hc, by rw [h.hmain]; rfl, .inl rfl⟩)

theorem stores_terminates (h : s.terminates a.core = some (q, status)) :
    s.stores a frames = bereaveAt s.sched q status frames := by
  obtain ⟨herr, hmain | ⟨f, hmain, howner, rfl⟩⟩ := terminates_cases h
  · simp only [stores, herr, hmain]
  · simp only [stores, herr, hmain, howner, if_true]

theorem Stored.rewritten {sched : Inner E} {Q Q' : Process E} (hst : s.Stored frames)
    (hsame : s.stores a frames = frames) (hQ : s.sched.view q = .occupied Q)
    (hP' : sched.view p = .occupied P') (hi : p.slot = some i)
    (hset : ∀ r, sched.view r = if r = q then .occupied Q' else s.sched.view r)
    (hframe : Q'.trapFrame = Q.trapFrame) : s.stores a frames i = P'.trapFrame := by
  rw [hset] at hP'
  split at hP'
  · rename_i hpq
    cases hP'
    subst hpq
    exact hst.kept hsame hQ hframe hi
  · exact hst.kept hsame hP' rfl hi

section

variable [Fintype E]

theorem stores_begun {f : TrapFrame} (h : s.Inv False) (hview : s.sched.view q = .reserved)
    (hb : s.begun a q = some f) (hi : q.slot = some i) : s.stores a frames i = f := by
  unfold begun at hb
  split at hb
  · split at hb
    · rename_i hc
      obtain ⟨Q, hQ, -⟩ := h.scene.sound.running _ q hc
      cases hview.symm.trans hQ
    · cases hb
  all_goals first
    | (rename_i herr hmain hchoice
       split at hb
       · rename_i hq
         cases hb
         simp only [stores, herr, hmain, hchoice, hq]
         exact initialAt_self hi
       · cases hb)
    | cases hb

end

theorem Stored.spared (hst : s.Stored frames) (hc : s.sched.current c = some q)
    (hQ : s.sched.view q = .occupied Q) (hP : s.sched.view p = .occupied P) (hi : p.slot = some i)
    (hne : p ≠ q) : saveAt s.sched c write frames i = P.trapFrame := by
  rw [saveAt_of_ne hc hQ (by rw [hP]; simp) hi hne]
  exact hst.records p P i hP hi

theorem Stored.woken {x : Errand E} {rest : List (Errand E)} {notes : List (Event E)}
    (hst : s.Stored frames) (herr : (s.cores a.core).errands = x :: rest)
    (hwakes : x.Wakes s q result notes)
    (hP' : (s.sched.wakeBlockedProcessLocked q result).view p = .occupied P')
    (hi : p.slot = some i) : s.stores a frames i = P'.trapFrame := by
  rw [stores_wakes herr hwakes]
  rcases view_wake_occupied hP' with ⟨rfl, P, hP, rfl⟩ | ⟨hpq, hP⟩
  · exact applyAt_self hP hi (hst.records p P i hP hi)
  · rw [applyAt_of_ne (by rw [hP]; simp) hi fun h ↦ absurd h hpq]
    exact hst.records p P' i hP hi

variable [Fintype E]

theorem stores_loads (h : s.Inv False) (herr : (s.cores a.core).errands = [])
    (hmain : (∃ caller f, (s.cores a.core).main = .fromElf caller q f) ∨
      ∃ boot rest, (s.cores a.core).main = .bootSpawn q boot rest)
    (hP : s.sched.view p = .occupied P) (hi : p.slot = some i) :
    s.stores a frames i = frames i := by
  have hload : ∀ entry, initialAt q entry frames i = frames i := by
    intro entry
    have hreserved : q.slot.isSome → s.sched.view q = .reserved := by
      intro hq
      obtain ⟨j, hj⟩ := Option.isSome_iff_exists.mp hq
      refine (h.reserved (c := a.core) rfl ?_ hj).2
      rcases hmain with ⟨caller, f, hmain⟩ | ⟨boot, rest, hmain⟩ <;> (rw [hmain]; rfl)
    refine initialAt_of_ne (by rw [hP]; simp) (fun hq ↦ by rw [hreserved hq]; simp) hi ?_
    rintro rfl
    cases hP.symm.trans (hreserved (by rw [hi]; rfl))
  cases hchoice : a.choice with
  | image entry frame =>
    rcases hmain with ⟨caller, f, hmain⟩ | ⟨boot, rest, hmain⟩ <;>
      (simp only [stores, herr, hmain, hchoice]; exact hload entry)
  | _ =>
    rcases hmain with ⟨caller, f, hmain⟩ | ⟨boot, rest, hmain⟩ <;>
      simp only [stores, herr, hmain, hchoice]

theorem Stored.next_spawn {f : TrapFrame} {sched : Inner E} (hst : s.Stored frames) (h : s.Inv False)
    (herr : (s.cores a.core).errands = []) (hmain : (s.cores a.core).main = .spawnSuspended P f)
    (hspawn : s.sched.spawnSuspended P = .ok sched) (hP' : sched.view p = .occupied P')
    (hi : p.slot = some i) : s.stores a frames i = P'.trapFrame := by
  have hsame : s.stores a frames = frames := by simp only [stores, herr, hmain]
  obtain ⟨-, -, htable, -⟩ := h.spawned hmain hspawn
  rw [← table_view, htable, Table.set_view] at hP'
  split at hP'
  · rename_i hpid
    cases hP'
    rw [hsame]
    exact hst.child a.core P i (by rw [hmain]; rfl) (hpid ▸ hi)
  · exact hst.kept hsame hP' rfl hi

theorem Stored.terminated (hst : s.Stored frames) (h : s.Inv False)
    (hends : s.terminates a.core = some (q, status)) (hne : s.sched.view q ≠ .empty)
    (hP' : (s.sched.finalize q status).1.view p = .occupied P') (hi : p.slot = some i) :
    s.stores a frames i = P'.trapFrame := by
  rw [stores_terminates hends]
  by_cases hlive : ∃ Q, s.sched.view q = .occupied Q
  · obtain ⟨Q, hQ⟩ := hlive
    obtain ⟨htable, -⟩ := finalize_spec status (finalizable h.scene.sound hQ)
    rw [← table_view, htable] at hP'
    obtain ⟨P, hP, hsaved⟩ := saved_finalize h.scene.sound hQ hP'
    rw [bereaveAt_eq h.scene.sound hQ (by rw [show s.sched.view p = _ from hP]; simp) hi]
    have hframe := congrArg Saved.frame hsaved
    split at hframe
    · rename_i hwaiter
      rw [if_pos hwaiter, applyAt_self hP hi (hst.records p P i hP hi)]
      rw [← saved_wakenRecord] at hframe
      exact hframe.symm
    · rename_i hwaiter
      rw [if_neg hwaiter]
      exact (hst.records p P i hP hi).trans hframe.symm
  · push Not at hlive
    rw [finalize_absent hlive hne] at hP'
    rw [bereaveAt_absent hlive hne]
    exact hst.records p P' i hP' hi

theorem stores_reserved (h : s.Inv False) (hview : s.sched.view q = .reserved)
    (hb : s.begun a q = none) (hi : q.slot = some i) : s.stores a frames i = frames i := by
  have hne : s.sched.view q ≠ .empty := by rw [hview]; simp
  have hdead : ∀ r, q = r → ∀ Q, s.sched.view r ≠ .occupied Q := by
    rintro r rfl Q hQ
    cases hview.symm.trans hQ
  have hsave : ∀ write, saveAt s.sched a.core write frames i = frames i := by
    intro write
    cases hc : s.sched.current a.core with
    | none => simp [saveAt, hc]
    | some r =>
      obtain ⟨Q, hQ, -⟩ := h.scene.sound.running _ r hc
      exact saveAt_of_ne hc hQ hne hi fun hqr ↦ hdead r hqr Q hQ
  have hbereave : ∀ {r status}, s.terminates a.core = some (r, status) → s.sched.view r ≠ .empty →
      bereaveAt s.sched r status frames i = frames i := by
    intro r status hends hr
    by_cases hlive : ∃ Q, s.sched.view r = .occupied Q
    · obtain ⟨Q, hQ⟩ := hlive
      rw [bereaveAt_eq h.scene.sound hQ hne hi]
      split
      · exact applyAt_of_ne hne hi (hdead q)
      · rfl
    · push Not at hlive
      rw [bereaveAt_absent hlive hr]
  have hload : ∀ {r entry}, (s.cores a.core).main.reserves = Main.unplaced r → r ≠ q →
      initialAt r entry frames i = frames i := by
    intro r entry hreserves hrq
    refine initialAt_of_ne hne (fun hr ↦ ?_) hi (Ne.symm hrq)
    obtain ⟨j, hj⟩ := Option.isSome_iff_exists.mp hr
    rw [(h.reserved rfl hreserves hj).2]
    simp
  generalize hout : s.stores a frames = out
  unfold stores at hout
  split at hout
  · exact hout ▸ applyAt_of_ne hne hi (hdead _)
  · exact hout ▸ applyAt_of_ne hne hi (hdead _)
  · exact hout ▸ applyAt_of_ne hne hi (hdead _)
  · exact hout ▸ hsave _
  · exact hout ▸ hsave _
  · split at hout
    · exact hout ▸ hsave _
    · rw [hout]
  · rename_i herr hmain
    split at hout
    · rename_i howner
      exact hout ▸ hbereave (terminates_kill herr hmain howner) (h.view_kill hmain)
    · rw [hout]
  · rename_i herr hmain
    obtain ⟨Q, hQ, -⟩ := h.scene.sound.running _ _ (h.current_of_caller hmain rfl)
    exact hout ▸ hbereave (terminates_exit herr hmain)
      (by rw [show s.sched.view _ = .occupied Q from hQ]; simp)
  · rename_i herr hmain hchoice
    refine hout ▸ hload (by rw [hmain]; rfl) fun hrq ↦ ?_
    simp [begun, herr, hmain, hchoice, hrq] at hb
  · rename_i herr hmain hchoice
    refine hout ▸ hload (by rw [hmain]; rfl) fun hrq ↦ ?_
    simp [begun, herr, hmain, hchoice, hrq] at hb
  · rw [hout]

theorem Stored.yielded (hst : s.Stored frames) (h : s.Inv False)
    (herr : (s.cores a.core).errands = []) (hmain : (s.cores a.core).main = m)
    (hyields : s.Yields a.core m b) (hP' : b.sched.table.view p = .occupied P')
    (hi : p.slot = some i) : s.stores a frames i = P'.trapFrame := by
  have hstows := h.stows hmain hyields p
  rw [show b.sched.view p = .occupied P' from hP'] at hstows
  generalize hslot : Slot.occupied P' = slot at hstows
  cases hstows with
  | same hother =>
    cases hyields with
    | tick | block =>
      obtain ⟨q, Q, hc, hQ, -, -⟩ := h.current_of_attached hmain rfl
      simp only [stores, herr, hmain]
      refine hst.spared hc hQ hslot.symm hi ?_
      rintro rfl
      obtain ⟨_, hm⟩ := hother hc
      cases hm
    | wait hwait =>
      obtain ⟨q, Q, hc, hQ, -, -⟩ := h.current_of_attached hmain rfl
      simp only [stores, herr, hmain, hwait, if_true]
      refine hst.spared hc hQ hslot.symm hi ?_
      rintro rfl
      obtain ⟨_, hm⟩ := hother hc
      cases hm
    | evict _ _ _ | next | idle =>
      exact hst.kept (by simp only [stores, herr, hmain]) hslot.symm rfl hi
  | preempted hc hP =>
    cases hslot
    simp only [stores, herr, hmain]
    exact saveAt_self hc hP hi
  | @blocked P f hc hP =>
    cases hslot
    simp only [stores, herr, hmain]
    rw [saveAt_self hc hP hi]
    cases hpending : P.pendingWake <;>
      simp [blockedFrame, blockedRecord, hpending, applyWakeResult]
  | waits hc hP hnone hwait =>
    cases hslot
    simp only [stores, herr, hmain, hwait, if_true]
    rw [saveAt_self hc hP hi]
    simp [blockedFrame, hnone]
  | awaited hc hP hne hwait =>
    obtain ⟨W, hW, -⟩ := h.scene.sound.running a.core _ hc
    cases hslot
    simp only [stores, herr, hmain, hwait, if_true]
    exact hst.spared hc hW hP hi hne

variable [DecidableEq E]

section

variable (hst : s.Stored frames) (h : s.Inv False)

include hst h

theorem Stored.next_child (hs : s.next a = some s') (hP : (s'.cores c).main.child = some P)
    (hi : P.pid.slot = some i) : s.stores a frames i = P.trapFrame := by
  rcases h.child_cases hs (fun _ ↦ by rw [hi]; rfl) hP with ⟨hd, hview, hb⟩ | ⟨-, hview, hb⟩
  · rw [stores_reserved h hview hb hi]
    exact hst.child c P i hd hi
  · exact stores_begun h hview hb hi

theorem Stored.next_bootSpawn {boot : BootProcess E} {rest : List (BootProcess E)}
    (herr : (s.cores a.core).errands = []) (hmain : (s.cores a.core).main = .bootSpawn q boot rest)
    (hs : s.next a = some s') (hP' : s'.sched.view p = .occupied P') (hi : p.slot = some i) :
    s.stores a frames i = P'.trapFrame := by
  obtain ⟨entry, frame, sched, -, hspawn, rfl⟩ := bootSpawn_of_next herr hmain hs
  obtain ⟨-, hreserved, -⟩ := h.booted hmain hspawn
  by_cases hpq : p = q
  · subst hpq
    exact stores_begun h hreserved (h.frame_bootSpawn herr hmain hs hP') hi
  · rw [view_spawn hspawn (show s.sched.view q ≠ _ by rw [hreserved]; simp),
      if_neg (show p ≠ (boot.process q frame entry).pid from hpq)] at hP'
    rw [stores_loads h herr (.inr ⟨_, _, hmain⟩) hP' hi]
    exact hst.records p P' i hP' hi

theorem Stored.next_records (hs : s.next a = some s') (hP' : s'.sched.view p = .occupied P')
    (hi : p.slot = some i) : s.stores a frames i = P'.trapFrame := by
  have hturn := next_turn hs
  cases hturn with
  | pollSend herr _ htrade | pollRecv herr _ htrade | wakeReceiver herr _ htrade
  | takeWaitingReceiver herr _ htrade =>
    rw [htrade.sched] at hP'
    exact hst.kept (by simp only [stores, herr]) hP' rfl hi
  | trySend herr hmain _ htrade | tryRecv herr hmain _ htrade =>
    rw [htrade.sched] at hP'
    exact hst.kept (by simp only [stores, herr, hmain]) hP' rfl hi
  | tasks herr _ | orphans herr | dropBox herr | clearStackBusy herr =>
    exact hst.kept (by simp only [stores, herr]) hP' rfl hi
  | stay herr hmain hstay =>
    cases hstay with
    | noImage =>
      rw [stores_loads h herr (.inl ⟨_, _, hmain⟩) hP' hi]
      exact hst.records p P' i hP' hi
    | waitRefused hwait =>
      exact hst.kept (by simp [stores, herr, hmain, hwait]) hP' rfl hi
    | killOwned howner =>
      exact hst.kept (by simp [stores, herr, hmain, howner]) hP' rfl hi
    | _ => exact hst.kept (by simp only [stores, herr, hmain]) hP' rfl hi
  | load herr hmain _ _ =>
    rw [stores_loads h herr (.inl ⟨_, _, hmain⟩) hP' hi]
    exact hst.records p P' i hP' hi
  | wake herr hwakes => exact hst.woken herr hwakes hP' hi
  | bootAllocate herr hmain | allocate herr hmain =>
    exact hst.kept (by simp only [stores, herr, hmain]) (view_allocate_occupied hP') rfl hi
  | bootSpawn herr hmain _ _ => exact hst.next_bootSpawn h herr hmain hs hP' hi
  | @record call pid f P herr hmain hP =>
    have hview := occupiedMut_eq_some.mp hP
    refine hst.rewritten (by simp only [stores, herr, hmain]) hview ?_ hi
      (fun r ↦ view_setProcess hview (callWrites call P) r) (by cases call <;> rfl)
    have hsched := (recordResolve_fields (f := f)
      (s := s.withSched (s.sched.setProcess pid (callWrites call P))) P call).2.2.1
    exact (congrArg (view · p) hsched).symm.trans hP'
  | release herr hmain =>
    exact hst.kept (by simp only [stores, herr, hmain]) (view_release_occupied hP') rfl hi
  | spawn herr hmain hspawn => exact hst.next_spawn h herr hmain hspawn hP' hi
  | grant herr hmain hP _ _ =>
    have hview := occupiedMut_eq_some.mp hP
    exact hst.rewritten (by simp only [stores, herr, hmain]) hview hP' hi
      (fun r ↦ view_setProcess hview _ r) rfl
  | start herr hmain hstart =>
    obtain ⟨P, hP, -, -, rfl⟩ := startChild_ok hstart
    exact hst.rewritten (by simp only [stores, herr, hmain]) hP hP' hi
      (fun r ↦ view_setProcess hP _ r) rfl
  | @collect target caller f status herr hmain hwait =>
    obtain ⟨-, htable, -⟩ := waitForChild_done hwait
    replace hP' : (s.sched.waitForChild target caller).table.view p = .occupied P' := hP'
    rw [htable, Table.set_view] at hP'
    split at hP'
    · cases hP'
    · exact hst.kept (by simp [stores, herr, hmain, hwait]) hP' rfl hi
  | kill herr hmain howner _ =>
    exact hst.terminated h (terminates_kill herr hmain howner) (h.view_kill hmain) hP' hi
  | exit herr hmain =>
    obtain ⟨Q, hQ, -⟩ := h.scene.sound.running _ _ (h.current_of_caller hmain rfl)
    exact hst.terminated h (terminates_exit herr hmain)
      (by rw [show s.sched.view _ = .occupied Q from hQ]; simp) hP' hi
  | @dispatch m b pid popped sched P errands herr hmain hyields hpop hswitch _ =>
    obtain ⟨P₀, rest, -, hP₀, rfl, -, htable, -⟩ := table_dispatch hpop hswitch
    replace hP' : sched.table.view p = .occupied P' := hP'
    rw [htable, Table.dispatch_view] at hP'
    split at hP'
    · rename_i hpid
      cases hP'
      subst hpid
      exact (hst.yielded h herr hmain hyields hP₀ hi).trans rfl
    · exact hst.yielded h herr hmain hyields hP' hi
  | @abandon m b popped errands herr hmain hyields hpop _ =>
    obtain ⟨htable, -⟩ := table_pop_none hpop
    replace hP' : popped.table.view p = .occupied P' := hP'
    exact hst.yielded h herr hmain hyields (htable ▸ hP') hi
  | resumeTick _ hmain hpre hpop => exact absurd hpop (h.preempted_pop hmain hpre)
  | @rest halts m popped errands herr hmain hpop _ _ =>
    obtain ⟨htable, -⟩ := table_pop_none hpop
    replace hP' : popped.table.view p = .occupied P' := hP'
    exact hst.yielded h herr hmain .idle (htable ▸ hP') hi
  | bootDone herr hmain | trap herr hmain _ | leave herr hmain | ignoreIpi herr hmain
  | sendReturn herr hmain | recvReturn herr hmain | spawnFail herr hmain _ | request herr hmain
  | withdraw herr hmain | mark herr hmain _ =>
    exact hst.kept (by simp only [stores, herr, hmain]) hP' rfl hi

theorem Stored.next (hs : s.next a = some s') : s'.Stored (s.stores a frames) :=
  ⟨fun _ _ _ hP' hi ↦ hst.next_records h hs hP' hi, fun _ _ _ hP hi ↦ hst.next_child h hs hP hi⟩

end

theorem Inv.frame_kept (h : s.Inv False) (hs : s.next a = some s') (hP : s.sched.view p = .occupied P)
    (hP' : s'.sched.view p = .occupied P') : P'.trapFrame = P.trapFrame ∨
      (∃ f, s.sched.current a.core = some p ∧ (s.cores a.core).main.saves = some f ∧
        (P'.trapFrame = f ∨ ∃ result, P.pendingWake = some result ∧
          P'.trapFrame = result.applyTo f)) ∨
      P.state = .blocked ∧ ∃ result, s.Completes a.core p result ∧
        P'.trapFrame = result.applyTo P.trapFrame := by
  cases h.fared (next_turn hs) hP' with
  | spawned _ _ _ hview | booted _ _ _ hview => cases hP.symm.trans hview
  | went hP₀ hcourse =>
    cases hP.symm.trans hP₀
    exact hcourse.frame
  | dispatched hP₀ hcourse _ hsaved _ _ _ =>
    cases hP.symm.trans hP₀
    rw [show P'.trapFrame = _ from congrArg Saved.frame hsaved]
    exact hcourse.frame

end Steps

def context (s : State E) (a : Action E) (s' : State E) (x : Journal E × TrapFrames) :
    Journal E × TrapFrames :=
  (s.journal a s' x.1, s.stores a x.2)

variable [DecidableEq E]

/-- Registers survive. The storage of an index holds the frame of the process there. While a
process lives only its own trap and the result of its own wait are written to it. A process goes on
with the frame it trapped with, or was created with, and with the result that ended its wait if the
trap was a call that waits. -/
structure Preserved (s : State E) (g : Journal E) (frames : TrapFrames) : Prop where
  stored : ∀ p P i, s.sched.view p = .occupied P → p.slot = some i → frames i = P.trapFrame
  kept : ∀ a s' p P P' i, s.next a = some s' → s.sched.view p = .occupied P →
    s'.sched.view p = .occupied P' → p.slot = some i →
    s.stores a frames i = frames i ∨
      (∃ f, s.sched.current a.core = some p ∧ (s.cores a.core).main.saves = some f ∧
        (s.stores a frames i = f ∨ ∃ result, P.pendingWake = some result ∧
          s.stores a frames i = result.applyTo f)) ∨
      P.state = .blocked ∧ ∃ result, s.Completes a.core p result ∧
        s.stores a frames i = result.applyTo (frames i)
  resumes : ∀ a s' p f, s.next a = some s' → s.Dispatches a.core s' p f →
    (∃ i, p.slot = some i ∧ s.stores a frames i = f) ∧
    match (s.journal a s' g p).place with
    | none => f = (s.journal a s' g p).trap
    | some place => (∃ P', s'.sched.view p = .occupied P' ∧ place.Asked P' (s.journal a s' g p).trap) ∧
      ∃ result, (s.journal a s' g p).outcome = some result ∧ place.Admits result ∧
        f = result.applyTo (s.journal a s' g p).trap

section Runs

variable [Fintype E] {s : State E} {a : Action E} {frames : TrapFrames} {g : Journal E}

theorem preserved_of_reach (config : BootConfig E) (g₀ g : Journal E) (frames₀ frames : TrapFrames)
    (s : State E) (h : Reach (noted next context) (fun x a ↦ x.1.NoWrap a)
      (init config, g₀, frames₀) (s, g, frames)) : s.Preserved g frames := by
  have hbase : ∀ t, Reach next State.NoWrap (init config) t →
      t.Inv False ∧ t.Housed ∧ t.Aims :=
    fun t ht ↦ ⟨inv_of_noWrap (fun _ _ hok ↦ hok) ht, (lawful_of_reach ht).1, aims_of_reach ht⟩
  obtain ⟨hinv, hhoused, haims⟩ := hbase s h.forget
  obtain ⟨hfits, hplaced, hst⟩ : s.Fits g ∧ s.Placed g ∧ s.Stored frames := by
    refine Reach.noted_invariant (I := fun t x ↦ t.Fits x.1 ∧ t.Placed x.1 ∧ t.Stored x.2) hbase
      ?_ ?_ h
    · exact ⟨Fits.init config g₀, Placed.init config g₀, Stored.init config frames₀⟩
    · intro t a u x ⟨hinv, hhoused, haims⟩ ⟨hfits, hplaced, hst⟩ hwrap hs
      exact ⟨hfits.next hinv hwrap hs, hplaced.next hfits hinv haims hhoused hs, hst.next hinv hs⟩
  refine ⟨hst.records, fun a s' p P P' i hs hP hP' hi ↦ ?_, fun a s' p f hs hd ↦ ?_⟩
  · rw [hst.records p P i hP hi, (hst.next hinv hs).records p P' i hP' hi]
    exact hinv.frame_kept hs hP hP'
  · obtain ⟨P, x, hpicks⟩ := hinv.picks hs hd
    obtain ⟨P', hP', hsaved⟩ := hpicks.record
    obtain ⟨i, hi, -⟩ := slot_of_eq hP'
    have hframe : P'.trapFrame = f := by
      cases hd.main.symm.trans hpicks.main
      exact congrArg Saved.frame hsaved
    refine ⟨⟨i, hi, ((hst.next hinv hs).records p P' i hP' hi).trans hframe⟩, ?_⟩
    obtain ⟨hticket, hsome⟩ := hfits.returns hinv hs hd
    cases hplace : (s.journal a s' g p).place with
    | none =>
      rw [hplace] at hsome
      have hnone := Option.isSome_eq_false_iff.mp hsome.symm |> Option.isNone_iff_eq_none.mp
      simpa only [Ticket.frame, hnone] using hticket
    | some place =>
      rw [hplace] at hsome
      obtain ⟨result, hresult⟩ := Option.isSome_iff_exists.mp hsome.symm
      refine ⟨⟨P', hP', hplaced.next hfits hinv haims hhoused hs p P' hP' place hplace⟩, result,
        hresult, hfits.journal_outcome hinv hpicks.hP hplace hresult, ?_⟩
      exact hticket.trans (Ticket.frame_of_outcome hresult)

end Runs

def frameOf (s : State E) (p : Pid) : Option TrapFrame :=
  (s.sched.occupiedMut p).map Process.trapFrame

def stateOf (s : State E) (p : Pid) : Option ProcessState :=
  (s.sched.occupiedMut p).map Process.state

def resumeChild : List (Action Unit) := wakeEarly ++ [go 1]

theorem preserved_of_reach_resumeChild :
    ∃ s g frames, Reach (noted next context) (fun x a ↦ x.1.NoWrap a)
        (init soloEndpoint, (fun _ ↦ .fresh userFrame), fun _ ↦ userFrame) (s, g, frames) ∧
      s.sched.current 1 = some twin ∧ (g twin).outcome = some (recvCompleted ⟨0, #v[0, 0, 0, 0]⟩) ∧
      s.Preserved g frames := by
  obtain ⟨⟨s, g, frames⟩, hreach, hcurrent, houtcome⟩ : ∃ x, Reach (noted next context)
      (fun x a ↦ x.1.NoWrap a)
      (init soloEndpoint, (fun _ ↦ .fresh userFrame), fun _ ↦ userFrame) x ∧
        x.1.sched.current 1 = some twin ∧
        (x.2.1 twin).outcome = some (recvCompleted ⟨0, #v[0, 0, 0, 0]⟩) :=
    exists_of_run resumeChild (by decide +kernel) fun _ _ h ↦ h
  exact ⟨s, g, frames, hreach, hcurrent, houtcome,
    preserved_of_reach soloEndpoint _ g _ frames s hreach⟩

def tickBehind : Action Unit := ⟨3, .trap .timer { userFrame with rbx := 9 }⟩

def reuseBehind : List (Action Unit) :=
  killAfterExit ++ serve 0 sysWait (Pid.new 2 2).raw 4 ++ spawnOn 0 5 ++
    spawnAndStart 6 (Pid.new 3 1) ++ [tickBehind]

/-- After a wrapped counter the tick of a core that still runs a process long gone overwrites the
frame of the new process in its slot, which has never run. -/
theorem frame_overwritten : ∃ s s', Reach next (fun _ _ ↦ True) (init soloEndpoint) s ∧
    s.next (go 3) = some s' ∧ s.stateOf (Pid.new 2 3) = some .suspended ∧
    s.frameOf (Pid.new 2 3) = some (TrapFrame.initialUserFrame 0 userStackTop) ∧
    s'.frameOf (Pid.new 2 3) = some { userFrame with rbx := 9 } := by
  obtain ⟨s, hreach, hstate, hbefore, hafter⟩ : ∃ s,
      Reach next (fun _ _ ↦ True) (init soloEndpoint) s ∧
      s.stateOf (Pid.new 2 3) = some .suspended ∧
      s.frameOf (Pid.new 2 3) = some (TrapFrame.initialUserFrame 0 userStackTop) ∧
      (s.next (go 3)).bind (·.frameOf (Pid.new 2 3)) = some { userFrame with rbx := 9 } :=
    exists_of_runWrapped 1 leaveTraces reuseBehind (by decide +kernel) fun _ h ↦ h
  obtain ⟨s', hs', hafter⟩ := Option.bind_eq_some_iff.mp hafter
  exact ⟨s, s', hreach, hs', hstate, hbefore, hafter⟩

end State

end Tarnos.Kernel
