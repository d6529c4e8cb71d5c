import Tarnos.Kernel.Spawning
import Tarnos.Kernel.Statuses

namespace Tarnos.Kernel

open Abi Arch Kcore Tarnos.Task Foundation.Transition Function Inner

variable {E : Type}

structure Ledger where
  allocated : Fin maxProcesses → ℕ
  issued : List Pid

def Ledger.blank : Ledger := ⟨fun _ ↦ 0, []⟩

namespace State

def ledger (s : State E) (a : Action E) (x : Ledger) : Ledger :=
  match s.allocates a, s.sched.freeSlot s.stackBusy with
  | true, some i => ⟨update x.allocated i (x.allocated i + 1),
      (s.sched.allocatePid s.stackBusy).1 :: x.issued⟩
  | _, _ => x

def accounts [DecidableEq E] (s : State E) (a : Action E) (_ : State E) (x : Ledger × Obituaries) :
    Ledger × Obituaries :=
  (s.ledger a x.1, s.obituary a x.2)

section Steps

variable {s s' : State E} {a : Action E} {c d : CoreId} {p : Pid} {x : Ledger}

theorem ledger_allocates {i : Fin maxProcesses} (h : s.allocates a = true)
    (hfree : s.sched.freeSlot s.stackBusy = some i) : s.ledger a x =
      ⟨update x.allocated i (x.allocated i + 1), s.sched.freshPid i :: x.issued⟩ := by
  rw [ledger, h, hfree, allocatePid_fst hfree]

theorem ledger_mono (i : Fin maxProcesses) : x.allocated i ≤ (s.ledger a x).allocated i := by
  unfold ledger
  split
  · rename_i j _ _
    by_cases hij : i = j
    · simp [hij]
    · simp [hij]
  · exact le_rfl

/-- The ledger agrees with the generation counters, and no pid has been issued twice. -/
structure Counted (s : State E) (x : Ledger) : Prop where
  generations : ∀ i, (s.sched.generations i).toNat = x.allocated i
  issued : ∀ p ∈ x.issued, s.sched.issued p
  nodup : x.issued.Nodup

theorem Counted.init (config : BootConfig E) : (init config).Counted .blank :=
  ⟨fun _ ↦ rfl, by simp [Ledger.blank], List.nodup_nil⟩

theorem allocating_of_allocates (h : s.allocates a = true) : s.Allocating a.core := by
  unfold allocates at h
  split at h
  · rename_i herr hmain
    exact ⟨herr, .inl ⟨_, _, hmain⟩⟩
  · cases h
  · rename_i herr hmain _
    exact ⟨herr, .inr ⟨_, _, hmain⟩⟩
  · cases h

theorem Counted.noWrap (h : s.Counted x) (hfew : ∀ i, (s.ledger a x).allocated i < 2 ^ 32) :
    s.NoWrap a := by
  intro hallocates i hfree
  have hi := hfew i
  rw [ledger_allocates hallocates hfree] at hi
  rw [h.generations]
  simpa using hi

theorem Counted.allocate (h : s.Counted x) (hwrap : s.NoWrap a) (hallocates : s.allocates a = true)
    (hsched : s'.sched = (s.sched.allocatePid s.stackBusy).2) : s'.Counted (s.ledger a x) := by
  cases hfree : s.sched.freeSlot s.stackBusy with
  | none =>
    rw [Inner.allocatePid_full hfree] at hsched
    rw [ledger, hallocates, hfree]
    exact ⟨hsched ▸ h.generations, hsched ▸ h.issued, h.nodup⟩
  | some i =>
    have hi := hwrap hallocates i hfree
    rw [ledger_allocates hallocates hfree]
    refine ⟨fun j ↦ ?_, fun p hp ↦ ?_, List.nodup_cons.mpr ⟨fun hmem ↦ ?_, h.nodup⟩⟩
    · rw [hsched, Inner.allocatePid, hfree]
      by_cases hji : j = i
      · subst hji
        simp only [update_self]
        rw [Inner.generation_succ hi, h.generations]
      · simp only [update_of_ne hji]
        exact h.generations j
    · rw [hsched, Inner.issued_allocatePid hfree hi]
      exact (List.mem_cons.mp hp).imp id (h.issued p)
    · exact Inner.not_issued_freshPid hi (h.issued _ hmem)

variable [DecidableEq E]

/-- Only `allocate_pid` moves a generation counter. -/
theorem Turn.generations (hturn : s.Turn c s') (hno : ¬ s.Allocating c) :
    s'.sched.generations = s.sched.generations := by
  cases hturn.custody with
  | rest _ hkept _ _ _ => exact hkept.generations
  | reserve _ _ _ _ _ _ hcalls => exact absurd hcalls hno
  | load hsched _ _ _ _ | resolve _ _ _ _ _ hsched _ _ _ _ => rw [hsched]
  | release _ hsched _ _ =>
    rw [hsched]
    unfold releaseReservation
    repeat' split
    all_goals rfl
  | grant _ hP _ _ hsched _ _ =>
    obtain ⟨i, -, heq⟩ := setProcess_eq (occupiedMut_eq_some.mp hP) _
    rw [hsched, heq]
    rfl
  | spawn _ _ _ hsched _ _ | seed _ _ hsched _ _ =>
    rw [hsched]
    rfl

theorem sched_of_allocating (h : s.Allocating a.core) (hs : s.next a = some s') :
    s.allocates a = true ∧ s'.sched = (s.sched.allocatePid s.stackBusy).2 ∨
      s.allocates a = false ∧ s'.sched = s.sched := by
  have hstep := step_of_next hs
  unfold step at hstep
  obtain ⟨herr, ⟨boot, rest, hmain⟩ | ⟨caller, f, hmain⟩⟩ := h
  · simp only [herr, hmain, mainStep] at hstep
    cases hstep
    exact .inl ⟨by simp [allocates, herr, hmain], rfl⟩
  · simp only [herr, hmain, mainStep, allocatePid] at hstep
    split at hstep
    · rename_i hchoice
      cases hstep
      exact .inr ⟨by simp [allocates, herr, hmain, hchoice], rfl⟩
    · rename_i hchoice
      cases hstep
      refine .inl ⟨?_, rfl⟩
      simp only [allocates, herr, hmain]

theorem Counted.next (h : s.Counted x) (hwrap : s.NoWrap a) (hs : s.next a = some s') :
    s'.Counted (s.ledger a x) := by
  have hsame : s.allocates a = false → s'.sched.generations = s.sched.generations →
      s'.Counted (s.ledger a x) := by
    intro hno hgens
    have hissued : s'.sched.issued = s.sched.issued := by
      unfold Inner.issued
      rw [hgens]
    rw [show s.ledger a x = x by simp [ledger, hno]]
    exact ⟨hgens ▸ h.generations, hissued ▸ h.issued, h.nodup⟩
  by_cases hallocating : s.Allocating a.core
  · rcases sched_of_allocating hallocating hs with ⟨hallocates, hsched⟩ | ⟨hno, hsched⟩
    · exact h.allocate hwrap hallocates hsched
    · exact hsame hno (by rw [hsched])
  · refine hsame ?_ ((next_turn hs).generations hallocating)
    exact Bool.eq_false_iff.mpr fun hallocates ↦ hallocating (allocating_of_allocates hallocates)

theorem counted_of_few {config : BootConfig E} {d : Obituaries}
    (h : Reach (noted next accounts) (fun _ _ ↦ True) (init config, .blank, fun _ ↦ .blank) (s, x, d))
    (hfew : ∀ i, x.allocated i < 2 ^ 32) : Reach (noted next accounts) (fun y a ↦ y.1.NoWrap a)
      (init config, .blank, fun _ ↦ .blank) (s, x, d) ∧ s.Counted x := by
  refine Reach.invariant (t := (s, x, d)) (I := fun y ↦ (∀ i, y.2.1.allocated i < 2 ^ 32) →
    Reach (noted next accounts) (fun y a ↦ y.1.NoWrap a)
      (init config, .blank, fun _ ↦ .blank) y ∧ y.1.Counted y.2.1)
    (fun _ ↦ ⟨.refl, Counted.init config⟩) ?_ h hfew
  rintro ⟨t, y, e⟩ a ⟨u, z, e'⟩ ih - hstep hfew
  obtain ⟨hs, hnote⟩ := noted_eq_some hstep
  obtain ⟨rfl, rfl⟩ := Prod.mk.inj hnote
  obtain ⟨hreach, hcounted⟩ := ih fun i ↦ (ledger_mono i).trans_lt (hfew i)
  have hwrap := hcounted.noWrap hfew
  exact ⟨hreach.step hwrap hstep, hcounted.next hwrap hs⟩

end Steps

/-- The core ends its reservation of `p`: a failed spawn gives the slot back, or the new process
takes it. -/
def Concludes (s : State E) (c : CoreId) (p : Pid) (s' : State E) : Prop :=
  (s.cores c).errands = [] ∧
    ((∃ f, (s.cores c).main = .releaseReservation p f ∧ s'.sched.view p = .empty ∧
        (s'.cores c).main = .leave (f.withRax SyscallError.spawnFailed.toRax)) ∨
      (∃ P f, (s.cores c).main = .spawnSuspended P f ∧ P.pid = p ∧ s'.sched.view p = .occupied P ∧
        (s'.cores c).main = .leave (f.withRax p.raw)) ∨
      ∃ boot rest P, (s.cores c).main = .bootSpawn p boot rest ∧ s'.sched.view p = .occupied P)

/-- No operation finds a process under `q`; a wait may still find the status that `q` has left. -/
structure Unresolved (s : State E) (q : Pid) (ended : Option (Option Pid × ExitStatus)) : Prop where
  occupiedMut : s.sched.occupiedMut q = none
  startChild : ∀ caller, s.sched.startChild q caller = .error .invalidTarget
  wake : ∀ result, s.sched.wakeBlockedProcessLocked q result = s.sched
  wait : ∀ caller, s.sched.waitOutcome q caller = .invalid ∨
    ∃ status, s.sched.waitOutcome q caller = .alreadyDone status ∧ ended = some (some caller, status)
  mayTerminate : ∀ caller, s.sched.mayTerminate q caller = false
  killScan : ∀ c f, (s.cores c).main = .killScan q f → s.sched.owningCore q = none ∧
    s.sched.finalize q .killed = (s.sched, [])

/-- Pids do not alias: none is issued twice, a reserved slot belongs to one core until that core
fills it or gives it back, and the pid of a process that has ended stands for no other. -/
structure Unaliased [DecidableEq E] (s : State E) (x : Ledger) (d : Obituaries) : Prop where
  issued : x.issued.Nodup
  stored : ∀ p P, s.sched.occupiedMut p = some P → P.pid = p
  reserved : ∀ c p, (s.cores c).main.reserves = some p → s.sched.view p = .reserved ∧
    ∀ e, (s.cores e).main.reserves = some p → e = c
  owner : ∀ p, s.sched.view p = .reserved → ∃ c, (s.cores c).main.reserves = some p
  kept : ∀ c p a s', (s.cores c).main.reserves = some p → s.next a = some s' →
    s'.sched.view p = .reserved ∧ (s'.cores c).main.reserves = some p ∨
      a.core = c ∧ s.Concludes c p s'
  ended : ∀ q, (d q).ended ≠ none → s.Unresolved q (d q).ended

section Runs

variable {s s' : State E} {a : Action E} {c : CoreId} {p q : Pid} {x : Ledger} {d : Obituaries}

theorem unplaced_inj (h : Main.unplaced q = some p) : q = p := by
  unfold Main.unplaced at h
  split at h
  · exact Option.some.inj h
  · cases h

theorem Booked.absent (h : s.Booked d) (hended : (d q).ended ≠ none) :
    (∀ Q, s.sched.view q ≠ .occupied Q) ∧ ∀ p status, s.sched.view q = .zombie p status →
      (d q).ended = some (some p, status) := by
  have hfits := h q
  generalize d q = k at hfits hended
  generalize s.sched.view q = slot at hfits
  cases hfits with
  | occupied | reserved | unused => exact absurd rfl hended
  | zombie => exact ⟨by simp, by rintro _ _ ⟨⟩; rfl⟩
  | unclaimed _ _ | returned _ => exact ⟨by simp, by simp⟩

variable [Fintype E]

theorem Booked.unresolved (h : s.Booked d) (hinv : s.Inv False) (hended : (d q).ended ≠ none) :
    s.Unresolved q (d q).ended := by
  obtain ⟨hdead, hzombie⟩ := h.absent hended
  have hnone : s.sched.occupiedMut q = none := by
    refine Option.eq_none_iff_forall_ne_some.mpr fun Q hQ ↦ ?_
    exact hdead Q (Inner.occupiedMut_eq_some.mp hQ)
  refine ⟨hnone, fun caller ↦ by rw [Inner.startChild, hnone],
    fun result ↦ by rw [Inner.wakeBlockedProcessLocked, hnone], fun caller ↦ ?_,
    fun caller ↦ by rw [Inner.mayTerminate, hnone], fun c f hmain ↦ ⟨?_, ?_⟩⟩
  · rw [Inner.waitOutcome_eq]
    split
    · rename_i p status hview
      split_ifs with hp
      · exact .inr ⟨status, rfl, hp ▸ hzombie p status hview⟩
      · exact .inl rfl
    · rename_i Q hview
      exact absurd hview (hdead Q)
    · exact .inl rfl
  · refine Option.eq_none_iff_forall_ne_some.mpr fun e he ↦ ?_
    obtain ⟨Q, hQ, -⟩ := hinv.scene.sound.running e q (Inner.owningCore_some he)
    exact hdead Q hQ
  · -- the child of a killer that has ended is a zombie until the killer goes on
    obtain ⟨p, -, ⟨Q, hQ, -⟩ | ⟨status, hview⟩⟩ :=
      hinv.scene.cores.kills c q (show (s.cores c).main.kills = some q by rw [hmain]; rfl)
    · exact absurd hQ (hdead Q)
    · change s.sched.view q = _ at hview
      obtain ⟨i, hslot, hpid, -⟩ := Inner.slot_of_eq hview
      rw [hpid, Inner.view_pidAt] at hview
      simp only [Inner.finalize, Inner.finalizeFuel, Inner.takeAndFinalizeSlot, hslot, hview]

variable [DecidableEq E]

theorem Inv.concludes (h : s.Inv False) (hs : s.next a = some s')
    (hp : (s.cores a.core).main.reserves = some p) :
    (s'.cores a.core).main.reserves = some p ∨ s.Concludes a.core p s' := by
  have hreserved : s.sched.view p = .reserved := h.scene.cores.reserves a.core p hp
  by_cases herr : (s.cores a.core).errands = []
  · have hstep := step_of_next hs
    unfold State.step at hstep
    cases hmain : (s.cores a.core).main with
    | bootSpawn pid boot rest =>
      rw [hmain] at hp
      obtain rfl := unplaced_inj hp
      simp only [herr, hmain, State.mainStep, State.bootSpawn] at hstep
      split at hstep
      · rename_i entry frame _
        split at hstep
        · cases hstep
        split at hstep
        · cases hstep
        · obtain ⟨sched, hspawn, htable, -⟩ := spawn_reserved
            (P := boot.process pid frame entry) hreserved (queue_room h.scene.sound hreserved)
          rw [hspawn] at hstep
          cases hstep
          refine .inr ⟨herr, .inr (.inr ⟨boot, rest, boot.process pid frame entry, hmain, ?_⟩)⟩
          change sched.table.view pid = _
          rw [htable]
          exact if_pos rfl
      · cases hstep
    | fromElf caller child f =>
      refine .inl ?_
      simp only [herr, hmain, State.mainStep, State.fromElf] at hstep
      rw [hmain] at hp
      split at hstep
      · split at hstep
        · cases hstep
        split at hstep
        · cases hstep
        · split at hstep
          · cases hstep
          · cases hstep
            rwa [goto_main]
      · cases hstep
        rwa [goto_main]
    | releaseReservation child f =>
      rw [hmain] at hp
      obtain rfl := unplaced_inj hp
      obtain ⟨htable, -⟩ := releaseReservation_reserved hreserved
      simp only [herr, hmain, State.mainStep] at hstep
      cases hstep
      refine .inr ⟨herr, .inl ⟨f, hmain, ?_, goto_main⟩⟩
      change (s.sched.releaseReservation child).table.view child = _
      rw [htable, Table.set_view, if_pos rfl]
    | spawnSuspended P f =>
      rw [hmain] at hp
      obtain rfl := unplaced_inj hp
      obtain ⟨sched, hspawn, htable, -⟩ := spawnSuspended_reserved hreserved
      simp only [herr, hmain, State.mainStep, State.spawnSuspended, hspawn] at hstep
      cases hstep
      refine .inr ⟨herr, .inr (.inl ⟨P, f, hmain, rfl, ?_, goto_main⟩)⟩
      change sched.table.view P.pid = _
      rw [htable, Table.set_view, if_pos rfl]
    | _ =>
      rw [hmain] at hp
      cases hp
  · exact .inl (by rw [(next_turn hs).main_of_errands herr, hp])

theorem Inv.view_reserves (h : s.Inv False) (hs : s.next a = some s')
    (hp : s.sched.view p = .reserved) (hp' : (s'.cores c).main.reserves = some p) :
    s'.sched.view p = .reserved := by
  by_cases hallocates : s.allocates a = true
  · rcases sched_of_allocating (allocating_of_allocates hallocates) hs with ⟨-, hsched⟩ | ⟨hno, -⟩
    · rw [hsched]
      cases hfree : s.sched.freeSlot s.stackBusy with
      | none => rwa [allocatePid_full hfree]
      | some i =>
        rw [view_allocatePid hfree]
        split_ifs
        · rfl
        · exact hp
    · rw [hallocates] at hno
      cases hno
  · have hwrap : s.NoWrap a := fun hyes ↦ absurd hyes hallocates
    exact (h.next hwrap False.elim hs).scene.cores.reserves c p hp'

theorem unaliased_of_reach (config : BootConfig E) (s : State E) (x : Ledger) (d : Obituaries)
    (h : Reach (noted next accounts) (fun _ _ ↦ True)
      (init config, .blank, fun _ ↦ .blank) (s, x, d))
    (hfew : ∀ i, x.allocated i < 2 ^ 32) : s.Unaliased x d := by
  obtain ⟨hreach, hcounted⟩ := counted_of_few h hfew
  have hinv := inv_of_noWrap (fun _ _ hok ↦ hok) hreach.forget
  have hbooked : s.Booked d := by
    refine Reach.noted_invariant (I := fun t y ↦ t.Booked y.2)
      (fun t ht ↦ inv_of_noWrap (fun _ _ hok ↦ hok) ht) (Booked.init config) ?_ hreach
    intro t a u y ht hbooked hwrap hs
    exact hbooked.next ht hwrap hs
  have hhoused := (lawful_of_reach hreach.forget).1
  refine ⟨hcounted.nodup, fun p P hP ↦ hhoused.stored p P (occupiedMut_eq_some.mp hP),
    fun c p hp ↦ ⟨hhoused.reserved c p hp, fun e he ↦ hhoused.apart e c p he hp⟩,
    hinv.scene.cores.owner, fun c p a s' hp hs ↦ ?_, fun q hq ↦ hbooked.unresolved hinv hq⟩
  have hstays : (s'.cores c).main.reserves = some p →
      s'.sched.view p = .reserved ∧ (s'.cores c).main.reserves = some p ∨
        a.core = c ∧ s.Concludes c p s' := by
    intro hkeeps
    exact .inl ⟨hinv.view_reserves hs (hhoused.reserved c p hp) hkeeps, hkeeps⟩
  by_cases hc : c = a.core
  · subst hc
    rcases hinv.concludes hs hp with hkeeps | hconcludes
    · exact hstays hkeeps
    · exact .inr ⟨rfl, hconcludes⟩
  · exact hstays (by rw [(next_turn hs).others hc, hp])

end Runs

def reuseSlot : List (Action Unit) :=
  childRuns ++ serve 1 sysExit 0 7 ++ serve 0 sysWait twin.raw 4 ++ serve 0 sysSpawn 0 3

theorem unaliased_of_reach_reuseSlot :
    ∃ s x d, Reach (noted next accounts) (fun _ _ ↦ True)
        (init soloEndpoint, .blank, fun _ ↦ .blank) (s, x, d) ∧
      (∀ i, x.allocated i < 2 ^ 32) ∧ (s.cores 0).main.reserves = some (Pid.new 1 2) ∧
      (d twin).ended ≠ none ∧ s.Unaliased x d := by
  obtain ⟨⟨s, x, d⟩, hreach, hfew, hreserves, hended⟩ : ∃ y, Reach (noted next accounts)
      (fun _ _ ↦ True) (init soloEndpoint, .blank, fun _ ↦ .blank) y ∧
        (∀ i, y.2.1.allocated i < 2 ^ 32) ∧ (y.1.cores 0).main.reserves = some (Pid.new 1 2) ∧
        (y.2.2 twin).ended ≠ none :=
    exists_of_run reuseSlot (by decide +kernel) fun _ _ h ↦ h
  exact ⟨s, x, d, hreach, hfew, hreserves, hended, unaliased_of_reach _ s x d hreach hfew⟩

end State

end Tarnos.Kernel
