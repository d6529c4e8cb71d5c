import Tarnos.Kernel.Answers
import Tarnos.Kernel.Chores

namespace Tarnos.Task

open Abi Kcore

def SendsTo {E : Type} (e : E) (slot : CapabilitySlot (KernelObjectRef E)) : Prop :=
  slot.rights.contains .send = true ∧ slot.object = .endpoint e

def Process.Sends {E : Type} (P : Process E) (e : E) : Prop := ∃ slot ∈ P.capTable.iter, SendsTo e slot

instance {E : Type} [DecidableEq E] (P : Process E) (e : E) : Decidable (P.Sends e) :=
  inferInstanceAs (Decidable (∃ slot ∈ P.capTable.iter, _ = true ∧ _ = _))

end Tarnos.Task

namespace Tarnos.Kernel

open Abi Arch Kcore Tarnos.Task Foundation.Transition Function

variable {E : Type}

def receivesFrom (P : Process E) : Option E :=
  if P.state = .blocked ∧ P.trapFrame.rax = sysRecv then
    (resolveEndpoint P ⟨P.trapFrame.rdi.toUInt32⟩ .recv).toOption
  else none

def Main.seeding : Main E → Bool
  | .boot (_ :: _) | .bootSpawn _ _ _ => true
  | _ => false

theorem Main.booting_of_seeding {m : Main E} (h : m.seeding = true) : m.booting = true := by
  cases m <;> first | rfl | cases h

namespace State

def Booted (s : State E) : Prop := ∀ c, (s.cores c).main.seeding = false

section Shrinking

variable [DecidableEq E] {s s' : State E} {a : Action E} {c : CoreId} {p q : Pid} {P P' : Process E}
  {e : E}

/-- `wake_orphaned_receivers` picks the endpoints a dying process could send to and no process in
the table can. -/
theorem mem_orphanedEndpoints {sched : Inner E} {dying : List (CapabilitySlot (KernelObjectRef E))} :
    e ∈ orphanedEndpoints sched dying ↔
      (∃ slot ∈ dying, SendsTo e slot) ∧ ∀ p P, sched.view p = .occupied P → ¬ P.Sends e := by
  unfold orphanedEndpoints
  rw [List.mem_filterMap]
  constructor
  · rintro ⟨slot, hslot, hsome⟩
    split at hsome
    · rename_i hrights
      split at hsome
      · rename_i e' hobject
        dsimp only at hsome
        split at hsome
        · cases hsome
        · rename_i hnone
          cases hsome
          refine ⟨⟨slot, hslot, hrights, hobject⟩, ?_⟩
          rintro p P hP ⟨held, hheld, hsend, hto⟩
          obtain ⟨i, -, rfl, -⟩ := Inner.slot_of_eq hP
          rw [Inner.view_pidAt] at hP
          refine hnone (List.any_eq_true.mpr ⟨i, List.mem_finRange i, ?_⟩)
          rw [hP]
          exact List.any_eq_true.mpr ⟨held, hheld, by simp [hsend, hto]⟩
      · cases hsome
    · cases hsome
  · rintro ⟨⟨slot, hslot, hrights, hobject⟩, hnone⟩
    refine ⟨slot, hslot, ?_⟩
    rw [if_pos hrights, hobject]
    refine if_neg fun hlive ↦ ?_
    obtain ⟨i, -, hi⟩ := List.any_eq_true.mp hlive
    split at hi
    · rename_i P hP
      obtain ⟨held, hheld, hboth⟩ := List.any_eq_true.mp hi
      obtain ⟨hsend, hto⟩ := Bool.and_eq_true_iff.mp hboth
      exact hnone (sched.pidAt i) P (by rw [Inner.view_pidAt, hP])
        ⟨held, hheld, hsend, of_decide_eq_true hto⟩
    · cases hi

theorem Turn.seeding (hturn : s.Turn c s') (h : (s'.cores c).main.seeding = true) :
    (s.cores c).main.seeding = true := by
  by_cases herr' : (s.cores c).errands ≠ []
  · rwa [← hturn.main_of_errands herr']
  push Not at herr'
  cases hturn with
  | tasks herr | wake herr | orphans herr | dropBox herr | clearStackBusy herr | pollSend herr
  | pollRecv herr | wakeReceiver herr | takeWaitingReceiver herr => cases herr'.symm.trans herr
  | bootAllocate _ hmain | bootSpawn _ hmain =>
    rw [hmain]
    rfl
  | stay _ _ hstay =>
    rw [goto_main] at h
    cases hstay <;> cases h
  | trap =>
    rw [setCore_self] at h
    cases (trapMain_light _ _).2.symm.trans (Main.booting_of_seeding h)
  | record =>
    rw [goto_main] at h
    cases (callOn_light _ _).2.symm.trans (Main.booting_of_seeding h)
  | trySend _ hmain _ htrade | tryRecv _ hmain _ htrade =>
    refine absurd h (htrade.main (motive := fun m ↦ m.seeding ≠ _) ?_ nofun nofun nofun nofun)
    rw [hmain]
    nofun
  | dispatch | abandon =>
    simp [State.dispatch, State.abandon, Main.seeding] at h
  | bootDone | leave =>
    rw [setCore_self] at h
    cases h
  | rest _ _ _ hnew =>
    rw [goto_main] at h
    rcases hnew with rfl | rfl <;> cases h
  | _ =>
    rw [goto_main] at h
    cases h

theorem Booted.next (h : s.Booted) (hs : s.next a = some s') : s'.Booted := by
  intro d
  have hturn := next_turn hs
  by_cases hd : d = a.core
  · subst hd
    by_contra hne
    have hseeding := hturn.seeding (Bool.not_eq_false _ ▸ hne)
    rw [h] at hseeding
    cases hseeding
  · rw [hturn.others hd]
    exact h d

variable [Fintype E]

theorem Inv.sender_before (h : s.Inv False) (hhoused : s.Housed) (hbacked : s.Backed)
    (hbooted : s.Booted) (hs : s.next a = some s') (hP' : s'.sched.view p = .occupied P')
    (hsends : P'.Sends e) : ∃ q Q, s.sched.view q = .occupied Q ∧ Q.Sends e := by
  have hcustody := (next_turn hs).custody
  obtain ⟨slot, hslot, hto⟩ := hsends
  cases hhoused.inherits hcustody hP' with
  | same hP hbecame => exact ⟨p, _, hP, slot, hbecame.capTable ▸ hslot, hto⟩
  | granted hP _ _ hnew hlog =>
    subst hnew
    rcases CapTable.mem_iter_insert hslot with rfl | hold
    · obtain ⟨-, Q, held, hQ, hheld, hobject, hrights⟩ :=
        hbacked a.core _ _ (hcustody.granted_of_log hlog)
      exact ⟨_, Q, hQ, held, hheld, Rights.contains_trans hrights hto.1, hobject ▸ hto.2⟩
    · exact ⟨p, _, hP, slot, hold, hto⟩
  | spawned _ hbare =>
    rw [hbare] at hslot
    cases hslot
  | seeded _ _ _ hview =>
    cases h.fared (next_turn hs) hP' with
    | spawned _ hmain =>
      rw [(hhoused.bare a.core P' (by rw [hmain]; rfl)).1] at hslot
      cases hslot
    | booted _ hmain =>
      have hseeding := hbooted a.core
      rw [hmain] at hseeding
      cases hseeding
    | went hP | dispatched hP => cases hview.symm.trans hP

structure Senderless (e : E) (s : State E) : Prop where
  booted : s.Booted
  none : ∀ p P, s.sched.view p = .occupied P → ¬ P.Sends e

theorem Senderless.next (hless : s.Senderless e) (h : s.Inv False) (hhoused : s.Housed)
    (hbacked : s.Backed) (hs : s.next a = some s') : s'.Senderless e := by
  refine ⟨hless.booted.next hs, fun p P' hP' hsends ↦ ?_⟩
  obtain ⟨q, Q, hQ, hsendsQ⟩ := h.sender_before hhoused hbacked hless.booted hs hP' hsends
  exact hless.none q Q hQ hsendsQ

end Shrinking

end State

/-- When an endpoint was found orphaned: while the boot code still seeded, or after. -/
inductive Verdict
  | seeding
  | final
  deriving DecidableEq

abbrev Verdicts (E : Type) := E → Option Verdict

namespace State

instance (s : State E) : Decidable s.Booted :=
  inferInstanceAs (Decidable (∀ c, (s.cores c).main.seeding = false))

def verdict [DecidableEq E] (s : State E) (a : Action E) (d : Verdicts E) : Verdicts E := fun e ↦
  if e ∈ s.decides a.core then some (if s.Booted then .final else .seeding) else d e

def findings [DecidableEq E] (s : State E) (a : Action E) (s' : State E) (x : Journal E × Verdicts E) :
    Journal E × Verdicts E :=
  (s.journal a s' x.1, s.verdict a x.2)

/-- Only receivers of endpoints found orphaned are told that their peers are gone. -/
structure Ruled (s : State E) (g : Journal E) (d : Verdicts E) : Prop where
  final : ∀ e, d e = some .final → s.Senderless e
  taking : ∀ c e, .takeWaitingReceiver e ∈ (s.cores c).errands → (d e).isSome
  closed : ∀ p P, s.sched.view p = .occupied P → (g p).outcome = some .peerClosed →
    ∃ e, (g p).place = some (.receiver e) ∧ (d e).isSome

section Findings

variable {s s' : State E} {a : Action E} {c : CoreId} {p : Pid} {P' : Process E} {e : E}
  {g : Journal E} {d : Verdicts E}

theorem Ruled.init (config : BootConfig E) (g : Journal E) :
    (State.init config).Ruled g fun _ ↦ none := by
  refine ⟨fun e he ↦ ?_, fun c e he ↦ ?_, fun p P hP ↦ ?_⟩
  · cases he
  · simp only [State.init] at he
    split_ifs at he <;> simp at he
  · rw [show (State.init config).sched = Inner.init from rfl, Inner.view_init] at hP
    cases hP

variable [DecidableEq E]

theorem isSome_verdict (h : (d e).isSome) : (s.verdict a d e).isSome := by
  unfold verdict
  split
  · rfl
  · exact h

theorem Ruled.next_taking (hruled : s.Ruled g d) (hs : s.next a = some s')
    (he : .takeWaitingReceiver e ∈ (s'.cores c).errands) : (s.verdict a d e).isSome := by
  have hturn := next_turn hs
  by_cases hc : c = a.core
  · subst hc
    rcases hturn.brings he with hold | hbrings
    · exact isSome_verdict (hruled.taking _ e hold)
    · cases hbrings with
      | keeping h => cases h
      | takes h => simp [verdict, h]
  · rw [hturn.others hc] at he
    exact isSome_verdict (hruled.taking c e he)

variable [Fintype E]

theorem Ruled.next_final (hruled : s.Ruled g d) (h : s.Inv False) (hhoused : s.Housed)
    (hbacked : s.Backed) (hs : s.next a = some s') (he : s.verdict a d e = some .final) :
    s'.Senderless e := by
  refine Senderless.next ?_ h hhoused hbacked hs
  unfold verdict at he
  split at he
  · rename_i hdecides
    split at he
    · rename_i hbooted
      unfold decides at hdecides
      split at hdecides
      · exact ⟨hbooted, (mem_orphanedEndpoints.mp hdecides).2⟩
      · cases hdecides
    · cases he
  · exact hruled.final e he

theorem Ruled.next_closed (hruled : s.Ruled g d) (hfits : s.Fits g) (h : s.Inv False)
    (hs : s.next a = some s') (hP' : s'.sched.view p = .occupied P')
    (hclosed : (s.journal a s' g p).outcome = some .peerClosed) :
    ∃ e, (s.journal a s' g p).place = some (.receiver e) ∧ (s.verdict a d e).isSome := by
  rcases hfits.live_or_fresh h hs hP' with ⟨P, hP⟩ | ⟨f, hfresh⟩
  · have hnoted := hfits.noted (a := a) (u := s') h hP
    generalize s.journal a s' g p = k at hclosed hnoted
    cases hnoted with
    | begun | registered => cases hclosed
    | settled hset hplace =>
      cases hclosed
      cases settled_cases hset with
      | sends hconsumes => cases hconsumes
      | receives hconsumes =>
        cases hconsumes with
        | orphan herr _ =>
          refine ⟨_, hplace, isSome_verdict (hruled.taking a.core _ ?_)⟩
          rw [herr]
          exact List.mem_cons_self
    | same =>
      obtain ⟨e, hplace, hd⟩ := hruled.closed p P hP hclosed
      exact ⟨e, hplace, isSome_verdict hd⟩
  · rw [hfresh] at hclosed
    cases hclosed

end Findings

/-- A receiver is told that its peers are gone only about the endpoint it waits at and only after
that endpoint was found orphaned. If boot seeding was complete then, no process can send to it from
then on, and none is about to be granted the right. -/
structure Bereft [DecidableEq E] (s : State E) (g : Journal E) (d : Verdicts E) : Prop where
  senderless : ∀ e, d e = some .final → ∀ t, Reach next State.NoWrap s t →
    (∀ p P, t.sched.view p = .occupied P → ¬ P.Sends e) ∧
      ∀ c caller slot, (t.cores c).main.grants = some (caller, slot) → ¬ SendsTo e slot
  closes : ∀ c p P, s.sched.view p = .occupied P → s.Completes c p .peerClosed →
    ∃ e, (g p).place = some (.receiver e) ∧ (Place.receiver e).Asked P (g p).trap ∧ (d e).isSome

section Runs

variable [DecidableEq E] [Fintype E] {s : State E} {a : Action E} {e : E} {g : Journal E}
  {d : Verdicts E} {config : BootConfig E}

theorem Senderless.later (hless : s.Senderless e)
    (h : Reach State.next State.NoWrap (State.init config) s) {t : State E}
    (ht : Reach State.next State.NoWrap s t) : t.Senderless e :=
  ht.invariant_over (fun u hu ↦ show u.Inv False ∧ u.Housed ∧ u.Backed from
      ⟨inv_of_noWrap (fun _ _ hok ↦ hok) (h.trans hu), (lawful_of_reach (h.trans hu)).1,
        backed_of_reach (h.trans hu)⟩)
    hless fun _ _ _ ⟨hinv, hhoused, hbacked⟩ hless _ hs ↦ hless.next hinv hhoused hbacked hs

theorem bereft_of_reach (config : BootConfig E) (g₀ g : Journal E) (d : Verdicts E) (s : State E)
    (h : Reach (noted State.next findings) (fun x a ↦ x.1.NoWrap a)
      (State.init config, g₀, fun _ ↦ none) (s, g, d)) : s.Bereft g d := by
  have hbase : ∀ t, Reach State.next State.NoWrap (State.init config) t →
      t.Inv False ∧ t.Housed ∧ t.Aims ∧ t.Backed :=
    fun t ht ↦ ⟨inv_of_noWrap (fun _ _ hok ↦ hok) ht, (lawful_of_reach ht).1, aims_of_reach ht,
      backed_of_reach ht⟩
  obtain ⟨hfits, hplaced, hruled⟩ : s.Fits g ∧ s.Placed g ∧ s.Ruled g d := by
    refine Reach.noted_invariant (I := fun t x ↦ t.Fits x.1 ∧ t.Placed x.1 ∧ t.Ruled x.1 x.2) hbase
      ?_ ?_ h
    · exact ⟨Fits.init config g₀, Placed.init config g₀, Ruled.init config g₀⟩
    · intro t a u x ⟨hinv, hhoused, haims, hbacked⟩ ⟨hfits, hplaced, hruled⟩ hwrap hs
      exact ⟨hfits.next hinv hwrap hs, hplaced.next hfits hinv haims hhoused hs,
        fun e he ↦ hruled.next_final hinv hhoused hbacked hs he,
        fun c e he ↦ hruled.next_taking hs he,
        fun p P' hP' hclosed ↦ hruled.next_closed hfits hinv hs hP' hclosed⟩
  refine ⟨fun e he t ht ↦ ?_, fun c p P hP hcompletes ↦ ?_⟩
  · have hless := (hruled.final e he).later h.forget ht
    refine ⟨hless.none, fun c caller slot hgrants hto ↦ ?_⟩
    obtain ⟨-, Q, held, hQ, hheld, hobject, hrights⟩ :=
      (hbase t (h.forget.trans ht)).2.2.2 c caller slot hgrants
    exact hless.none caller Q hQ
      ⟨held, hheld, Rights.contains_trans hrights hto.1, hobject ▸ hto.2⟩
  · cases hcompletes with
    | @errand x rest notes result herr hwakes =>
      cases hwakes
      have hclaim : Claim.done .peerClosed ∈ s.claims p :=
        claims_of_errand (c := c) (y := .peerClosed p) (by rw [herr]; exact List.mem_cons_self) rfl
      obtain ⟨-, houtcome⟩ := hfits.claims p P hP _ hclaim
      obtain ⟨e, hplace, hd⟩ := hruled.closed p P hP houtcome
      exact ⟨e, hplace, hplaced p P hP _ hplace, hd⟩

end Runs

def closing (s : State E) (c : CoreId) : Option Pid :=
  match (s.cores c).errands with
  | .peerClosed p :: _ => some p
  | _ => none

theorem Completes.of_closing {s : State E} {c : CoreId} {p : Pid} (h : s.closing c = some p) :
    s.Completes c p .peerClosed := by
  unfold closing at h
  split at h
  · rename_i herr
    cases h
    exact .errand herr .orphan
  · cases h

def exitOn (c : CoreId) : List (Action E) := serve c sysExit 0 5

theorem bereft_of_reach_exitOn :
    ∃ s g d, Reach (noted next findings) (fun x a ↦ x.1.NoWrap a)
        (init soloEndpoint, (fun _ ↦ .fresh userFrame), fun _ ↦ none) (s, g, d) ∧
      s.Completes 0 twin .peerClosed ∧ d () = some .final ∧ s.Bereft g d := by
  obtain ⟨⟨s, g, d⟩, hreach, hclosing, hfinal⟩ : ∃ x, Reach (noted next findings)
      (fun x a ↦ x.1.NoWrap a)
      (init soloEndpoint, (fun _ ↦ .fresh userFrame), fun _ ↦ none) x ∧
        x.1.closing 0 = some twin ∧ x.2.2 () = some .final :=
    exists_of_run (receiveFirst ++ exitOn 0) (by decide +kernel) fun _ _ h ↦ h
  exact ⟨s, g, d, hreach, .of_closing hclosing, hfinal, bereft_of_reach soloEndpoint _ g d s hreach⟩

/-- Boot with a process that can send to and receive from `true` and receive from `false`, and one
that can send to `false`. -/
def twoPeers : BootConfig Bool :=
  ⟨fun _ ↦ true,
    [⟨[(⟨0⟩, ⟨.endpoint true, Rights.send.union Rights.recv⟩), (⟨1⟩, ⟨.endpoint false, Rights.recv⟩)]⟩,
      ⟨[(⟨0⟩, ⟨.endpoint false, Rights.send⟩)]⟩]⟩

def bootTwo : List (Action Bool) :=
  advance 0 2 ++ [⟨0, .image 0 0⟩, go 0, ⟨0, .image 0 1⟩] ++ advance 0 4 ++ advance 1 3

def third : Pid := Pid.new 2 1

def spawnReceiver (frame : ℕ) (cap : UInt64) : List (Action Bool) :=
  serve 0 sysSpawn 0 3 ++ [⟨0, .image 0 frame⟩] ++ advance 0 2 ++
    [⟨0, .trap .syscall
      { userFrame with rax := sysGrant, rdi := third.raw, rsi := cap, r10 := 2 }⟩] ++ advance 0 4 ++
    serve 0 sysProcessStart third.raw 4 ++ advance 2 3 ++ serve 2 sysRecv 0 4

def leaveReceiver : List (Action Bool) :=
  bootTwo ++ spawnReceiver 2 1 ++ serve 0 sysKill third.raw 7 ++ serve 0 sysWait third.raw 4 ++
    serve 0 sysSpawn 0 3 ++ [⟨0, .refuse⟩] ++ advance 0 2

/-- After a wrapped counter a process that waits at `true`, which another one can send to, is told
that its peers are gone: its twin once waited at `false`. -/
theorem peer_closed_twin : ∃ s P Q, Reach next (fun _ _ ↦ True) (init twoPeers) s ∧
    s.sched.occupiedMut third = some P ∧ receivesFrom P = some true ∧
    s.Completes 1 third .peerClosed ∧
    s.sched.occupiedMut (Pid.new 0 1) = some Q ∧ Q.Sends true := by
  obtain ⟨s, hreach, hclosing, hreceives, hfirst⟩ : ∃ s,
      Reach next (fun _ _ ↦ True) (init twoPeers) s ∧ s.closing 1 = some third ∧
      (s.sched.occupiedMut third).bind receivesFrom = some true ∧
      (s.sched.occupiedMut (Pid.new 0 1)).any (fun Q ↦ decide (Q.Sends true)) = true :=
    exists_of_runWrapped 2 leaveReceiver (spawnReceiver 3 0 ++ exitOn 1) (by decide +kernel)
      fun _ h ↦ h
  obtain ⟨P, hP, hreceives⟩ := Option.bind_eq_some_iff.mp hreceives
  obtain ⟨Q, hQ, hsends⟩ := (Option.any_eq_true _ _).mp hfirst
  exact ⟨s, P, Q, hreach, hP, hreceives, .of_closing hclosing, hQ, of_decide_eq_true hsends⟩

end State

end Tarnos.Kernel
