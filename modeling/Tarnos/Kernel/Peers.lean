import Tarnos.Kernel.Fates
import Tarnos.Kernel.Senders
import Tarnos.Kernel.Waiters

namespace Tarnos.Kernel

open Abi Arch Kcore Tarnos.Task Foundation.Transition Function Inner

variable {E : Type} {x : Errand E}

theorem Errand.Wakes.claim {s : State E} {p : Pid} {result : WakeResult}
    {notes : List (Event E)} (h : x.Wakes s p result notes) : x.claim = some (p, .done result) := by
  cases h <;> rfl

namespace State

def Parking (s : State E) (p : Pid) : Prop :=
  ∃ c, s.sched.current c = some p ∧ (s.cores c).main.parks = true

def Engaged (s : State E) (g : Journal E) : Prop :=
  ∀ p P, s.sched.view p = .occupied P → (g p).place.isSome → (g p).outcome = none →
    P.state = .blocked ∨ s.Parking p

section Engagement

variable {s s' b : State E} {a : Action E} {c : CoreId} {p : Pid} {P P' Q : Process E} {e : E}
  {g : Journal E} {place : Place E} {f : TrapFrame}

theorem blockCurrent_of_parks {m : Main E} (h : m.parks = true) : ∃ f, m = .blockCurrent f := by
  cases m <;> first | exact ⟨_, rfl⟩ | cases h

theorem Engaged.init (config : BootConfig E) (g : Journal E) : (State.init config).Engaged g := by
  intro p P hP
  rw [show (State.init config).sched = Inner.init from rfl, Inner.view_init] at hP
  cases hP

section

variable [DecidableEq E]

theorem Effect.current_of_errands (heff : s.Effect c s') (herr : (s.cores c).errands ≠ []) :
    s'.sched.current c = s.sched.current c := by
  cases heff with
  | errand _ _ _ hcurrent => exact congrFun hcurrent c
  | light herr' | trap herr' | leave herr' | bootDone herr' | reserve herr' | load herr'
  | spawn herr' | spawnFail herr' | bootSpawn herr' | mark herr' | exit herr' | kill herr'
  | dispatch herr' | abandon herr' => exact absurd herr' herr

end

theorem view_of_not_ready {outgoing : Option (Fin maxProcesses)} {drops : List (Process E)}
    (hsound : b.sched.table.Sound) (hQ : b.sched.view p = .occupied Q) (hstate : Q.state ≠ .ready)
    (hs : b.switchToNextOrHalt c outgoing drops = .next s') : s'.sched.view p = .occupied Q := by
  rcases view_switchToNextOrHalt hQ hs with hsame | ⟨-, hqueue⟩
  · exact hsame
  · exact absurd hqueue (hsound.not_queued hQ hstate)

variable [Fintype E]

section

variable (h : s.Inv True) (hfits : s.Fits g) (hP : s.sched.view p = .occupied P)
  (hplace : (g p).place = some (.receiver e))

include h hfits hP hplace

theorem Inv.claim_of_blocked (hblocked : P.state = .blocked) : ∃ x ∈ s.claims p, (g p).Says x := by
  have htokens : s.tokens p = 1 := by
    refine (h.scene.accounts.account p P hP).blocked trivial hblocked fun q hq ↦ ?_
    cases hplace.symm.trans (hfits.waits p q ⟨P, hP⟩ hq).1
  obtain ⟨x, hx⟩ := Multiset.card_pos_iff_exists_mem.mp
    (show 0 < (s.claims p).card by rw [card_claims, htokens]; exact Nat.one_pos)
  exact ⟨x, hx, hfits.claims p P hP x hx⟩

theorem Inv.claim_of_engaged (hnone : (g p).outcome = none)
    (hengaged : P.state = .blocked ∨ s.Parking p) : .receives e ∈ s.claims p := by
  have hclaim : ∃ x ∈ s.claims p, (g p).Says x := by
    rcases hengaged with hblocked | hparking
    · exact h.claim_of_blocked hfits hP hplace hblocked
    · have hpending : P.pendingWake = none := by
        by_contra hne
        obtain ⟨result, hresult⟩ := Option.ne_none_iff_exists'.mp hne
        cases hnone.symm.trans ((hfits.records p P hP).pending result hresult).2
      have hone : s.tokens p + pendingTokens P.pendingWake = 1 :=
        (h.scene.accounts.account p P hP).parking trivial hparking
      rw [hpending] at hone
      obtain ⟨x, hx⟩ := Multiset.card_pos_iff_exists_mem.mp
        (show 0 < (s.claims p).card by
          rw [card_claims, show s.tokens p = 1 from hone]; exact Nat.one_pos)
      exact ⟨x, hx, hfits.claims p P hP x hx⟩
  obtain ⟨x, hx, hsays⟩ := hclaim
  cases x with
  | sends e' => cases hplace.symm.trans hsays.1
  | receives e' =>
    cases hplace.symm.trans hsays.1
    exact hx
  | done result => cases hnone.symm.trans hsays.2

end

variable [DecidableEq E]

theorem Inv.engaged_registered (h : s.Inv False) (hs : s.next a = some s')
    (hr : s.registered a.core p = some place) (hP' : s'.sched.view p = .occupied P') :
    P'.state = .blocked ∨ s'.Parking p := by
  obtain ⟨herr, hcaller, -, hcase⟩ := registered_cases hr
  have hc := h.scene.cores.caller a.core p hcaller
  have hstep := step_of_next hs
  unfold step at hstep
  rcases hcase with ⟨e, -, henters⟩ | ⟨e, -, henters⟩ | ⟨q, f, -, hawaits⟩
  · cases henters with
    | sends _ hmain hsend =>
      simp only [herr, hmain, mainStep, trySend, hsend] at hstep
      cases hstep
      exact .inr ⟨a.core, hc, by rw [goto_main]; rfl⟩
  · cases henters with
    | receives _ hmain hrecv =>
      simp only [herr, hmain, mainStep, tryRecv, hrecv] at hstep
      cases hstep
      exact .inr ⟨a.core, hc, by rw [goto_main]; rfl⟩
  · obtain ⟨P, Q, sched, -, -, -, -, hblock, -, htable, hinv⟩ :=
      h.waiting hawaits.hmain hawaits.hwait
    simp only [herr, hawaits.hmain, mainStep, waitForChild, hawaits.hwait,
      blockCurrent, withSched, hblock] at hstep
    have hview : sched.table.view p = .occupied { P with trapFrame := f, state := .blocked } := by
      rw [htable, Table.letGo_view, if_pos rfl]
    have hkept := view_of_not_ready (b := s.withSched sched) hinv.sound hview (by simp) hstep
    cases hkept.symm.trans hP'
    exact .inl rfl

theorem Inv.engaged_same (h : s.Inv False) (hwrap : s.NoWrap a) (hfits : s.Fits g)
    (hs : s.next a = some s') (hP : s.sched.view p = .occupied P)
    (hP' : s'.sched.view p = .occupied P') (hset : s.settled a.core p = none)
    (hnone : (g p).outcome = none) (hengaged : P.state = .blocked ∨ s.Parking p) :
    P'.state = .blocked ∨ s'.Parking p := by
  have hturn := next_turn hs
  have heff := h.effect hwrap hs
  rcases hengaged with hblocked | ⟨d, hd, hparks⟩
  · left
    -- nothing wakes it: a wake on its way would have ended the registration
    have hcourse : ∀ {y : Saved}, s.Course a.core p (saved P) y → y.state = .blocked := by
      intro y hcourse
      have hcurrent : s.sched.current a.core ≠ some p :=
        h.scene.sound.not_current hP (by rw [hblocked]; simp) a.core
      cases hcourse with
      | same | awaited => exact hblocked
      | started hstate => cases hstate.symm.trans hblocked
      | woken hcompletes =>
        cases hcompletes with
        | errand herr hwakes =>
          have hclaim := claims_of_errand (s := s) (p := p) (c := a.core)
            (by rw [herr]; exact List.mem_cons_self) hwakes.claim
          cases hnone.symm.trans (hfits.claims p P hP _ hclaim).2
        | ended hends hQ hwaiter =>
          cases hset.symm.trans (settled_of_bereaves ⟨hends, _, hQ, hwaiter⟩)
      | preempted _ _ hc | blocked _ _ hc | stashed _ _ hc | waits _ hc => exact absurd hc hcurrent
    cases h.fared hturn hP' with
    | spawned _ _ _ hview | booted _ _ _ hview => cases hP.symm.trans hview
    | went hP₀ hstep =>
      cases hP.symm.trans hP₀
      exact hcourse hstep
    | dispatched hP₀ hstep hready =>
      cases hP.symm.trans hP₀
      cases (hcourse hstep).symm.trans hready
  · by_cases hda : d = a.core
    · subst hda
      by_cases herr : (s.cores a.core).errands = []
      · obtain ⟨f, hmain⟩ := blockCurrent_of_parks hparks
        left
        have hpending : P.pendingWake = none := by
          by_contra hne
          obtain ⟨result, hresult⟩ := Option.ne_none_iff_exists'.mp hne
          cases hnone.symm.trans ((hfits.records p P hP).pending result hresult).2
        obtain ⟨q, Q, sched, hq, hQ, hblock, -, htable, hinv⟩ := h.blocked hmain
        cases hd.symm.trans hq
        cases hP.symm.trans hQ
        have hview : sched.table.view p = .occupied { P with trapFrame := f, state := .blocked } := by
          rw [htable, Table.letGo_view, if_pos rfl, blockedRecord_of_none hpending]
        have hstep := mainStep_of_next hs herr hmain
        simp only [mainStep, blockCurrent, hblock] at hstep
        have hkept :=
          view_of_not_ready (b := s.withSched sched) hinv.sound hview (by simp) hstep
        cases hkept.symm.trans hP'
        rfl
      · refine .inr ⟨a.core, (heff.current_of_errands herr).trans hd, ?_⟩
        rw [hturn.main_of_errands herr]
        exact hparks
    · exact .inr ⟨d, (heff.current_other h hda).trans hd, by rw [hturn.others hda]; exact hparks⟩

theorem Engaged.next (hengaged : s.Engaged g) (h : s.Inv False) (hwrap : s.NoWrap a)
    (hfits : s.Fits g) (hs : s.next a = some s') : s'.Engaged (s.journal a s' g) := by
  intro p P' hP' hplace hnone
  rcases hfits.live_or_fresh h hs hP' with ⟨P, hP⟩ | ⟨f, hfresh⟩
  · have hnoted := hfits.noted (a := a) (u := s') h hP
    generalize s.journal a s' g p = k at hplace hnone hnoted
    cases hnoted with
    | begun => cases hplace
    | registered hr => exact h.engaged_registered hs hr hP'
    | settled => cases hnone
    | same _ _ hset =>
      exact h.engaged_same hwrap hfits hs hP hP' hset hnone (hengaged p P hP hplace hnone)
  · rw [hfresh] at hplace
    cases hplace

end Engagement

def HasPeer (s : State E) (e : E) (p : Pid) : Prop :=
  ∃ q Q, q ≠ p ∧ s.sched.view q = .occupied Q ∧ Q.Sends e

def Alarmed (s : State E) (e : E) : Prop :=
  ∃ c, (∃ dying, .wakeOrphanedReceivers dying ∈ (s.cores c).errands ∧ ∃ slot ∈ dying, SendsTo e slot) ∨
    .takeWaitingReceiver e ∈ (s.cores c).errands

end State

def Errand.servesReceiver (p : Pid) : Errand E → Bool
  | .wakeReceiver _ q | .handOver q _ => q = p
  | _ => false

namespace State

/-- The receivers at `e` and those who can send to it: no task offers a message there, suspended
senders have a parent that can send, whoever serves a receiver runs for another process that can
send, and a receiver that waits has a peer unless a termination is still to see to it. -/
structure Company (e : E) (s : State E) (g : Journal E) : Prop where
  quiet : ∀ c message waker, .pollSend e message waker ∉ (s.cores c).errands
  sponsored : ∀ p P, s.sched.view p = .occupied P → P.state = .suspended → P.Sends e →
    ∃ q Q, P.parent = some q ∧ s.sched.view q = .occupied Q ∧ Q.Sends e
  served : ∀ c p P x, s.sched.view p = .occupied P → (g p).place = some (.receiver e) →
    x ∈ (s.cores c).errands → x.servesReceiver p = true →
    ∃ q Q, q ≠ p ∧ s.sched.current c = some q ∧ s.sched.view q = .occupied Q ∧ Q.Sends e
  waiting : ∀ p P, s.sched.view p = .occupied P → (g p).place = some (.receiver e) →
    (g p).outcome = none → ¬ P.Sends e ∧ (s.HasPeer e p ∨ s.Alarmed e)

section Steps

variable {s s' : State E} {a : Action E} {c : CoreId} {p q : Pid}
  {P P' Q : Process E} {e : E} {g : Journal E}

theorem mem_drops {sched : Inner E} {status : ExitStatus} (hsound : sched.table.Sound)
    (hQ : sched.view q = .occupied Q) (hP : sched.view p = .occupied P)
    (hdies : p = q ∨ P.parent = some q ∧ P.state = .suspended) :
    P ∈ (sched.finalize q status).2 := by
  obtain ⟨-, hdrops, -⟩ := finalize_spec status (finalizable hsound hQ)
  rw [hdrops]
  rcases hdies with rfl | hchild
  · cases hP.symm.trans hQ
    simp
  · obtain ⟨i, -, rfl, -⟩ := slot_of_eq hP
    rw [view_pidAt] at hP
    refine List.mem_append_left _ (List.mem_flatMap.mpr ⟨i, List.mem_finRange i, ?_⟩)
    simp [hP, orphanBox, hchild]

theorem sends_of_resolveEndpoint {cap : CapIndex} (h : resolveEndpoint P cap .send = .ok e) :
    P.Sends e := by
  unfold resolveEndpoint at h
  split at h
  · cases h
  · rename_i slot hlookup
    split at h
    · rename_i hobject
      cases h
      obtain ⟨hmem, hrights⟩ := CapTable.lookup_mem hlookup
      exact ⟨slot, hmem, hrights, hobject⟩
    · cases h

theorem claim_of_serves (h : x.servesReceiver p = true) : ∃ y, x.claim = some (p, y) := by
  cases x with
  | wakeReceiver e q | handOver q parcel =>
    cases of_decide_eq_true h
    exact ⟨_, rfl⟩
  | _ => cases h

theorem settled_of_take {rest : List (Errand E)}
    (herr : (s.cores c).errands = .takeWaitingReceiver e :: rest)
    (hslot : (s.endpoints e).receiver? = some (.process p)) :
    s.settled c p = some (.receiver e, .peerClosed) := by
  cases hend : s.endpoints e with
  | receiverWaiting r =>
    rw [hend] at hslot
    cases hslot
    simp [settled, herr, hend]
  | _ =>
    rw [hend] at hslot
    cases hslot

theorem Company.init (config : BootConfig E) (g : Journal E) : (State.init config).Company e g := by
  have hview : ∀ p P, (State.init config).sched.view p ≠ .occupied P := by
    intro p P hP
    rw [show (State.init config).sched = Inner.init from rfl, Inner.view_init] at hP
    cases hP
  refine ⟨fun c message waker hy ↦ ?_, fun p P hP ↦ absurd hP (hview p P),
    fun c p P x hP ↦ absurd hP (hview p P), fun p P hP ↦ absurd hP (hview p P)⟩
  simp only [State.init] at hy
  split_ifs at hy <;> simp at hy

section

variable [DecidableEq E]

theorem Housed.sends_iff (h : s.Housed) (hs : s.next a = some s') (hP : s.sched.view p = .occupied P)
    (hP' : s'.sched.view p = .occupied P') (hstate : P.state ≠ .suspended) :
    P'.Sends e ↔ P.Sends e := by
  have hcaps := ((h.inherits (next_turn hs).custody hP').settled hP hstate).1
  unfold Process.Sends
  rw [hcaps]

/-- The alarm goes on, or is called off because somebody can send, or the endpoint has no waiting
process as its receiver any more. -/
theorem Alarmed.next (hs : s.next a = some s') (halarmed : s.Alarmed e) :
    s'.Alarmed e ∨ (s'.sched = s.sched ∧ ∃ q Q, s.sched.view q = .occupied Q ∧ Q.Sends e) ∨
      ∃ rest, (s.cores a.core).errands = .takeWaitingReceiver e :: rest := by
  have hturn := next_turn hs
  obtain ⟨c, hcore⟩ := halarmed
  by_cases hc : c = a.core
  · subst hc
    rcases hcore with ⟨dying, hscan, hdying⟩ | htake
    · rcases hturn.errand_kept hscan with hkept | ⟨rest, herr⟩
      · exact .inl ⟨a.core, .inl ⟨dying, hkept, hdying⟩⟩
      · have hstep := step_of_next hs
        unfold step at hstep
        simp only [herr, errandStep] at hstep
        cases hstep
        by_cases he : e ∈ orphanedEndpoints s.sched dying
        · refine .inl ⟨a.core, .inr ?_⟩
          rw [goto_errands]
          exact List.mem_append_left _ (List.mem_map.mpr ⟨e, he, rfl⟩)
        · rw [mem_orphanedEndpoints] at he
          push Not at he
          obtain ⟨q, Q, hQ, hsends⟩ := he hdying
          exact .inr (.inl ⟨rfl, q, Q, hQ, hsends⟩)
    · rcases hturn.errand_kept htake with hkept | hhead
      · exact .inl ⟨a.core, .inr hkept⟩
      · exact .inr (.inr hhead)
  · refine .inl ⟨c, ?_⟩
    rw [hturn.others hc]
    exact hcore

end

section

variable [Fintype E]

theorem Company.peer_of_taken (hcompany : s.Company e g) (hP : s.sched.view p = .occupied P)
    (hplace : (g p).place = some (.receiver e)) (hclaim : .receives e ∈ s.claims p)
    (hslot : (s.endpoints e).receiver? ≠ some (.process p)) : s.HasPeer e p := by
  rcases mem_claims.mp hclaim with ⟨e', he'⟩ | ⟨d, y, hy, hyclaim⟩
  · rcases mem_slotClaims.mp he' with ⟨heq, -⟩ | ⟨heq, hreceiver⟩
    · cases heq
    · cases heq
      exact absurd hreceiver hslot
  · have hserves : y.servesReceiver p = true := by
      cases y <;> cases hyclaim
      exact decide_eq_true rfl
    obtain ⟨q, Q, hqp, -, hQ, hsends⟩ := hcompany.served d p P y hP hplace hy hserves
    exact ⟨q, Q, hqp, hQ, hsends⟩

end

section

variable [DecidableEq E]

theorem next_quiet (hquiet : ∀ c message waker, .pollSend e message waker ∉ (s.cores c).errands)
    (hs : s.next a = some s') (hchoice : ∀ message waker, a.choice ≠ .pollSend e message waker)
    {message : Message} {waker : ℕ} : .pollSend e message waker ∉ (s'.cores c).errands := by
  intro hy
  have hturn := next_turn hs
  by_cases hc : c = a.core
  · subst hc
    rcases hturn.brings hy with hold | hbrings
    · exact hquiet _ _ _ hold
    · cases hbrings with
      | keeping hkeeping => cases hkeeping
      | @offers _ _ _ rest herr =>
        have hrest : ∀ x ∈ rest, x ∈ (s.cores a.core).errands := fun x hx ↦ by
          rw [herr]
          exact List.mem_cons_of_mem _ hx
        have hstep := step_of_next hs
        unfold step at hstep
        simp only [herr, errandStep] at hstep
        split at hstep
        all_goals
          cases hstep
          rw [goto_errands] at hy
        · rename_i e' message' waker' hsend
          simp only [List.cons_append, List.nil_append, List.mem_cons, reduceCtorEq, false_or] at hy
          rcases hy with heq | hold
          · cases heq
            exact hchoice _ _ hsend
          · exact hquiet _ _ _ (hrest _ hold)
        · simp only [List.cons_append, List.nil_append, List.mem_cons, reduceCtorEq, false_or] at hy
          exact hquiet _ _ _ (hrest _ hy)
        · exact hquiet _ _ _ (hrest _ hy)
  · rw [hturn.others hc] at hy
    exact hquiet _ _ _ hy

end

variable [Fintype E]

theorem Fits.place_before {x : Claim E} {place : Place E} (hfits : s.Fits g) (h : s.Inv False)
    (hP : s.sched.view p = .occupied P) (hx : x ∈ s.claims p)
    (hplace : (s.journal a s' g p).place = some place) : (g p).place = some place := by
  have hnoted := hfits.noted (a := a) (u := s') h hP
  generalize s.journal a s' g p = k at hplace hnoted
  cases hnoted with
  | begun => cases hplace
  | registered _ hg =>
    have hsays := hfits.claims p P hP x hx
    rw [hg] at hsays
    cases x <;> cases hsays.1
  | settled | same => exact hplace

variable [DecidableEq E]

theorem Inv.alarmed_of_gone (h : s.Inv False) (hs : s.next a = some s')
    (hP : s.sched.view p = .occupied P) (hsends : P.Sends e)
    (hgone : ∀ P', s'.sched.view p ≠ .occupied P') : s'.Alarmed e := by
  have hscan : ∀ {q Q status}, s.terminates a.core = some (q, status) → s.sched.view q = .occupied Q →
      (p = q ∨ P.parent = some q ∧ P.state = .suspended) → s'.Alarmed e := by
    intro q Q status hends hQ hdies
    obtain ⟨slot, hslot, hto⟩ := hsends
    refine ⟨a.core, .inl ⟨_, (next_of_terminates hends hs).2, slot, ?_, hto⟩⟩
    exact List.mem_flatMap.mpr ⟨P, mem_drops h.scene.sound hQ hP hdies, hslot⟩
  have hfate := h.fate (p := p) (next_turn hs)
  rw [hP] at hfate
  generalize hslot : s'.sched.view p = slot at hfate
  cases hfate with
  | same | rewritten | orphaned => exact absurd hslot (hgone _)
  | ended hends => exact hscan hends hP (.inl rfl)
  | reaped hends hQ hparent hstate => exact hscan hends hQ (.inr ⟨hparent, hstate⟩)

theorem Inv.peer_next (h : s.Inv False) (hhoused : s.Housed) (hs : s.next a = some s')
    (hqp : q ≠ p) (hQ : s.sched.view q = .occupied Q) (hstate : Q.state ≠ .suspended)
    (hsends : Q.Sends e) : s'.HasPeer e p ∨ s'.Alarmed e := by
  by_cases hlive : ∃ Q', s'.sched.view q = .occupied Q'
  · obtain ⟨Q', hQ'⟩ := hlive
    exact .inl ⟨q, Q', hqp, hQ', (hhoused.sends_iff hs hQ hQ' hstate).mpr hsends⟩
  · push Not at hlive
    exact .inr (h.alarmed_of_gone hs hQ hsends hlive)

theorem Company.next_sponsored (hcompany : s.Company e g) (h : s.Inv False) (h' : s'.Inv False)
    (hhoused : s.Housed) (hbacked : s.Backed) (hs : s.next a = some s')
    (hP' : s'.sched.view p = .occupied P') (hstate : P'.state = .suspended) (hsends : P'.Sends e) :
    ∃ q Q, P'.parent = some q ∧ s'.sched.view q = .occupied Q ∧ Q.Sends e := by
  have hcustody := (next_turn hs).custody
  obtain ⟨P, q, Q, hP, hsame, hparent, hQ, hsendsQ⟩ : ∃ P q Q, s.sched.view p = .occupied P ∧
      P'.parent = P.parent ∧ P.parent = some q ∧ s.sched.view q = .occupied Q ∧ Q.Sends e := by
    obtain ⟨slot, hslot, hto⟩ := hsends
    cases hhoused.inherits hcustody hP' with
    | @same P hP hbecame =>
      have hsus := hbecame.suspended hstate
      obtain ⟨q, Q, hparent, hQ, hsendsQ⟩ :=
        hcompany.sponsored p P hP hsus ⟨slot, hbecame.capTable ▸ hslot, hto⟩
      have hfate := h.fate (p := p) (next_turn hs)
      rw [hP, hP'] at hfate
      have hsame : P'.parent = P.parent := by
        cases hfate with
        | same => rfl
        | rewritten hsame => exact hsame
        | orphaned _ _ _ hne => exact absurd hsus hne
        | ended _ hslot =>
          unfold Table.remains at hslot
          split at hslot <;> cases hslot
        | reaped _ _ _ _ hslot => split at hslot <;> cases hslot
      exact ⟨P, q, Q, hP, hsame, hparent, hQ, hsendsQ⟩
    | @granted P granter dest new hP hparent hsus hnew hlog =>
      subst hnew
      rcases CapTable.mem_iter_insert hslot with rfl | hold
      · obtain ⟨-, Q, held, hQ, hheld, hobject, hrights⟩ :=
          hbacked a.core _ _ (hcustody.granted_of_log hlog)
        exact ⟨P, granter, Q, hP, rfl, hparent, hQ, held, hheld,
          Rights.contains_trans hrights hto.1, hobject ▸ hto.2⟩
      · obtain ⟨q, Q, hparent, hQ, hsendsQ⟩ := hcompany.sponsored p P hP hsus ⟨slot, hold, hto⟩
        exact ⟨P, q, Q, hP, rfl, hparent, hQ, hsendsQ⟩
    | spawned _ hbare =>
      rw [hbare] at hslot
      cases hslot
    | seeded boot frame entry _ hnew =>
      rw [hnew] at hstate
      cases hstate
  obtain ⟨-, Q₀, hQ₀, hQstate⟩ := h.scene.sound.parent p P q hP hparent
  cases hQ.symm.trans hQ₀
  obtain ⟨-, Q', hQ', -⟩ := h'.scene.sound.parent p P' q hP' (hsame.trans hparent)
  exact ⟨q, Q', hsame.trans hparent, hQ', (hhoused.sends_iff hs hQ hQ' hQstate).mpr hsendsQ⟩

theorem Company.next_served (hcompany : s.Company e g) (h : s.Inv False)
    (h' : s'.Inv False) (hwrap : s.NoWrap a) (hfits : s.Fits g) (haims : s.Aims) (hhoused : s.Housed)
    (hs : s.next a = some s') (hP' : s'.sched.view p = .occupied P')
    (hplace : (s.journal a s' g p).place = some (.receiver e)) (hx : x ∈ (s'.cores c).errands)
    (hserves : x.servesReceiver p = true) :
    ∃ q Q, q ≠ p ∧ s'.sched.current c = some q ∧ s'.sched.view q = .occupied Q ∧ Q.Sends e := by
  have hturn := next_turn hs
  have heff := h.effect hwrap hs
  have hcarry : ∀ {q Q}, q ≠ p → s.sched.current c = some q → s.sched.view q = .occupied Q →
      Q.Sends e → s'.sched.current c = s.sched.current c →
      ∃ q Q, q ≠ p ∧ s'.sched.current c = some q ∧ s'.sched.view q = .occupied Q ∧ Q.Sends e := by
    intro q Q hqp hc hQ hsends hcurrent
    obtain ⟨Q', hQ', -⟩ := h'.scene.sound.running c q (hcurrent.trans hc)
    have hrun : Q.state ≠ .suspended := by
      rw [h.scene.state_running hc hQ]
      simp
    exact ⟨q, Q', hqp, hcurrent.trans hc, hQ', (hhoused.sends_iff hs hQ hQ' hrun).mpr hsends⟩
  obtain ⟨P, hP⟩ : ∃ P, s.sched.view p = .occupied P := by
    rcases hfits.live_or_fresh h hs hP' with hlive | ⟨f, hfresh⟩
    · exact hlive
    · rw [hfresh] at hplace
      cases hplace
  have hold : ∀ {y : Errand E}, y ∈ (s.cores c).errands → y.servesReceiver p = true →
      s'.sched.current c = s.sched.current c →
      ∃ q Q, q ≠ p ∧ s'.sched.current c = some q ∧ s'.sched.view q = .occupied Q ∧ Q.Sends e := by
    intro y hy hserves hcurrent
    obtain ⟨z, hz⟩ := claim_of_serves hserves
    have hplace₀ := hfits.place_before h hP (claims_of_errand hy hz) hplace
    obtain ⟨q, Q, hqp, hc, hQ, hsends⟩ := hcompany.served c p P y hP hplace₀ hy hserves
    exact hcarry hqp hc hQ hsends hcurrent
  by_cases hc : c = a.core
  · subst hc
    rcases hturn.brings hx with hx₀ | hbrings
    · exact hold hx₀ hserves (heff.current_of_errands fun hnil ↦ by rw [hnil] at hx₀; cases hx₀)
    · cases hbrings with
      | keeping hkeeping => cases x <;> first | cases hserves | cases hkeeping
      | @receiver e' pid w hgives hslot =>
        cases of_decide_eq_true hserves
        have hclaim : .receives e' ∈ s.claims p :=
          claims_of_slot (mem_slotClaims.mpr (.inr ⟨rfl, hslot⟩))
        have hplace₀ := hfits.place_before h hP hclaim hplace
        cases hplace₀.symm.trans (hfits.claims p P hP _ hclaim).1
        cases hgives with
        | @task message waker rest herr =>
          refine absurd ?_ (hcompany.quiet a.core message waker)
          rw [herr]
          exact List.mem_cons_self
        | @call message q f herr hmain =>
          have hc := h.current_of_caller hmain rfl
          obtain ⟨Q, hQ, -⟩ := h.scene.sound.running _ _ hc
          have haim := haims a.core q Q hc hQ
          rw [hmain] at haim
          have hqp : q ≠ p := by
            rintro rfl
            have hparks := h.unserved_of_claim (c := a.core) hP hclaim hc
            rw [hmain] at hparks
            cases hparks
          refine hcarry hqp hc hQ (sends_of_resolveEndpoint haim.2.1) ?_
          have hstep := mainStep_of_next hs herr hmain
          simp only [mainStep] at hstep
          rw [(Trade.trySend herr hmain hstep).sched]
      | @hands e' pid parcel rest herr =>
        refine hold (y := .wakeReceiver e' pid) (by rw [herr]; exact List.mem_cons_self) hserves
          (heff.current_of_errands (by rw [herr]; simp))
      | _ => cases hserves
  · rw [hturn.others hc] at hx
    exact hold hx hserves (heff.current_other h hc)

theorem Company.peer_next (hcompany : s.Company e g) (h : s.Inv False) (hhoused : s.Housed)
    (hs : s.next a = some s') (hP : s.sched.view p = .occupied P) (hnot : ¬ P.Sends e)
    (hpeer : s.HasPeer e p) : s'.HasPeer e p ∨ s'.Alarmed e := by
  obtain ⟨q, Q, hqp, hQ, hsends⟩ := hpeer
  by_cases hstate : Q.state = .suspended
  · obtain ⟨r, R, hparent, hR, hsendsR⟩ := hcompany.sponsored q Q hQ hstate hsends
    obtain ⟨-, R₀, hR₀, hRstate⟩ := h.scene.sound.parent q Q r hQ hparent
    cases hR.symm.trans hR₀
    refine h.peer_next hhoused hs (fun hrp ↦ hnot ?_) hR hRstate hsendsR
    cases (hrp ▸ hR).symm.trans hP
    exact hsendsR
  · exact h.peer_next hhoused hs hqp hQ hstate hsends

/-- The steps that leave no receiver at `e` without a peer by themselves: the counters do not wrap,
no receiver is turned down by `wake_receiver`, no task offers a message at `e`, and whoever registers
as the receiver cannot send to `e` while another process can. -/
structure Escorts (e : E) (s : State E) (a : Action E) : Prop where
  wrap : s.NoWrap a
  keeps : s.Keeps a
  quiet : ∀ message waker, a.choice ≠ .pollSend e message waker
  peer : ∀ p P, s.sched.view p = .occupied P → s.registered a.core p = some (.receiver e) →
    ¬ P.Sends e ∧ s.HasPeer e p

theorem Company.next_waiting (hcompany : s.Company e g) (h : s.Inv True) (hfalse : s.Inv False)
    (hok : s.Escorts e a) (hfits : s.Fits g) (hengaged : s.Engaged g) (hhoused : s.Housed)
    (hs : s.next a = some s') (hP' : s'.sched.view p = .occupied P')
    (hplace : (s.journal a s' g p).place = some (.receiver e))
    (hnone : (s.journal a s' g p).outcome = none) :
    ¬ P'.Sends e ∧ (s'.HasPeer e p ∨ s'.Alarmed e) := by
  obtain ⟨P, hP⟩ : ∃ P, s.sched.view p = .occupied P := by
    rcases hfits.live_or_fresh hfalse hs hP' with hlive | ⟨f, hfresh⟩
    · exact hlive
    · rw [hfresh] at hplace
      cases hplace
  have hnoted := hfits.noted (a := a) (u := s') hfalse hP
  generalize s.journal a s' g p = k at hplace hnone hnoted
  cases hnoted with
  | begun => cases hplace
  | settled => cases hnone
  | registered hr =>
    cases hplace
    obtain ⟨hnot, hpeer⟩ := hok.peer p P hP hr
    obtain ⟨herr, -, -, ⟨_, hplace, _⟩ | ⟨e', hplace, henters⟩ | ⟨_, _, hplace, _⟩⟩ :=
      registered_cases hr
    · cases hplace
    · cases hplace
      cases henters with
      | receives _ hmain _ =>
        have hstep := mainStep_of_next hs herr hmain
        simp only [mainStep] at hstep
        rw [(Trade.tryRecv herr hmain hstep).sched] at hP'
        cases hP.symm.trans hP'
        unfold HasPeer
        rw [(Trade.tryRecv herr hmain hstep).sched]
        exact ⟨hnot, .inl hpeer⟩
    · cases hplace
  | same _ _ hset =>
    obtain ⟨hnot, hpeer⟩ := hcompany.waiting p P hP hplace hnone
    have hstate : P.state ≠ .suspended := by
      intro hsus
      cases hplace.symm.trans ((hfits.records p P hP).suspended hsus).2.1
    refine ⟨fun hsends ↦ hnot ((hhoused.sends_iff hs hP hP' hstate).mp hsends), ?_⟩
    rcases hpeer with hpeer | halarmed
    · exact hcompany.peer_next hfalse hhoused hs hP hnot hpeer
    · rcases halarmed.next hs with halarmed' | ⟨hsched, q, Q, hQ, hsends⟩ | ⟨rest, herr⟩
      · exact .inr halarmed'
      · refine .inl ⟨q, Q, fun hqp ↦ hnot ?_, by rw [hsched]; exact hQ, hsends⟩
        cases (hqp ▸ hQ).symm.trans hP
        exact hsends
      · have hclaim := h.claim_of_engaged hfits hP hplace hnone
          (hengaged p P hP (by rw [hplace]; rfl) hnone)
        refine hcompany.peer_next hfalse hhoused hs hP hnot
          (hcompany.peer_of_taken hP hplace hclaim fun hslot ↦ ?_)
        cases hset.symm.trans (settled_of_take herr hslot)

end Steps

def Terminating (s : State E) (c : CoreId) : Bool :=
  ((s.cores c).errands.any fun
    | .wakeOrphanedReceivers _ | .takeWaitingReceiver _ | .peerClosed _ => true
    | _ => false) ||
  match (s.cores c).main with
  | .exitCurrent _ | .markStackBusy _ _ | .finalize _ _ | .killScan _ _ | .killEvict _ _ _
  | .killSpin _ _ _ => true
  | _ => false

def Quiescent (s : State E) : Prop := ∀ c, s.Terminating c = false

section Runs

variable {s : State E} {p : Pid} {P : Process E} {e : E} {g : Journal E}

theorem Quiescent.errand {c : CoreId} (h : s.Quiescent)
    (hx : x ∈ (s.cores c).errands) : (∀ dying, x ≠ .wakeOrphanedReceivers dying) ∧
      (∀ e, x ≠ .takeWaitingReceiver e) ∧ ∀ p, x ≠ .peerClosed p := by
  have hnone := (Bool.or_eq_false_iff.mp (h c)).1
  rw [List.any_eq_false] at hnone
  have hx := hnone x hx
  refine ⟨?_, ?_, ?_⟩ <;> rintro _ rfl <;> exact hx rfl

section

variable [Fintype E]

/-- A process blocked in `SYS_RECV` is registered as a receiver. -/
theorem Placed.receives (hplaced : s.Placed g) (hfits : s.Fits g) (hP : s.sched.view p = .occupied P)
    (hreceives : receivesFrom P = some e) :
    P.state = .blocked ∧ (g p).place = some (.receiver e) := by
  unfold receivesFrom at hreceives
  split at hreceives
  · rename_i hcall
    obtain ⟨hblocked, hrax⟩ := hcall
    obtain ⟨hframe, hsome⟩ := (hfits.records p P hP).blocked hblocked
    replace hframe : P.trapFrame = (g p).trap := hframe
    rw [hframe] at hrax hreceives
    obtain ⟨place, hplace⟩ := Option.isSome_iff_exists.mp hsome
    have hasked := hplaced p P hP place hplace
    refine ⟨hblocked, ?_⟩
    cases place with
    | sender e' | child q => exact absurd (hrax.symm.trans hasked.1) (by decide)
    | receiver e' =>
      rw [hasked.2] at hreceives
      cases hreceives
      exact hplace
  · cases hreceives

end

theorem Quiescent.not_alarmed (h : s.Quiescent) : ¬ s.Alarmed e := by
  rintro ⟨c, ⟨dying, hscan, -⟩ | htake⟩
  · exact (h.errand hscan).1 dying rfl
  · exact (h.errand htake).2.1 e rfl

variable [Fintype E]

theorem Company.hasPeer (hcompany : s.Company e g) (h : s.Inv True) (hfits : s.Fits g)
    (hquiescent : s.Quiescent) (hP : s.sched.view p = .occupied P) (hblocked : P.state = .blocked)
    (hplace : (g p).place = some (.receiver e)) : s.HasPeer e p := by
  cases houtcome : (g p).outcome with
  | none =>
    obtain ⟨-, hpeer | halarmed⟩ := hcompany.waiting p P hP hplace houtcome
    · exact hpeer
    · exact absurd halarmed hquiescent.not_alarmed
  | some result =>
    obtain ⟨x, hx, hsays⟩ := h.claim_of_blocked hfits hP hplace hblocked
    -- the registration has ended, so the wake is on its way
    have hdone : x = .done result := by
      cases x with
      | sends | receives => cases houtcome.symm.trans hsays.2
      | done result' =>
        cases houtcome.symm.trans hsays.2
        rfl
    subst hdone
    rcases mem_claims.mp hx with ⟨e', he'⟩ | ⟨c, y, hy, hyclaim⟩
    · rcases mem_slotClaims.mp he' with ⟨heq, -⟩ | ⟨heq, -⟩ <;> cases heq
    · have hserves : y.servesReceiver p = true := by
        cases y with
        | wakeReceiver e' q => cases hyclaim
        | handOver q parcel =>
          cases hyclaim
          exact decide_eq_true rfl
        | peerClosed q => exact absurd rfl ((hquiescent.errand hy).2.2 q)
        | wakeSender q id =>
          cases hyclaim
          rcases hfits.outcome p P hP _ _ hplace houtcome with hbad | ⟨message, hbad⟩ <;> cases hbad
        | _ => cases hyclaim
      obtain ⟨q, Q, hqp, -, hQ, hsends⟩ := hcompany.served c p P y hP hplace hy hserves
      exact ⟨q, Q, hqp, hQ, hsends⟩

variable [DecidableEq E]

/-- In every run in which whoever registers as the receiver at `e` cannot send there while another
process can, no process is left blocked in `SYS_RECV` at `e` without a peer. -/
theorem hasPeer_of_reach (config : BootConfig E) (e : E) (s : State E)
    (h : Reach next (State.Escorts e) (init config) s) (hquiescent : s.Quiescent)
    (p : Pid) (P : Process E) (hP : s.sched.view p = .occupied P)
    (hreceives : receivesFrom P = some e) :
    s.HasPeer e p := by
  have hbase : ∀ t, Reach next (State.Escorts e) (init config) t →
      t.Inv True ∧ t.Inv False ∧ t.Housed ∧ t.Aims ∧ t.Backed := fun t ht ↦
    have hwrap := ht.mono fun _ _ hok ↦ hok.wrap
    ⟨inv_of_reach (fun _ _ hok ↦ hok.wrap) (fun _ _ _ hok ↦ hok.keeps) ht,
      inv_of_noWrap (fun _ _ hok ↦ hok) hwrap, (lawful_of_reach hwrap).1, aims_of_reach hwrap,
      backed_of_reach hwrap⟩
  obtain ⟨g, hrun⟩ := h.recorded journal fun _ ↦ .fresh userFrame
  obtain ⟨hfits, hplaced, -, hcompany⟩ : s.Fits g ∧ s.Placed g ∧ s.Engaged g ∧ s.Company e g := by
    refine Reach.noted_invariant
      (I := fun t g ↦ t.Fits g ∧ t.Placed g ∧ t.Engaged g ∧ t.Company e g) hbase ?_ ?_ hrun
    · exact ⟨Fits.init config _, Placed.init config _, Engaged.init config _, Company.init config _⟩
    · intro t a u g ⟨htrue, hinv, hhoused, haims, hbacked⟩ ⟨hfits, hplaced, hengaged, hcompany⟩ hok hs
      have hinv' : u.Inv False := hinv.next hok.wrap False.elim hs
      exact ⟨hfits.next hinv hok.wrap hs, hplaced.next hfits hinv haims hhoused hs,
        hengaged.next hinv hok.wrap hfits hs, fun c _ _ ↦ next_quiet hcompany.quiet hs hok.quiet,
        fun p P' hP' hstate hsends ↦
          hcompany.next_sponsored hinv hinv' hhoused hbacked hs hP' hstate hsends,
        fun c p P' x hP' hplace hx hserves ↦
          hcompany.next_served hinv hinv' hok.wrap hfits haims hhoused hs hP' hplace hx hserves,
        fun p P' hP' hplace hnone ↦
          hcompany.next_waiting htrue hinv hok hfits hengaged hhoused hs hP' hplace hnone⟩
  obtain ⟨hblocked, hplace⟩ := hplaced.receives hfits hP hreceives
  exact hcompany.hasPeer (hbase s h).1 hfits hquiescent hP hblocked hplace

end Runs

section Checks

variable {s : State E} {a : Action E} {p : Pid} {P : Process E} {e : E}

def Choice.offersAt : Choice E → Option E
  | .pollSend e _ _ => some e
  | _ => none

theorem escorts_iff : s.Escorts e a ↔ s.NoWrap a ∧ s.Keeps a ∧ Choice.offersAt a.choice ≠ some e ∧
    ∀ p ∈ (s.cores a.core).main.caller, ∀ P ∈ s.sched.occupiedMut p,
      s.registered a.core p = some (.receiver e) → ¬ P.Sends e ∧ s.HasPeer e p := by
  constructor
  · intro h
    refine ⟨h.wrap, h.keeps, fun hoffers ↦ ?_, fun p _ P hP hr ↦
      h.peer p P (occupiedMut_eq_some.mp hP) hr⟩
    unfold Choice.offersAt at hoffers
    split at hoffers
    · rename_i message waker hchoice
      cases hoffers
      exact h.quiet message waker hchoice
    · cases hoffers
  · rintro ⟨hwrap, hkeeps, hquiet, hpeer⟩
    refine ⟨hwrap, hkeeps, fun message waker hchoice ↦ hquiet ?_, fun p P hP hr ↦
      hpeer p (registered_cases hr).2.1 P (occupiedMut_eq_some.mpr hP) hr⟩
    rw [hchoice]
    rfl

variable [DecidableEq E]

theorem hasPeer_iff : s.HasPeer e p ↔ ∃ i, s.sched.pidAt i ≠ p ∧
    (match s.sched.processes i with
    | .occupied Q => decide (Q.Sends e)
    | _ => false) = true := by
  constructor
  · rintro ⟨q, Q, hqp, hQ, hsends⟩
    obtain ⟨i, -, rfl, -⟩ := slot_of_eq hQ
    rw [view_pidAt] at hQ
    exact ⟨i, hqp, by rw [hQ]; exact decide_eq_true hsends⟩
  · rintro ⟨i, hip, hi⟩
    split at hi
    · rename_i Q hQ
      exact ⟨s.sched.pidAt i, Q, hip, by rw [view_pidAt, hQ], of_decide_eq_true hi⟩
    · cases hi

instance (s : State E) (e : E) (p : Pid) : Decidable (s.HasPeer e p) := decidable_of_iff' _ hasPeer_iff

instance (s : State E) : Decidable s.Quiescent :=
  inferInstanceAs (Decidable (∀ c, s.Terminating c = false))

variable [Fintype E]

instance (s : State E) (e : E) (a : Action E) : Decidable (s.Escorts e a) :=
  decidable_of_iff' _ escorts_iff

end Checks

def receivesAt (s : State E) (p : Pid) : Option E := (s.sched.occupiedMut p).bind receivesFrom

theorem receivesAt_iff {s : State E} {p : Pid} {e : E} :
    s.receivesAt p = some e ↔ ∃ P, s.sched.view p = .occupied P ∧ receivesFrom P = some e := by
  simp only [receivesAt, Option.bind_eq_some_iff, occupiedMut_eq_some]

theorem hasPeer_of_reach_receiveFirst :
    ∃ s P, Reach next (State.Escorts ()) (init soloEndpoint) s ∧ s.Quiescent ∧
      s.sched.view twin = .occupied P ∧ receivesFrom P = some () ∧ s.HasPeer () twin := by
  obtain ⟨s, hreach, hquiescent, hreceives⟩ : ∃ s, Reach next (State.Escorts ())
      (init soloEndpoint) s ∧ s.Quiescent ∧ s.receivesAt twin = some () :=
    exists_of_run receiveFirst (by decide +kernel) fun _ _ h ↦ h
  obtain ⟨P, hP, hreceives⟩ := receivesAt_iff.mp hreceives
  exact ⟨s, P, hreach, hquiescent, hP, hreceives,
    hasPeer_of_reach soloEndpoint () s hreach hquiescent twin P hP hreceives⟩

def receiveLate : List (Action Unit) :=
  bothRun ++ serve 0 sysExit 0 9 ++ serve 1 sysRecv 0 5

def receiveAsSender : List (Action Unit) :=
  bootSolo ++ spawnOn 0 1 ++ grantTo twin 1 ++ startOn 0 twin ++ advance 1 3 ++
    serve 0 sysRecv 0 5 ++ serve 1 sysExit 0 7

/-- A process that receives after its last peer is gone, and one that can itself send, are not told
that nobody else can send any more. -/
theorem receiver_forgotten :
    (∃ s, Reach next (fun t a ↦ t.NoWrap a ∧ t.Keeps a ∧ Choice.offersAt a.choice = none)
        (init soloEndpoint) s ∧
      s.Quiescent ∧ s.receivesAt twin = some () ∧ ¬ s.HasPeer () twin) ∧
    ∃ s, Reach next (fun t a ↦ t.NoWrap a ∧ t.Keeps a ∧ Choice.offersAt a.choice = none)
        (init soloEndpoint) s ∧
      s.Quiescent ∧ s.receivesAt (Pid.new 0 1) = some () ∧ ¬ s.HasPeer () (Pid.new 0 1) :=
  ⟨exists_of_run receiveLate (by decide +kernel) fun _ _ hlate ↦ hlate,
    exists_of_run receiveAsSender (by decide +kernel) fun _ _ hsender ↦ hsender⟩

end State

end Tarnos.Kernel
