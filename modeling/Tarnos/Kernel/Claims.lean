import Tarnos.Kernel.Consistency

namespace Tarnos.Kernel

open Abi Arch Kcore Tarnos.Task Function

variable {E : Type} {core : Core E}

/-- What a place that names a waiting process says about its call: it sends to an endpoint, it
receives from one, or it is over with a result. -/
inductive Claim (E : Type)
  | sends (e : E)
  | receives (e : E)
  | done (result : WakeResult)
  deriving DecidableEq

def Errand.claim : Errand E → Option (Pid × Claim E)
  | .wakeReceiver e pid => some (pid, .receives e)
  | .wakeSender pid _ => some (pid, .done .sendCompleted)
  | .handOver pid parcel => some (pid, .done (recvCompleted parcel.message))
  | .peerClosed pid => some (pid, .done .peerClosed)
  | _ => none

def waiterClaims (p : Pid) (x : Claim E) : EndpointWaiter → Multiset (Claim E)
  | .process q => if q = p then {x} else 0
  | _ => 0

def slotClaims (p : Pid) (e : E) (slot : EndpointSlot) : Multiset (Claim E) :=
  (slot.entries.map fun entry ↦ waiterClaims p (.sends e) entry.2).sum +
    slot.receiver?.elim 0 (waiterClaims p (.receives e))

def errandClaims (p : Pid) (errand : Errand E) : Multiset (Claim E) :=
  match errand.claim with
  | some (q, x) => if q = p then {x} else 0
  | none => 0

theorem mem_waiterClaims {p : Pid} {x y : Claim E} {w : EndpointWaiter} :
    y ∈ waiterClaims p x w ↔ w = .process p ∧ y = x := by
  cases w with
  | process q =>
    by_cases hq : q = p <;> simp [waiterClaims, hq]
  | _ => simp [waiterClaims]

theorem mem_sum_map {α β : Type} {f : α → Multiset β} {l : List α} {x : β} :
    x ∈ (l.map f).sum ↔ ∃ a ∈ l, x ∈ f a := by
  induction l with
  | nil => simp
  | cons a l ih => simp [ih]

theorem mem_slotClaims {p : Pid} {e : E} {x : Claim E} {slot : EndpointSlot} :
    x ∈ slotClaims p e slot ↔ (x = .sends e ∧ ∃ parcel, (parcel, .process p) ∈ slot.entries) ∨
      x = .receives e ∧ slot.receiver? = some (.process p) := by
  unfold slotClaims
  rw [Multiset.mem_add, mem_sum_map]
  refine or_congr ⟨?_, ?_⟩ ?_
  · intro ⟨entry, hentry, hx⟩
    obtain ⟨hwaiter, rfl⟩ := mem_waiterClaims.mp hx
    exact ⟨rfl, entry.1, hwaiter ▸ hentry⟩
  · intro ⟨hx, parcel, hentry⟩
    exact ⟨_, hentry, mem_waiterClaims.mpr ⟨rfl, hx⟩⟩
  · cases slot.receiver? with
    | none => simp
    | some r => simp [mem_waiterClaims, and_comm]

theorem mem_errandClaims {p : Pid} {x : Claim E} {errand : Errand E} :
    x ∈ errandClaims p errand ↔ errand.claim = some (p, x) := by
  unfold errandClaims
  split
  · rename_i q y hclaim
    by_cases hq : q = p
    · simp [hclaim, hq, eq_comm]
    · simp [hclaim, hq]
  · rename_i hclaim
    simp [hclaim]

theorem card_waiterClaims (p : Pid) (x : Claim E) (w : EndpointWaiter) :
    (waiterClaims p x w).card = waiterTokens p w := by
  cases w with
  | process q => by_cases hq : q = p <;> simp [waiterClaims, waiterTokens, hq]
  | _ => rfl

theorem card_slotClaims (p : Pid) (e : E) (slot : EndpointSlot) :
    (slotClaims p e slot).card = slotTokens p slot := by
  have hsum : ∀ l : List (Parcel × EndpointWaiter),
      (l.map fun entry ↦ waiterClaims p (.sends e) entry.2).sum.card =
        (l.map fun entry ↦ waiterTokens p entry.2).sum := by
    intro l
    induction l with
    | nil => rfl
    | cons entry l ih => simp [ih, card_waiterClaims]
  rw [slotClaims, slotTokens_eq, Multiset.card_add, hsum]
  cases slot.receiver? with
  | none => rfl
  | some r => simp [card_waiterClaims]

theorem card_errandClaims (p : Pid) (errands : List (Errand E)) :
    (errands.map (errandClaims p)).sum.card = (errands.map (errandTokens p)).sum := by
  have hone : ∀ x : Errand E, (errandClaims p x).card = errandTokens p x := by
    intro x
    cases x with
    | wakeReceiver e q | wakeSender q id | handOver q parcel | peerClosed q =>
      by_cases hq : q = p <;> simp [errandClaims, Errand.claim, errandTokens, hq]
    | _ => rfl
  induction errands with
  | nil => rfl
  | cons x errands ih => simp [ih, hone]

namespace State

/-- Everything the endpoints and the cores say about the call of `p`. -/
def claims [Fintype E] (s : State E) (p : Pid) : Multiset (Claim E) :=
  ∑ e, slotClaims p e (s.endpoints e) + ∑ c, ((s.cores c).errands.map (errandClaims p)).sum

inductive Takes (s : State E) (c : CoreId) (e : E) : EndpointWaiter → Prop
  | task {waker : ℕ} {rest : List (Errand E)} (herr : (s.cores c).errands = .pollRecv e waker :: rest) :
      Takes s c e (.task waker)
  | displaced {pid : Pid} {rest : List (Errand E)}
      (herr : (s.cores c).errands = .wakeReceiver e pid :: rest) : Takes s c e (.process pid)
  | call {pid : Pid} {f : TrapFrame} (herr : (s.cores c).errands = [])
      (hmain : (s.cores c).main = .tryRecv e pid f) : Takes s c e (.process pid)

inductive Consumes (s : State E) (c : CoreId) (p : Pid) : Claim E → WakeResult → Prop
  | sender {e : E} {w : EndpointWaiter} {parcel : Parcel} {slot : EndpointSlot}
      (htakes : s.Takes c e w)
      (hrecv : (s.endpoints e).tryRecv w = some (.delivered parcel (.process p), slot)) :
      Consumes s c p (.sends e) .sendCompleted
  | receiver {e : E} {parcel : Parcel} {sender : EndpointWaiter} {slot : EndpointSlot}
      {rest : List (Errand E)} (herr : (s.cores c).errands = .wakeReceiver e p :: rest)
      (hrecv : (s.endpoints e).tryRecv (.process p) = some (.delivered parcel sender, slot)) :
      Consumes s c p (.receives e) (recvCompleted parcel.message)
  | orphan {e : E} {rest : List (Errand E)}
      (herr : (s.cores c).errands = .takeWaitingReceiver e :: rest)
      (hslot : s.endpoints e = .receiverWaiting (.process p)) :
      Consumes s c p (.receives e) .peerClosed

inductive Enters (s : State E) (c : CoreId) (p : Pid) : Claim E → Prop
  | sends {e : E} {message : Message} {f : TrapFrame} {slot : EndpointSlot}
      (herr : (s.cores c).errands = []) (hmain : (s.cores c).main = .trySend e message p f)
      (hsend : (s.endpoints e).trySend ⟨s.nextId, message⟩ (.process p) = (.enqueued, slot)) :
      Enters s c p (.sends e)
  | receives {e : E} {f : TrapFrame} {slot : EndpointSlot} (herr : (s.cores c).errands = [])
      (hmain : (s.cores c).main = .tryRecv e p f)
      (hrecv : (s.endpoints e).tryRecv (.process p) = some (.enqueued, slot)) :
      Enters s c p (.receives e)

variable [Fintype E] {s b : State E} {c : CoreId} {p : Pid} {x : Claim E}

theorem card_claims : (s.claims p).card = s.tokens p := by
  unfold claims tokens coreTokens
  simp only [Multiset.card_add, Multiset.card_sum, card_slotClaims, card_errandClaims]

theorem mem_claims : x ∈ s.claims p ↔
    (∃ e, x ∈ slotClaims p e (s.endpoints e)) ∨
      ∃ c, ∃ y ∈ (s.cores c).errands, y.claim = some (p, x) := by
  unfold claims
  simp only [Multiset.mem_add, Multiset.mem_sum, Finset.mem_univ, true_and, mem_sum_map,
    mem_errandClaims]

theorem claims_of_errand {y : Errand E} (hy : y ∈ (s.cores c).errands)
    (hclaim : y.claim = some (p, x)) : x ∈ s.claims p :=
  mem_claims.mpr (.inr ⟨c, y, hy, hclaim⟩)

theorem claims_of_slot {e : E} (h : x ∈ slotClaims p e (s.endpoints e)) : x ∈ s.claims p :=
  mem_claims.mpr (.inl ⟨e, h⟩)

theorem claims_cases {C : Prop} (h : x ∈ (b.setCore c core).claims p)
    (hcores : b.cores = s.cores) (hold : x ∈ s.claims p → C)
    (hslots : ∀ e, x ∈ slotClaims p e (b.endpoints e) → x ∈ slotClaims p e (s.endpoints e) ∨ C)
    (herrands : ∀ y ∈ core.errands, y.claim = some (p, x) → y ∈ (s.cores c).errands ∨ C) : C := by
  rcases mem_claims.mp h with ⟨e, he⟩ | ⟨d, y, hy, hclaim⟩
  · rcases hslots e he with hslot | hnew
    · exact hold (claims_of_slot hslot)
    · exact hnew
  · by_cases hd : d = c
    · subst hd
      rw [setCore_self] at hy
      rcases herrands y hy hclaim with hsame | hnew
      · exact hold (claims_of_errand hsame hclaim)
      · exact hnew
    · rw [setCore_other core hd, hcores] at hy
      exact hold (claims_of_errand hy hclaim)

theorem claims_quiet (h : x ∈ (b.setCore c core).claims p)
    (hcores : b.cores = s.cores) (hslots : b.endpoints = s.endpoints)
    (herrands : ∀ y ∈ core.errands, y ∈ (s.cores c).errands ∨ y.claim = none) : x ∈ s.claims p := by
  refine claims_cases h hcores id (fun e he ↦ .inl (hslots ▸ he)) fun y hy hclaim ↦ .inl ?_
  rcases herrands y hy with hold | hnone
  · exact hold
  · rw [hnone] at hclaim
    cases hclaim

end State

section Slots

variable {p : Pid} {e : E} {x : Claim E} {slot slot' : EndpointSlot}

theorem sends_of_delivered {parcel : Parcel} {sender receiver : EndpointWaiter}
    (h : slot.tryRecv receiver = some (.delivered parcel sender, slot')) :
    (parcel, sender) ∈ slot.entries :=
  (entries_tryRecv h).2 parcel sender rfl

theorem claim_receiverErrands {receiver : EndpointWaiter} {y : Errand E}
    (hy : y ∈ (State.receiverErrands e receiver : List (Errand E))) (hclaim : y.claim = some (p, x)) :
    receiver = .process p ∧ x = .receives e := by
  cases receiver with
  | process q =>
    rw [List.mem_singleton.mp hy] at hclaim
    cases hclaim
    exact ⟨rfl, rfl⟩
  | _ => cases hy

theorem claim_senderErrands {sender : EndpointWaiter} {id : ℕ} {y : Errand E}
    (hy : y ∈ (State.senderErrands sender id : List (Errand E))) (hclaim : y.claim = some (p, x)) :
    sender = .process p ∧ x = .done .sendCompleted := by
  cases sender with
  | process q =>
    rw [List.mem_singleton.mp hy] at hclaim
    cases hclaim
    exact ⟨rfl, rfl⟩
  | _ => cases hy

end Slots

namespace State

inductive Origin [Fintype E] (s : State E) (c : CoreId) (p : Pid) (x : Claim E) : Prop
  | kept (h : x ∈ s.claims p)
  | entered (h : s.Enters c p x)
  | consumed {y : Claim E} {result : WakeResult} (hx : x = .done result) (h : s.Consumes c p y result)

section Origins

variable {s s' b : State E} {c : CoreId} {p : Pid} {x : Claim E} {e : E} {slot : EndpointSlot}

theorem Asks.takes {w : EndpointWaiter} {o : Onward E} (h : s.Asks c e w o) : s.Takes c e w := by
  cases h with
  | task herr => exact .task herr
  | displaced herr => exact .displaced herr
  | call herr hmain => exact .call herr hmain

theorem notMem_slotClaims {parcel : Parcel} (hentries : slot.entries = [(parcel, .none)])
    (hrecv : slot.receiver? = none) : x ∉ slotClaims p e slot := by
  rw [mem_slotClaims, hentries, hrecv]
  simp

theorem claim_housekeeping {y : Errand E} (h : y.housekeeping = true) : y.claim = none := by
  cases y <;> first | rfl | cases h

theorem Yields.endpoints {m : Main E} (h : s.Yields c m b) : b.endpoints = s.endpoints := by
  cases h <;> rfl

section

variable [Fintype E]

theorem Origin.quiet (h : x ∈ (b.setCore c core).claims p)
    (hcores : b.cores = s.cores) (hslots : b.endpoints = s.endpoints)
    (herrands : ∀ y ∈ core.errands, y ∈ (s.cores c).errands ∨ y.claim = none) : s.Origin c p x :=
  .kept (claims_quiet h hcores hslots herrands)

theorem Consumes.claimed {result : WakeResult} (h : s.Consumes c p x result) : x ∈ s.claims p := by
  cases h with
  | @sender e w parcel slot htakes hrecv =>
    exact claims_of_slot (e := e) (mem_slotClaims.mpr (.inl ⟨rfl, parcel, sends_of_delivered hrecv⟩))
  | @receiver e parcel sender slot rest herr hrecv =>
    exact claims_of_errand (c := c) (y := .wakeReceiver e p)
      (by rw [herr]; exact List.mem_cons_self) rfl
  | @orphan e rest herr hslot =>
    refine claims_of_slot (e := e) (mem_slotClaims.mpr (.inr ⟨rfl, ?_⟩))
    rw [hslot]
    rfl

theorem claims_goto {m : Main E} {errands : List (Errand E)} {y : Errand E} (hy : y ∈ errands)
    (hclaim : y.claim = some (p, x)) : x ∈ (b.goto c m errands).claims p :=
  claims_of_errand (c := c) (by rwa [goto_errands]) hclaim

variable [DecidableEq E]

theorem Origin.exchange (h : x ∈ (b.setCore c core).claims p)
    (hcores : b.cores = s.cores) (hslots : b.endpoints = update s.endpoints e slot)
    (hslot : x ∈ slotClaims p e slot → x ∈ slotClaims p e (s.endpoints e) ∨ s.Origin c p x)
    (herrands : ∀ y ∈ core.errands, y.claim = some (p, x) →
      y ∈ (s.cores c).errands ∨ s.Origin c p x) : s.Origin c p x := by
  refine claims_cases h hcores .kept (fun e' he' ↦ ?_) herrands
  rw [hslots] at he'
  by_cases he : e' = e
  · subst he
    rw [update_self] at he'
    exact hslot he'
  · rw [update_of_ne he] at he'
    exact .inl he'

theorem Origin.trade (h : s.Trade c s') (hx : x ∈ s'.claims p) : s.Origin c p x := by
  cases h with
  | delivered hsubmits _ hslot hentries hrecv =>
    refine .exchange hx rfl rfl (fun hx ↦ absurd hx (notMem_slotClaims hentries hrecv))
      fun y hy hclaim ↦ ?_
    rcases List.mem_append.mp hy with hnew | hold
    · obtain ⟨rfl, rfl⟩ := claim_receiverErrands hnew hclaim
      exact .inr (.kept (claims_of_slot (mem_slotClaims.mpr (.inr ⟨rfl, by rw [hslot]; rfl⟩))))
    · exact .inl (hsubmits.mem_errands hold)
  | displaced _ _ _ _ hentries hrecv =>
    exact .exchange hx rfl rfl (fun hx ↦ absurd hx (notMem_slotClaims hentries hrecv))
      fun y hy ↦ by cases hy
  | enqueued hsubmits htry hentries hrecv =>
    refine .exchange hx rfl rfl (fun hx ↦ ?_) fun y hy _ ↦ .inl (hsubmits.mem_errands hy)
    rw [mem_slotClaims, hentries, hrecv] at hx
    rcases hx with ⟨rfl, parcel, hmem⟩ | ⟨-, hnot⟩
    · rcases List.mem_append.mp hmem with hold | hnew
      · exact .inl (mem_slotClaims.mpr (.inl ⟨rfl, parcel, hold⟩))
      · cases hsubmits with
        | task => cases List.mem_singleton.mp hnew
        | call herr hmain =>
          cases List.mem_singleton.mp hnew
          exact .inr (.entered (.sends herr hmain htry))
    · cases hnot
  | refused hsubmits => exact .quiet hx rfl rfl fun y hy ↦ .inl (hsubmits.mem_errands hy)
  | taken hasks htry hentries hrecv =>
    refine .exchange hx rfl rfl (fun hx ↦ .inl ?_) fun y hy hclaim ↦ ?_
    · rw [mem_slotClaims, hrecv] at hx
      rcases hx with ⟨rfl, parcel, hmem⟩ | ⟨-, hnot⟩
      · exact mem_slotClaims.mpr
          (.inl ⟨rfl, parcel, by rw [hentries]; exact List.mem_cons_of_mem _ hmem⟩)
      · cases hnot
    · rcases List.mem_append.mp hy with hnew | hold
      · rcases List.mem_append.mp hnew with hsender | hhand
        · obtain ⟨rfl, rfl⟩ := claim_senderErrands hsender hclaim
          exact .inr (.consumed rfl (.sender hasks.takes htry))
        · cases hasks with
          | displaced herr =>
            rw [List.mem_singleton.mp hhand] at hclaim
            cases hclaim
            exact .inr (.consumed rfl (.receiver herr htry))
          | _ => cases hhand
      · exact .inl (hasks.mem_errands hold)
  | registered hasks htry =>
    refine .exchange hx rfl rfl (fun hx ↦ .inr ?_) fun y hy _ ↦ .inl (hasks.mem_errands hy)
    rw [mem_slotClaims] at hx
    rcases hx with ⟨-, parcel, hmem⟩ | ⟨rfl, hreceiver⟩
    · cases hmem
    · cases hasks with
      | task => cases hreceiver
      | displaced herr =>
        -- the displaced receiver is registered again
        cases hreceiver
        exact .kept (claims_of_errand (c := c) (by rw [herr]; exact List.mem_cons_self) rfl)
      | call herr hmain =>
        cases hreceiver
        exact .entered (.receives herr hmain htry)
  | unregistered hasks => exact .quiet hx rfl rfl fun y hy ↦ .inl (hasks.mem_errands hy)
  | closed herr hslot =>
    refine .exchange hx rfl rfl (fun hx ↦ ?_) fun y hy hclaim ↦ ?_
    · rw [mem_slotClaims] at hx
      simp at hx
    · rcases List.mem_cons.mp hy with rfl | hold
      · cases hclaim
        exact .inr (.consumed rfl (.orphan herr hslot))
      · exact .inl (herr ▸ List.mem_cons_of_mem _ hold)
  | nobody herr => exact .quiet hx rfl rfl fun y hy ↦ .inl (herr ▸ List.mem_cons_of_mem _ hy)

/-- Every claim after a step was there before, or the step entered its caller in an endpoint, or
took an entry out of one. -/
theorem Turn.origin (h : s.Turn c s') (hx : x ∈ s'.claims p) : s.Origin c p x := by
  cases h with
  | tasks herr hmore =>
    refine .quiet hx rfl rfl fun y hy ↦ ?_
    rcases List.mem_append.mp hy with hnew | hold
    · refine .inr ?_
      rcases hmore with rfl | ⟨e, message, waker, rfl⟩ | ⟨e, waker, rfl⟩
      · cases hnew
      · rcases List.mem_pair.mp hnew with rfl | rfl <;> rfl
      · rcases List.mem_pair.mp hnew with rfl | rfl <;> rfl
    · exact .inl (by rw [herr]; exact List.mem_cons_of_mem _ hold)
  | pollSend _ _ htrade | pollRecv _ _ htrade | wakeReceiver _ _ htrade
  | takeWaitingReceiver _ _ htrade | trySend _ _ _ htrade | tryRecv _ _ _ htrade =>
    exact .trade htrade hx
  | wake herr | dropBox herr | clearStackBusy herr =>
    exact .quiet hx rfl rfl fun y hy ↦ .inl (by rw [herr]; exact List.mem_cons_of_mem _ hy)
  | orphans herr =>
    refine .quiet hx rfl rfl fun y hy ↦ ?_
    rcases List.mem_append.mp hy with hnew | hold
    · obtain ⟨e, -, rfl⟩ := List.mem_map.mp hnew
      exact .inr rfl
    · exact .inl (by rw [herr]; exact List.mem_cons_of_mem _ hold)
  | record =>
    refine .quiet hx ?_ ?_ fun y hy ↦ (by cases hy)
    all_goals
      unfold recordResolve
      split <;> rfl
  | bootDone | spawnFail | exit | resumeTick =>
    exact .quiet hx rfl rfl fun y hy ↦ .inr (by rw [List.mem_singleton.mp hy]; rfl)
  | kill =>
    refine .quiet hx rfl rfl fun y hy ↦ .inr ?_
    rcases List.mem_cons.mp hy with rfl | hdrop
    · rfl
    · exact claim_housekeeping (housekeeping_drops _ y hdrop)
  | dispatch _ _ hyields _ _ hkeeping | abandon _ _ hyields _ hkeeping =>
    exact .quiet hx hyields.cores hyields.endpoints fun y hy ↦ .inr (claim_housekeeping (hkeeping y hy))
  | rest _ _ _ _ hkeeping =>
    exact .quiet hx rfl rfl fun y hy ↦ .inr (claim_housekeeping (hkeeping y hy))
  | _ => exact .quiet hx rfl rfl fun y hy ↦ (by cases hy)

theorem Consumes.after {a : Action E} {result : WakeResult} (hs : s.next a = some s')
    (h : s.Consumes a.core p x result) : .done result ∈ s'.claims p := by
  have hstep := step_of_next hs
  unfold step at hstep
  cases h with
  | sender htakes hrecv =>
    cases htakes with
    | task herr =>
      simp only [herr, errandStep, pollRecv, hrecv] at hstep
      cases hstep
      exact claims_goto (List.mem_append_left _ List.mem_cons_self) rfl
    | displaced herr =>
      simp only [herr, errandStep, wakeReceiver, hrecv] at hstep
      cases hstep
      exact claims_goto (List.mem_append_left _ (List.mem_append_left _ List.mem_cons_self)) rfl
    | call herr hmain =>
      simp only [herr, hmain, mainStep, tryRecv, hrecv] at hstep
      cases hstep
      exact claims_goto List.mem_cons_self rfl
  | @receiver e parcel sender slot rest herr hrecv =>
    simp only [herr, errandStep, wakeReceiver, hrecv] at hstep
    cases hstep
    refine claims_goto (y := .handOver p parcel) ?_ rfl
    exact List.mem_append_left _ (List.mem_append_right _ List.mem_cons_self)
  | orphan herr hslot =>
    simp only [herr, errandStep, takeWaitingReceiver, hslot] at hstep
    cases hstep
    exact claims_goto List.mem_cons_self rfl

end

section Uniqueness

variable [Fintype E] {strict : Prop} {P : Process E} {y : Claim E}

section

variable (h : s.Inv strict) (hP : s.sched.view p = .occupied P)

include h hP

theorem Inv.claims_le : (s.claims p).card + pendingTokens P.pendingWake ≤ 1 := by
  rw [card_claims]
  exact (h.scene.accounts.account p P hP).single

theorem Inv.waits_of_claim (hx : x ∈ s.claims p) :
    P.state = .blocked ∨ Parked s.scene.table s.scene.main p := by
  by_contra hnot
  push Not at hnot
  have hzero := ((h.scene.accounts.account p P hP).calm hnot.1 hnot.2).1
  have hpos : 0 < (s.claims p).card := Multiset.card_pos_iff_exists_mem.mpr ⟨x, hx⟩
  rw [card_claims] at hpos
  change s.tokens p = 0 at hzero
  omega

theorem Inv.not_waits_of_claim (hx : x ∈ s.claims p) (q : Pid) : ¬ s.sched.table.Waits p q := by
  intro hwaits
  have hzero := ((h.scene.accounts.account p P hP).waiting q hwaits).1
  have hpos : 0 < (s.claims p).card := Multiset.card_pos_iff_exists_mem.mpr ⟨x, hx⟩
  rw [card_claims] at hpos
  change s.tokens p = 0 at hzero
  omega

end

theorem Inv.known_of_claim (h : s.Inv strict) (hx : x ∈ s.claims p) : s.sched.table.Known p := by
  have hpos : 0 < (s.claims p).card := Multiset.card_pos_iff_exists_mem.mpr ⟨x, hx⟩
  rw [card_claims] at hpos
  exact h.scene.accounts.known p hpos

theorem Inv.claim_unique (h : s.Inv strict) (hP : s.sched.view p = .occupied P)
    (hx : x ∈ s.claims p) (hy : y ∈ s.claims p) : x = y := by
  have hcard : (s.claims p).card = 1 := by
    have hle := h.claims_le hP
    have hpos : 0 < (s.claims p).card := Multiset.card_pos_iff_exists_mem.mpr ⟨x, hx⟩
    omega
  obtain ⟨z, hz⟩ := Multiset.card_eq_one.mp hcard
  rw [hz, Multiset.mem_singleton] at hx hy
  rw [hx, hy]

end Uniqueness

end Origins

end State

end Tarnos.Kernel
