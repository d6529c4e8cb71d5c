import Tarnos.Kernel.Peers

namespace Tarnos.Kernel

open Abi Arch Kcore Tarnos.Task Foundation.Transition Function SyscallError

variable {E : Type} {pid : Pid} {rest : List (Errand E)} {message : Message} {slot : EndpointSlot}
  {f : TrapFrame} {x : Claim E} {outcome : Endpoint.RecvOutcome Parcel Pid}

def senders (entries : List (Parcel × EndpointWaiter)) : List Pid :=
  entries.filterMap fun entry ↦
    match entry.2 with
    | .process p => some p
    | _ => none

section Entries

variable {entries : List (Parcel × EndpointWaiter)} {p : Pid}

theorem mem_senders : p ∈ senders entries ↔ ∃ parcel, (parcel, .process p) ∈ entries := by
  unfold senders
  rw [List.mem_filterMap]
  constructor
  · rintro ⟨⟨parcel, w⟩, hentry, hp⟩
    cases w with
    | process q =>
      cases hp
      exact ⟨parcel, hentry⟩
    | _ => cases hp
  · rintro ⟨parcel, hentry⟩
    exact ⟨_, hentry, rfl⟩

theorem count_senders : (senders entries).count p =
    (entries.map fun entry ↦ waiterTokens p entry.2).sum := by
  induction entries with
  | nil => rfl
  | cons entry entries ih =>
    obtain ⟨parcel, w⟩ := entry
    rw [List.map_cons, List.sum_cons, ← ih]
    cases w with
    | process q =>
      have hcons : senders ((parcel, .process q) :: entries) = q :: senders entries := rfl
      rw [hcons, List.count_cons, Nat.add_comm]
      simp [waiterTokens]
    | task waker | none => exact (Nat.zero_add _).symm

theorem length_senders (h : ∀ entry ∈ entries, ∃ p, entry.2 = .process p) :
    (senders entries).length = entries.length := by
  induction entries with
  | nil => rfl
  | cons entry entries ih =>
    obtain ⟨parcel, w⟩ := entry
    obtain ⟨q, hq⟩ := h (parcel, w) List.mem_cons_self
    cases hq
    have hrest := ih fun x hx ↦ h x (List.mem_cons_of_mem _ hx)
    exact congrArg Nat.succ hrest

end Entries

namespace State

def AllQueued (s : State E) (e : E) : Prop :=
  ∀ i, s.isLive (s.sched.pidAt i) = true ∧
    ∃ parcel, (parcel, .process (s.sched.pidAt i)) ∈ (s.endpoints e).entries

def LeftForTask (s : State E) (e : E) : Prop :=
  ∃ parcel, (parcel, .none) ∈ (s.endpoints e).entries ∧ .displacedTask parcel.id ∈ s.log

/-- Somebody other than `pid` waits to receive at `e`: a kernel task or a live process. -/
def OtherReceives (s : State E) (e : E) (pid : Pid) : Prop :=
  (∃ waker, s.endpoints e = .receiverWaiting (.task waker)) ∨
    ∃ q, q ≠ pid ∧ s.isLive q = true ∧ s.endpoints e = .receiverWaiting (.process q)

/-- A call at `e` is answered with `ResourceExhausted` only for a good
reason, and no process that is gone is entered at `e`. -/
structure FullHonest [DecidableEq E] (s : State E) (e : E) : Prop where
  send : ∀ a s' message pid f, s.next a = some s' → (s.cores a.core).errands = [] →
    (s.cores a.core).main = .trySend e message pid f →
    (s'.cores a.core).main = .leave (f.withRax resourceExhausted.toRax) →
    s.AllQueued e ∨ s.LeftForTask e
  recv : ∀ a s' pid f, s.next a = some s' → (s.cores a.core).errands = [] →
    (s.cores a.core).main = .tryRecv e pid f →
    (s'.cores a.core).main = .leave (f.withRax resourceExhausted.toRax) →
    s.OtherReceives e pid
  entered : ∀ p, (∃ parcel, (parcel, .process p) ∈ (s.endpoints e).entries) ∨
    (s.endpoints e).receiver? = some (.process p) → s.isLive p = true

/-- `p` is entered at `e`, or a sender found it there and is to hand it the message. -/
def Engages [Fintype E] (s : State E) (e : E) (p : Pid) : Prop :=
  .sends e ∈ s.claims p ∨ .receives e ∈ s.claims p

/-- The step terminates no process that is entered at `e` or about to be handed a message there, no
kernel task sends there, and no generation counter wraps. -/
structure Leaves [Fintype E] (e : E) (s : State E) (a : Action E) : Prop where
  wrap : s.NoWrap a
  quiet : ∀ message waker, a.choice ≠ .pollSend e message waker
  ends : ∀ p ∈ s.ends a.core, ¬ s.Engages e p

/-- A message without a waiting sender was left for a kernel task, or a core is on its way to the
process it is for. -/
def Addressed (s : State E) (e : E) (parcel : Parcel) : Prop :=
  .displacedTask parcel.id ∈ s.log ∨ ∃ c p, .wakeReceiver e p ∈ (s.cores c).errands

structure Lined (s : State E) (e : E) : Prop where
  first : ∀ parcel w, (s.endpoints e).entries.head? = some (parcel, w) →
    (∃ p, w = .process p) ∨ w = .none ∧ s.Addressed e parcel
  behind : ∀ entry ∈ (s.endpoints e).entries.tail, ∃ p, entry.2 = .process p
  receiver : (s.endpoints e).receiver? ≠ some .none

inductive Handles [DecidableEq E] (s : State E) (c : CoreId) (e : E) (s' : State E) : Prop
  | kept (hslot : s'.endpoints e = s.endpoints e)
      (herr : ∀ p rest, (s.cores c).errands ≠ .wakeReceiver e p :: rest)
  | polled {message : Message} {waker : ℕ} {rest : List (Errand E)}
      (herr : (s.cores c).errands = .pollSend e message waker :: rest)
  | offered {message : Message} {pid : Pid} {f : TrapFrame} (herr : (s.cores c).errands = [])
      (hs : s.trySend c e message pid f = .next s')
  | asked {w : EndpointWaiter} {outcome : Endpoint.RecvOutcome Parcel Pid}
      (htakes : s.Takes c e w) (hrecv : (s.endpoints e).tryRecv w = some (outcome, s'.endpoints e))
  | closed (hslot : s'.endpoints e = .empty)

section Steps

variable {s s' : State E} {a : Action E} {c : CoreId} {e e' : E} {p : Pid} {P : Process E}

theorem Lined.of_nil (hentries : (s.endpoints e).entries = [])
    (hreceiver : (s.endpoints e).receiver? ≠ some .none) : s.Lined e := by
  refine ⟨fun parcel w hhead ↦ ?_, fun entry hentry ↦ ?_, hreceiver⟩
  · rw [hentries] at hhead
    cases hhead
  · rw [hentries] at hentry
    cases hentry

theorem Lined.of_endpoint (h : s.Lined e) (hslot : s'.endpoints e = s.endpoints e)
    (hkept : ∀ parcel, s.Addressed e parcel → s'.Addressed e parcel) : s'.Lined e := by
  refine ⟨?_, ?_, ?_⟩
  all_goals rw [hslot]
  · intro parcel w hhead
    rcases h.first parcel w hhead with hprocess | ⟨hnone, haddressed⟩
    · exact .inl hprocess
    · exact .inr ⟨hnone, hkept parcel haddressed⟩
  · exact h.behind
  · exact h.receiver

theorem Lined.enqueued (h : s.Lined e)
    (hkept : ∀ parcel, s.Addressed e parcel → s'.Addressed e parcel)
    (hentries : slot.entries = (s.endpoints e).entries ++ [(⟨s.nextId, message⟩, .process pid)])
    (hnone : slot.receiver? = none) (hslot : s'.endpoints e = slot) : s'.Lined e := by
  refine ⟨fun parcel w hhead ↦ ?_, fun entry hentry ↦ ?_, by rw [hslot, hnone]; simp⟩
  all_goals
    have hfirst := h.first
    have hbehind := h.behind
    generalize (s.endpoints e).entries = old at hentries hfirst hbehind
  · rw [hslot, hentries] at hhead
    cases old with
    | nil =>
      cases hhead
      exact .inl ⟨pid, rfl⟩
    | cons entry rest =>
      cases hhead
      rcases hfirst parcel w rfl with hprocess | ⟨hw, haddressed⟩
      · exact .inl hprocess
      · exact .inr ⟨hw, hkept parcel haddressed⟩
  · rw [hslot, hentries] at hentry
    cases old with
    | nil => cases hentry
    | cons first rest =>
      rcases List.mem_append.mp hentry with hold | hnew
      · exact hbehind entry hold
      · rw [List.mem_singleton.mp hnew]
        exact ⟨pid, rfl⟩

section

variable [DecidableEq E]

theorem Handles.of_errands_nil (herr : (s.cores c).errands = []) (hslots : s'.endpoints = s.endpoints) :
    s.Handles c e s' :=
  .kept (by rw [hslots]) fun p rest hne ↦ by
    rw [herr] at hne
    cases hne

theorem Handles.of_errand {x : Errand E}
    (herr : (s.cores c).errands = x :: rest) (hslot : s'.endpoints e = s.endpoints e)
    (hx : ∀ p, x ≠ .wakeReceiver e p) : s.Handles c e s' := by
  refine .kept hslot fun p rest' hne ↦ ?_
  rw [herr] at hne
  cases hne
  exact hx p rfl

theorem endpoint_update (hslots : s'.endpoints = update s.endpoints e' slot) :
    s'.endpoints e = if e = e' then slot else s.endpoints e := by
  rw [hslots]
  by_cases he : e = e'
  · rw [if_pos he, he, update_self]
  · rw [if_neg he, update_of_ne he]

theorem trySend_endpoints (hs : s.trySend c e' message pid f = .next s') :
    ∃ slot, s'.endpoints = update s.endpoints e' slot := by
  unfold trySend at hs
  split at hs
  · rename_i receiver slot hsend
    cases hs
    cases receiver <;> exact ⟨slot, rfl⟩
  all_goals
    cases hs
    exact ⟨_, rfl⟩

theorem Lined.delivered {r : EndpointWaiter} (h : s.Lined e)
    (htry : (s.endpoints e).trySend ⟨s.nextId, message⟩ (.process pid) = (.delivered r, slot))
    (hold : s.endpoints e = .receiverWaiting r)
    (hentries : slot.entries = [(⟨s.nextId, message⟩, .none)])
    (hnone : slot.receiver? = none) (hsend : s.trySend c e message pid f = .next s') :
    s'.Lined e := by
  have hreal : r ≠ .none := by
    rintro rfl
    refine h.receiver ?_
    rw [hold]
    rfl
  simp only [trySend, htry] at hsend
  have hslot : s'.endpoints e = slot := by
    cases r with
    | task waker | process q | none =>
      cases hsend
      exact update_self e slot s.endpoints
  have haddressed : s'.Addressed e ⟨s.nextId, message⟩ := by
    cases r with
    | task waker =>
      cases hsend
      exact .inl List.mem_cons_self
    | process q =>
      cases hsend
      refine .inr ⟨c, q, ?_⟩
      rw [goto_errands]
      exact List.mem_cons_self
    | none => exact absurd rfl hreal
  refine ⟨fun parcel w hhead ↦ ?_, fun entry hentry ↦ ?_, ?_⟩
  · rw [hslot, hentries] at hhead
    cases hhead
    exact .inr ⟨rfl, haddressed⟩
  · rw [hslot, hentries] at hentry
    cases hentry
  · rw [hslot, hnone]
    simp

end

theorem Lined.asked {w : EndpointWaiter} (h : s.Lined e) (htakes : s.Takes a.core e w)
    (hrecv : (s.endpoints e).tryRecv w = some (outcome, s'.endpoints e)) : s'.Lined e := by
  rcases Endpoint.Slot.tryRecv_cases hrecv with
    ⟨parcel, sender, rest, hentries, -, -, hrest, hnone⟩ | ⟨-, -, hslot⟩ | ⟨r, hold, -, hslot⟩
  · have hbehind := h.behind
    rw [hentries] at hbehind
    refine ⟨fun parcel' w' hhead ↦ ?_, fun entry hentry ↦ ?_, by rw [hnone]; simp⟩
    · rw [hrest] at hhead
      exact .inl (hbehind (parcel', w') (List.mem_of_mem_head? hhead))
    · rw [hrest] at hentry
      exact hbehind entry (List.mem_of_mem_tail hentry)
  · refine .of_nil (by rw [hslot]; rfl) ?_
    rw [hslot, Endpoint.Slot.receiver_receiverWaiting]
    cases htakes <;> simp
  · refine .of_nil (by rw [hslot, hold]; rfl) ?_
    rw [hslot]
    exact h.receiver

theorem length_le_of_live {l : List Pid} (hnodup : l.Nodup) (hlive : ∀ p ∈ l, s.isLive p = true) :
    l.length ≤ maxProcesses := by
  refine Inner.length_le_of_views (s := s.sched) hnodup fun p hp ↦ ?_
  obtain ⟨P, hP⟩ := isLive_iff.mp (hlive p hp)
  rw [hP]
  simp

section

variable [Fintype E]

theorem Inv.not_suspended_of_claim (h : s.Inv False)
    (hP : s.sched.view p = .occupied P) (hx : x ∈ s.claims p) : P.state ≠ .suspended := by
  intro hstate
  rcases h.waits_of_claim hP hx with hblocked | ⟨c, hc, -⟩
  · rw [hstate] at hblocked
    cases hblocked
  · have hrunning := h.scene.state_running hc hP
    rw [hstate] at hrunning
    cases hrunning

theorem Inv.nodup_senders (h : s.Inv False) (hlive : ∀ p, s.Engages e p → s.isLive p = true) :
    (senders (s.endpoints e).entries).Nodup := by
  rw [List.nodup_iff_count_le_one]
  intro p
  by_cases hp : p ∈ senders (s.endpoints e).entries
  · have hclaim : .sends e ∈ s.claims p :=
      claims_of_slot (mem_slotClaims.mpr (.inl ⟨rfl, mem_senders.mp hp⟩))
    obtain ⟨P, hP⟩ := isLive_iff.mp (hlive p (.inl hclaim))
    have hsingle := h.claims_le hP
    rw [card_claims] at hsingle
    have hslot : slotTokens p (s.endpoints e) ≤ s.tokens p := by
      have hle := Finset.single_le_sum (f := fun d ↦ slotTokens p (s.endpoints d))
        (fun _ _ ↦ Nat.zero_le _) (Finset.mem_univ e)
      exact hle.trans (Nat.le_add_right _ _)
    rw [slotTokens_eq, ← count_senders] at hslot
    omega
  · rw [List.count_eq_zero_of_not_mem hp]
    exact Nat.zero_le 1

structure Tidy (s : State E) (e : E) : Prop where
  quiet : ∀ c message waker, .pollSend e message waker ∉ (s.cores c).errands
  live : ∀ p, s.Engages e p → s.isLive p = true
  lined : s.Lined e

theorem Tidy.sender_live (h : s.Tidy e) (hp : p ∈ senders (s.endpoints e).entries) :
    .sends e ∈ s.claims p ∧ s.isLive p = true := by
  have hclaim : .sends e ∈ s.claims p :=
    claims_of_slot (mem_slotClaims.mpr (.inl ⟨rfl, mem_senders.mp hp⟩))
  exact ⟨hclaim, h.live p (.inl hclaim)⟩

theorem Tidy.init (config : BootConfig E) (e : E) : (State.init config).Tidy e := by
  have herrands : ∀ c, ∀ x ∈ ((State.init config).cores c).errands, x = .runReadyTasks := by
    intro c x hx
    simp only [State.init] at hx
    split_ifs at hx <;> simp_all
  refine ⟨fun c message waker hy ↦ ?_, fun p hengages ↦ ?_, .of_nil rfl (by simp [State.init])⟩
  · cases herrands c _ hy
  · -- nobody is in an endpoint yet, and no core is on its way to anybody
    have hnone : ∀ x, x ∉ (State.init config).claims p := by
      intro x hx
      rcases mem_claims.mp hx with ⟨d, hd⟩ | ⟨c, y, hy, hclaim⟩
      · cases hd
      · rw [herrands c y hy] at hclaim
        cases hclaim
    rcases hengages with hsends | hreceives
    · exact absurd hsends (hnone _)
    · exact absurd hreceives (hnone _)

end

section

variable [DecidableEq E]

theorem Handles.of_update (hslots : s'.endpoints = update s.endpoints e' slot)
    (hhere : e = e' → s'.endpoints e = slot → s.Handles c e s')
    (herr : e ≠ e' → ∀ p rest, (s.cores c).errands ≠ .wakeReceiver e p :: rest) :
    s.Handles c e s' := by
  have hslot := endpoint_update (e := e) hslots
  by_cases he : e = e'
  · rw [if_pos he] at hslot
    exact hhere he hslot
  · rw [if_neg he] at hslot
    exact .kept hslot (herr he)

theorem Handles.of_asked {w : EndpointWaiter} (htakes : s.Takes c e' w)
    (hrecv : (s.endpoints e').tryRecv w = some (outcome, slot))
    (hslots : s'.endpoints = update s.endpoints e' slot) : s.Handles c e s' := by
  refine .of_update hslots ?_ ?_
  · rintro rfl hslot
    rw [← hslot] at hrecv
    exact .asked htakes hrecv
  · intro he p rest hhead
    cases htakes with
    | task herr | call herr =>
      rw [herr] at hhead
      cases hhead
    | displaced herr =>
      rw [herr] at hhead
      cases hhead
      exact he rfl

theorem Handles.of_pollSend {waker : ℕ}
    (herr : (s.cores c).errands = .pollSend e' message waker :: rest)
    (hs : s.pollSend c e' message waker rest = .next s') : s.Handles c e s' := by
  have hslots : ∃ slot, s'.endpoints = update s.endpoints e' slot := by
    unfold pollSend at hs
    split at hs <;> (cases hs; exact ⟨_, rfl⟩)
  obtain ⟨slot, hslots⟩ := hslots
  refine .of_update hslots (fun he _ ↦ ?_) fun _ p rest' hhead ↦ ?_
  · subst he
    exact .polled herr
  · rw [herr] at hhead
    cases hhead

theorem Handles.of_takeWaitingReceiver
    (herr : (s.cores c).errands = .takeWaitingReceiver e' :: rest)
    (hs : s.takeWaitingReceiver c e' rest = .next s') : s.Handles c e s' := by
  unfold takeWaitingReceiver at hs
  split at hs
  · cases hs
    refine .of_update (show _ = update s.endpoints e' .empty from rfl)
      (fun _ hslot ↦ .closed hslot) fun _ p rest' hhead ↦ ?_
    rw [herr] at hhead
    cases hhead
  · cases hs
    exact .of_errand herr rfl (by simp)

theorem Addressed.next {parcel : Parcel} (h : s.Addressed e parcel) (hs : s.next a = some s')
    (herr : ∀ p rest, (s.cores a.core).errands ≠ .wakeReceiver e p :: rest) :
    s'.Addressed e parcel := by
  have hturn := next_turn hs
  rcases h with hlog | ⟨c, p, hp⟩
  · obtain ⟨new, hnew⟩ := hturn.custody.log
    rw [Addressed, hnew]
    exact .inl (List.mem_append_right _ hlog)
  · refine .inr ⟨c, p, ?_⟩
    by_cases hc : c = a.core
    · subst hc
      rcases hturn.errand_kept hp with hkept | ⟨rest, hhead⟩
      · exact hkept
      · exact absurd hhead (herr p rest)
    · rw [hturn.others hc]
      exact hp

theorem Lined.offered (h : s.Lined e)
    (hs : s.next a = some s') (herr : (s.cores a.core).errands = [])
    (hsend : s.trySend a.core e message pid f = .next s') : s'.Lined e := by
  have hkept : ∀ parcel, s.Addressed e parcel → s'.Addressed e parcel := by
    intro parcel hparcel
    refine hparcel.next hs fun p rest hhead ↦ ?_
    rw [herr] at hhead
    cases hhead
  have hcases := Endpoint.Slot.trySend_cases (by decide) (s.endpoints e) ⟨s.nextId, message⟩
    (.process pid)
  cases htry : (s.endpoints e).trySend ⟨s.nextId, message⟩ (.process pid) with
  | mk outcome slot =>
    rw [htry] at hcases
    have hslot : update s.endpoints e slot e = slot := update_self e slot s.endpoints
    rcases hcases with ⟨r, hold, hout, hentries, hnone⟩ | ⟨-, hout, hentries, hnone⟩ |
      ⟨hout, -, hsame⟩
    all_goals
      dsimp only at hout
      subst hout
    · exact h.delivered htry hold hentries hnone hsend
    · simp only [trySend, htry] at hsend
      cases hsend
      exact h.enqueued hkept hentries hnone hslot
    · simp only [trySend, htry] at hsend
      cases hsend
      exact h.of_endpoint (hslot.trans hsame) hkept

end

section

variable [DecidableEq E]

theorem Handles.of_tryRecv (herr : (s.cores c).errands = [])
    (hmain : (s.cores c).main = .tryRecv e' pid f) (hs : s.tryRecv c e' pid f = .next s') :
    s.Handles c e s' := by
  unfold tryRecv at hs
  split at hs
  · cases hs
  all_goals
    rename_i hrecv
    cases hs
    exact .of_asked (.call herr hmain) hrecv rfl

theorem Handles.of_pollRecv {waker : ℕ} (herr : (s.cores c).errands = .pollRecv e' waker :: rest)
    (hs : s.pollRecv c e' waker rest = .next s') : s.Handles c e s' := by
  unfold pollRecv at hs
  split at hs
  · cases hs
  all_goals
    rename_i hrecv
    cases hs
    exact .of_asked (.task herr) hrecv rfl

theorem Handles.of_wakeReceiver (herr : (s.cores c).errands = .wakeReceiver e' pid :: rest)
    (hs : s.wakeReceiver c e' pid rest = .next s') : s.Handles c e s' := by
  unfold wakeReceiver at hs
  split at hs
  · cases hs
  all_goals
    rename_i hrecv
    cases hs
    exact .of_asked (.displaced herr) hrecv rfl

theorem Turn.handles (hturn : s.Turn c s') (e : E) : s.Handles c e s' := by
  cases hturn with
  | tasks herr | orphans herr | dropBox herr | clearStackBusy herr =>
    exact .of_errand herr rfl (by simp)
  | pollSend herr hs => exact .of_pollSend herr hs
  | pollRecv herr hs => exact .of_pollRecv herr hs
  | wakeReceiver herr hs => exact .of_wakeReceiver herr hs
  | takeWaitingReceiver herr hs => exact .of_takeWaitingReceiver herr hs
  | wake herr hwakes =>
    refine .of_errand herr rfl ?_
    cases hwakes <;> simp
  | trySend herr hmain hs =>
    obtain ⟨slot, hslots⟩ := trySend_endpoints hs
    refine .of_update hslots (fun he _ ↦ ?_) fun _ p rest hhead ↦ ?_
    · subst he
      exact .offered herr hs
    · rw [herr] at hhead
      cases hhead
  | tryRecv herr hmain hs => exact .of_tryRecv herr hmain hs
  | record herr => exact .of_errands_nil herr (recordResolve_fields _ _).2.1
  | dispatch herr _ hyields | abandon herr _ hyields => exact .of_errands_nil herr hyields.endpoints
  | stay herr | bootDone herr | bootAllocate herr | bootSpawn herr | trap herr | leave herr
  | ignoreIpi herr | sendReturn herr | recvReturn herr | allocate herr | load herr | release herr
  | spawn herr | spawnFail herr | grant herr | start herr | collect herr | request herr
  | withdraw herr | kill herr | mark herr | exit herr | resumeTick herr | rest herr =>
    exact .of_errands_nil herr rfl

end

variable [DecidableEq E]

theorem Lined.next (h : s.Lined e) (hs : s.next a = some s')
    (hquiet : ∀ c message waker, .pollSend e message waker ∉ (s.cores c).errands) : s'.Lined e := by
  cases (next_turn hs).handles e with
  | kept hslot herr => exact h.of_endpoint hslot fun parcel hparcel ↦ hparcel.next hs herr
  | polled herr => exact absurd (herr ▸ List.mem_cons_self) (hquiet a.core _ _)
  | offered herr hsend => exact h.offered hs herr hsend
  | asked htakes hrecv => exact h.asked htakes hrecv
  | closed hslot => exact .of_nil (by rw [hslot]; rfl) (by rw [hslot]; simp)

variable [Fintype E]

theorem Inv.outlives (h : s.Inv False) (hs : s.next a = some s') (hP : s.sched.view p = .occupied P)
    (hstate : P.state ≠ .suspended) (hends : ∀ status, s.terminates a.core ≠ some (p, status)) :
    s'.isLive p = true := by
  have hfate := h.fate (p := p) (next_turn hs)
  rw [hP] at hfate
  rw [isLive_iff]
  generalize s'.sched.view p = slot at hfate
  cases hfate with
  | same | rewritten | orphaned => exact ⟨_, rfl⟩
  | ended h' => exact absurd h' (hends _)
  | reaped _ _ _ hsuspended => exact absurd hsuspended hstate

theorem Inv.outlives_entering (h : s.Inv False) (hs : s.next a = some s')
    (henters : s.Enters a.core p x) : s'.isLive p = true := by
  have hcaller : (s.cores a.core).main.caller = some p := by
    cases henters with
    | sends _ hmain _ | receives _ hmain _ =>
      rw [hmain]
      rfl
  have hends : ∀ status, s.terminates a.core ≠ some (p, status) := by
    intro status hends
    cases henters with
    | sends _ hmain _ | receives _ hmain _ =>
      obtain ⟨-, hmain' | ⟨f, hmain', -⟩⟩ := terminates_cases hends <;> cases hmain.symm.trans hmain'
  obtain ⟨P, hP⟩ := isLive_iff.mp (h.live_of_caller hcaller)
  have hrunning := h.scene.state_running (h.scene.cores.caller a.core p hcaller) hP
  exact h.outlives hs hP (by rw [hrunning]; simp) hends

theorem Inv.engaged_live (h : s.Inv False) (hlive : ∀ p, s.Engages e p → s.isLive p = true)
    (hok : s.Leaves e a) (hs : s.next a = some s') (hengages : s'.Engages e p) :
    s'.isLive p = true := by
  obtain ⟨x, hx, hxs⟩ : ∃ x, x ∈ s'.claims p ∧ (x = .sends e ∨ x = .receives e) := by
    rcases hengages with hsends | hreceives
    · exact ⟨_, hsends, .inl rfl⟩
    · exact ⟨_, hreceives, .inr rfl⟩
  cases (next_turn hs).origin hx with
  | kept hold =>
    have hengaged : s.Engages e p := by
      rcases hxs with rfl | rfl
      · exact .inl hold
      · exact .inr hold
    obtain ⟨P, hP⟩ := isLive_iff.mp (hlive p hengaged)
    exact h.outlives hs hP (h.not_suspended_of_claim hP hold)
      fun status hends ↦ hok.ends p (mem_ends.mpr ⟨status, hends⟩) hengaged
  | entered henters => exact h.outlives_entering hs henters
  | consumed hdone =>
    rcases hxs with rfl | rfl <;> cases hdone

omit [DecidableEq E] in
theorem Inv.not_claimed_of_caller (h : s.Inv False)
    (hcaller : (s.cores c).main.caller = some p) (hparks : (s.cores c).main.parks = false) :
    x ∉ s.claims p := by
  intro hx
  obtain ⟨P, hP⟩ := isLive_iff.mp (h.live_of_caller hcaller)
  have hzero := (h.scene.calm_current (h.scene.cores.caller c p hcaller) hP hparks).1
  have hpos : 0 < (s.claims p).card := Multiset.card_pos_iff_exists_mem.mpr ⟨x, hx⟩
  rw [card_claims] at hpos
  change s.tokens p = 0 at hzero
  omega

theorem Tidy.next (h : s.Tidy e) (hinv : s.Inv False) (hok : s.Leaves e a)
    (hs : s.next a = some s') : s'.Tidy e :=
  ⟨fun _ _ _ ↦ next_quiet h.quiet hs hok.quiet, fun _ hengages ↦
    hinv.engaged_live h.live hok hs hengages, h.lined.next hs h.quiet⟩

omit [DecidableEq E] in
/-- A queue that is full while another process sends holds a message left for a kernel task: there
are too few processes to fill it, even with the receiver that a core is on its way to. -/

theorem Tidy.leftForTask (h : s.Tidy e) (hinv : s.Inv False)
    (hcaller : (s.cores c).main.caller = some pid) (hparks : (s.cores c).main.parks = false)
    (hfull : (s.endpoints e).entries.length = maxProcesses) : s.LeftForTask e := by
  have hunclaimed : ∀ x, x ∉ s.claims pid := fun x ↦ hinv.not_claimed_of_caller hcaller hparks
  have hpid := hinv.live_of_caller hcaller
  have hnodup := hinv.nodup_senders h.live
  have hsenders : ∀ p ∈ senders (s.endpoints e).entries, .sends e ∈ s.claims p ∧ s.isLive p = true :=
    fun p hp ↦ h.sender_live hp
  obtain ⟨hfirst, hbehind, -⟩ := h.lined
  unfold LeftForTask
  generalize (s.endpoints e).entries = entries at hfull hnodup hsenders hfirst hbehind ⊢
  have hcaller_new : pid ∉ senders entries := fun hmem ↦ hunclaimed _ (hsenders pid hmem).1
  cases entries with
  | nil => cases hfull
  | cons entry rest =>
    obtain ⟨parcel, w⟩ := entry
    have hrest : (senders rest).length = rest.length := length_senders hbehind
    rw [List.length_cons] at hfull
    rcases hfirst parcel w rfl with ⟨q, rfl⟩ | ⟨rfl, htask | ⟨d, r, hr⟩⟩
    · -- all entries are those of live processes, and the caller is one more
      have hall : (senders ((parcel, .process q) :: rest)).length = rest.length + 1 :=
        congrArg Nat.succ hrest
      have hle := length_le_of_live (s := s) (List.nodup_cons.mpr ⟨hcaller_new, hnodup⟩) <| by
        intro p hp
        rcases List.mem_cons.mp hp with rfl | hp
        · exact hpid
        · exact (hsenders p hp).2
      rw [List.length_cons, hall] at hle
      omega
    · exact ⟨parcel, List.mem_cons_self, htask⟩
    · -- the receiver is on its own, so with the caller there are two more
      have hclaim : .receives e ∈ s.claims r := claims_of_errand hr rfl
      have hlive := h.live r (.inr hclaim)
      have hcons : senders ((parcel, .none) :: rest) = senders rest := rfl
      rw [hcons] at hnodup hsenders hcaller_new
      have hreceiver_new : r ∉ senders rest := by
        intro hmem
        obtain ⟨R, hR⟩ := isLive_iff.mp hlive
        cases hinv.claim_unique hR hclaim (hsenders r hmem).1
      have hdistinct : pid ∉ r :: senders rest := by
        intro hmem
        rcases List.mem_cons.mp hmem with rfl | hmem
        · exact hunclaimed _ hclaim
        · exact hcaller_new hmem
      have hle := length_le_of_live (s := s)
        (List.nodup_cons.mpr ⟨hdistinct, List.nodup_cons.mpr ⟨hreceiver_new, hnodup⟩⟩) <| by
        intro p hp
        rcases List.mem_cons.mp hp with rfl | hp
        · exact hpid
        · rcases List.mem_cons.mp hp with rfl | hp
          · exact hlive
          · exact (hsenders p hp).2
      rw [List.length_cons, List.length_cons, hrest] at hle
      omega

theorem Tidy.send (h : s.Tidy e) (hinv : s.Inv False)
    (hs : s.next a = some s') (herr : (s.cores a.core).errands = [])
    (hmain : (s.cores a.core).main = .trySend e message pid f)
    (hfull : (s'.cores a.core).main = .leave (f.withRax resourceExhausted.toRax)) :
    s.LeftForTask e := by
  refine h.leftForTask hinv (by rw [hmain]; rfl) (by rw [hmain]; rfl) ?_
  have hstep := mainStep_of_next hs herr hmain
  simp only [mainStep, trySend] at hstep
  have hcases := Endpoint.Slot.trySend_cases (by decide) (s.endpoints e) ⟨s.nextId, message⟩
    (.process pid)
  split at hstep
  · cases hstep
    rw [goto_main] at hfull
    cases hfull
  · cases hstep
    rw [goto_main] at hfull
    cases hfull
  · rename_i slot htry
    rw [htry] at hcases
    rcases hcases with ⟨_, _, hout, _⟩ | ⟨_, hout, _⟩ | ⟨-, hlength, -⟩
    · cases hout
    · cases hout
    · exact hlength

theorem Tidy.recv (h : s.Tidy e) (hinv : s.Inv False)
    (hs : s.next a = some s') (herr : (s.cores a.core).errands = [])
    (hmain : (s.cores a.core).main = .tryRecv e pid f)
    (hfull : (s'.cores a.core).main = .leave (f.withRax resourceExhausted.toRax)) :
    s.OtherReceives e pid := by
  have hstep := mainStep_of_next hs herr hmain
  simp only [mainStep, tryRecv] at hstep
  split at hstep
  · cases hstep
  · cases hstep
    rw [goto_main] at hfull
    cases hfull
  · cases hstep
    rw [goto_main] at hfull
    cases hfull
  · rename_i slot hrecv
    rcases Endpoint.Slot.tryRecv_cases hrecv with ⟨_, _, _, _, _, hout, _⟩ | ⟨_, hout, _⟩ |
      ⟨r, hslot, -, -⟩
    · cases hout
    · cases hout
    · cases r with
      | task waker => exact .inl ⟨waker, hslot⟩
      | process q =>
        have hclaim : .receives e ∈ s.claims q :=
          claims_of_slot (mem_slotClaims.mpr (.inr ⟨rfl, by rw [hslot]; rfl⟩))
        refine .inr ⟨q, ?_, h.live q (.inr hclaim), hslot⟩
        rintro rfl
        exact hinv.not_claimed_of_caller (by rw [hmain]; rfl) (by rw [hmain]; rfl) hclaim
      | none => exact absurd (by rw [hslot]; rfl) h.lined.receiver

theorem Tidy.fullHonest (h : s.Tidy e) (hinv : s.Inv False) : s.FullHonest e := by
  refine ⟨?_, ?_, ?_⟩
  · intro a s' message pid f hs herr hmain hfull
    exact .inr (h.send hinv hs herr hmain hfull)
  · intro a s' pid f hs herr hmain hfull
    exact h.recv hinv hs herr hmain hfull
  · intro p hentered
    rcases hentered with hsender | hreceiver
    · exact (h.sender_live (mem_senders.mpr hsender)).2
    · exact h.live p (.inr (claims_of_slot (mem_slotClaims.mpr (.inr ⟨rfl, hreceiver⟩))))

/-- In every run in which no process is terminated while it is entered at `e` or about to be handed
a message there, the calls at `e` are answered with `ResourceExhausted` for a good reason only. -/
theorem fullHonest_of_reach (config : BootConfig E) (e : E) (s : State E)
    (h : Reach next (State.Leaves e) (init config) s) : s.FullHonest e := by
  have hbase : ∀ t, Reach next (State.Leaves e) (init config) t → t.Inv False :=
    fun t ht ↦ inv_of_noWrap (fun _ _ hok ↦ hok.wrap) ht
  have htidy : s.Tidy e := by
    refine Reach.invariant_over (I := fun t ↦ t.Tidy e) hbase (Tidy.init config e) ?_ h
    intro t a u hinv ht hok hs
    exact ht.next hinv hok hs
  exact htidy.fullHonest (hbase s h)

end Steps

section Checks

variable {s : State E} {a : Action E} {e : E}

section

variable [DecidableEq E]

def sendRefused (s : State E) (e : E) (a : Action E) : Option Pid :=
  match (s.cores a.core).errands, (s.cores a.core).main, s.next a with
  | [], .trySend e' _ pid f, some s' =>
    match (s'.cores a.core).main with
    | .leave g =>
      if e' = e ∧ g = f.withRax resourceExhausted.toRax then some pid else none
    | _ => none
  | _, _, _ => none

def recvRefused (s : State E) (e : E) (a : Action E) : Option Pid :=
  match (s.cores a.core).errands, (s.cores a.core).main, s.next a with
  | [], .tryRecv e' pid f, some s' =>
    match (s'.cores a.core).main with
    | .leave g =>
      if e' = e ∧ g = f.withRax resourceExhausted.toRax then some pid else none
    | _ => none
  | _, _, _ => none

theorem FullHonest.of_sendRefused (h : s.FullHonest e) (hr : s.sendRefused e a = some pid) :
    s.AllQueued e ∨ s.LeftForTask e := by
  unfold sendRefused at hr
  split at hr
  · rename_i herr hmain hs
    split at hr
    · rename_i hmain'
      split_ifs at hr with hsame
      obtain ⟨rfl, rfl⟩ := hsame
      exact h.send a _ _ _ _ hs herr hmain hmain'
    · cases hr
  · cases hr

theorem FullHonest.of_recvRefused (h : s.FullHonest e) (hr : s.recvRefused e a = some pid) :
    s.OtherReceives e pid := by
  unfold recvRefused at hr
  split at hr
  · rename_i herr hmain hs
    split at hr
    · rename_i hmain'
      split_ifs at hr with hsame
      obtain ⟨rfl, rfl⟩ := hsame
      cases hr
      exact h.recv a _ _ _ hs herr hmain hmain'
    · cases hr
  · cases hr

end

variable [Fintype E]

theorem leaves_iff : s.Leaves e a ↔ s.NoWrap a ∧ Choice.offersAt a.choice ≠ some e ∧
    ∀ p ∈ s.ends a.core, ¬ s.Engages e p := by
  have hquiet : Choice.offersAt a.choice ≠ some e ↔
      ∀ message waker, a.choice ≠ .pollSend e message waker := by
    cases a.choice <;> simp [Choice.offersAt]
  rw [hquiet]
  exact ⟨fun h ↦ ⟨h.wrap, h.quiet, h.ends⟩, fun ⟨hwrap, hquiet, hends⟩ ↦ ⟨hwrap, hquiet, hends⟩⟩

variable [DecidableEq E]

instance (s : State E) (e : E) (p : Pid) : Decidable (s.Engages e p) :=
  inferInstanceAs (Decidable (_ ∨ _))

instance (s : State E) (e : E) (a : Action E) : Decidable (s.Leaves e a) :=
  decidable_of_iff' _ leaves_iff

end Checks

def receiveToo : List (Action Unit) := receiveFirst ++ serve 0 sysRecv 0 2

theorem fullHonest_of_reach_receiveToo :
    ∃ s, Reach next (State.Leaves ()) (init soloEndpoint) s ∧
      s.recvRefused () (go 0) = some (Pid.new 0 1) ∧ s.OtherReceives () (Pid.new 0 1) := by
  refine exists_of_run receiveToo (by decide +kernel) fun s hreach
    (hrefused : s.recvRefused () (go 0) = some (Pid.new 0 1)) ↦ ?_
  exact ⟨hrefused, (fullHonest_of_reach soloEndpoint () s hreach).of_recvRefused hrefused⟩

def receiveAfterKill : List (Action Unit) := receiveFirst ++ killChild ++ serve 0 sysRecv 0 2

def sendAndDie (generation : UInt32) : List (Action Unit) :=
  let child := Pid.new 1 generation
  spawnOn 0 generation.toNat ++ grantTo child 1 ++ startOn 0 child ++ advance 1 3 ++
    serve 1 sysSend 0 4 ++ serve 0 sysKill child.raw 7 ++ serve 0 sysWait child.raw 4

def sendAfterKills : List (Action Unit) :=
  bootSolo ++ (List.range maxProcesses).flatMap (fun n ↦ sendAndDie (UInt32.ofNat (n + 1))) ++
    serve 0 sysSend 0 2

/-- A killed receiver keeps others from receiving, and killed senders fill the queue. -/
theorem full_of_the_dead :
    (∃ s, Reach next (fun t a ↦ t.NoWrap a ∧ Choice.offersAt a.choice = none)
        (init soloEndpoint) s ∧
      s.recvRefused () (go 0) = some (Pid.new 0 1) ∧ ¬ s.OtherReceives () (Pid.new 0 1) ∧
      ¬ s.FullHonest ()) ∧
    ∃ s, Reach next (fun t a ↦ t.NoWrap a ∧ Choice.offersAt a.choice = none)
        (init soloEndpoint) s ∧
      s.sendRefused () (go 0) = some (Pid.new 0 1) ∧
      (∀ p ∈ senders (s.endpoints ()).entries, s.isLive p = false) ∧
      ¬ s.AllQueued () ∧ ¬ s.LeftForTask () ∧ ¬ s.FullHonest () := by
  constructor
  · refine exists_of_run receiveAfterKill (by decide +kernel) fun s _
      (hholds : s.recvRefused () (go 0) = some (Pid.new 0 1) ∧
        (s.endpoints ()).receiver? = some (.process twin) ∧ s.isLive twin = false) ↦ ?_
    obtain ⟨hrefused, hreceiver, hdead⟩ := hholds
    have hnobody : ¬ s.OtherReceives () (Pid.new 0 1) := by
      rintro (⟨waker, hslot⟩ | ⟨q, -, hlive, hslot⟩)
      · rw [hslot] at hreceiver
        cases hreceiver
      · rw [hslot] at hreceiver
        cases hreceiver
        cases hdead.symm.trans hlive
    exact ⟨hrefused, hnobody, fun hhonest ↦ hnobody (hhonest.of_recvRefused hrefused)⟩
  · refine exists_of_run sendAfterKills (by decide +kernel) fun s _
      (hholds : s.sendRefused () (go 0) = some (Pid.new 0 1) ∧
        (∀ p ∈ senders (s.endpoints ()).entries, s.isLive p = false) ∧
        s.isLive (s.sched.pidAt 1) = false ∧
        ∀ entry ∈ (s.endpoints ()).entries, entry.2 ≠ .none) ↦ ?_
    obtain ⟨hrefused, hdead, hfree, hsent⟩ := hholds
    have hroom : ¬ s.AllQueued () := fun hall ↦ by
      cases hfree.symm.trans (hall 1).1
    have hnone : ¬ s.LeftForTask () := fun ⟨parcel, hparcel, _⟩ ↦ hsent _ hparcel rfl
    exact ⟨hrefused, hdead, hroom, hnone,
      fun hhonest ↦ (hhonest.of_sendRefused hrefused).elim hroom hnone⟩

end State

end Tarnos.Kernel
