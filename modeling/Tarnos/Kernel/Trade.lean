import Tarnos.Kernel.Step

namespace Tarnos.Kernel

open Abi Arch Kcore Tarnos.Task Function

variable {E : Type}

/-- How a core goes on after an operation on an endpoint: where to, what it notes of a message it
took out and how it hands it over, and the errands it has left. -/
structure Onward (E : Type) where
  done : Parcel → Main E
  parked : Main E
  refused : Main E
  note : Parcel → Event E
  hands : Parcel → List (Errand E)
  behind : List (Errand E)

namespace Onward

@[simps]
def errand (m : Main E) (note : Parcel → Event E) (hands : Parcel → List (Errand E))
    (rest : List (Errand E)) : Onward E :=
  ⟨fun _ ↦ m, m, m, note, hands, rest⟩

@[simps]
def call (done : Parcel → Main E) (note : Parcel → Event E) (f : TrapFrame) : Onward E :=
  ⟨done, .blockCurrent f, .leave (f.withRax SyscallError.resourceExhausted.toRax), note, fun _ ↦ [], []⟩

end Onward

namespace State

inductive Submits (s : State E) (c : CoreId) (e : E) (message : Message) :
    EndpointWaiter → Onward E → Prop
  | task {waker rest} (herr : (s.cores c).errands = .pollSend e message waker :: rest) :
      Submits s c e message (.task waker)
        (.errand (s.cores c).main (fun parcel ↦ .accepted parcel.id) (fun _ ↦ []) rest)
  | call {pid f} (herr : (s.cores c).errands = [])
      (hmain : (s.cores c).main = .trySend e message pid f) :
      Submits s c e message (.process pid)
        (.call (fun parcel ↦ .sendReturn parcel.id f) (fun parcel ↦ .accepted parcel.id) f)

inductive Asks (s : State E) (c : CoreId) (e : E) : EndpointWaiter → Onward E → Prop
  | task {waker rest} (herr : (s.cores c).errands = .pollRecv e waker :: rest) :
      Asks s c e (.task waker)
        (.errand (s.cores c).main (fun parcel ↦ .handedTask parcel.id) (fun _ ↦ []) rest)
  | displaced {pid rest} (herr : (s.cores c).errands = .wakeReceiver e pid :: rest) :
      Asks s c e (.process pid) (.errand (s.cores c).main
        (fun parcel ↦ .taken parcel.id pid (s.isLive pid)) (fun parcel ↦ [.handOver pid parcel]) rest)
  | call {pid f} (herr : (s.cores c).errands = [])
      (hmain : (s.cores c).main = .tryRecv e pid f) :
      Asks s c e (.process pid) (.call (fun parcel ↦ .recvReturn parcel pid f)
        (fun parcel ↦ .taken parcel.id pid (s.isLive pid)) f)

variable [DecidableEq E]

/-- Everything an operation of core `c` on an endpoint can come to. -/
inductive Trade (s : State E) (c : CoreId) : State E → Prop
  | delivered {e message sender r slot o} (hsubmits : s.Submits c e message sender o)
      (htry : (s.endpoints e).trySend ⟨s.nextId, message⟩ sender = (.delivered r, slot))
      (hslot : s.endpoints e = .receiverWaiting r)
      (hentries : slot.entries = [(⟨s.nextId, message⟩, .none)]) (hrecv : slot.receiver? = none)
      (htask : ∀ waker, r = .task waker → o.parked = (s.cores c).main) :
      Trade s c ((s.setEndpoint e slot).accept.goto c (o.done ⟨s.nextId, message⟩)
        (receiverErrands e r ++ o.behind))
  | displaced {e message pid f waker slot} (herr : (s.cores c).errands = [])
      (hmain : (s.cores c).main = .trySend e message pid f)
      (htry : (s.endpoints e).trySend ⟨s.nextId, message⟩ (.process pid) =
        (.delivered (.task waker), slot))
      (hslot : s.endpoints e = .receiverWaiting (.task waker))
      (hentries : slot.entries = [(⟨s.nextId, message⟩, .none)]) (hrecv : slot.receiver? = none) :
      Trade s c (((s.setEndpoint e slot).accept.record (.displacedTask s.nextId)).goto c
        (.sendReturn s.nextId f) [])
  | enqueued {e message sender slot o} (hsubmits : s.Submits c e message sender o)
      (htry : (s.endpoints e).trySend ⟨s.nextId, message⟩ sender = (.enqueued, slot))
      (hentries : slot.entries = (s.endpoints e).entries ++ [(⟨s.nextId, message⟩, sender)])
      (hrecv : slot.receiver? = none) (hnone : (s.endpoints e).receiver? = none) :
      Trade s c ((s.setEndpoint e slot).accept.goto c o.parked o.behind)
  | refused {e message sender o} (hsubmits : s.Submits c e message sender o)
      (htry : (s.endpoints e).trySend ⟨s.nextId, message⟩ sender = (.queueFull, s.endpoints e)) :
      Trade s c (s.goto c o.refused o.behind)
  | taken {e w sender parcel slot o} (hasks : s.Asks c e w o)
      (htry : (s.endpoints e).tryRecv w = some (.delivered parcel sender, slot))
      (hentries : (s.endpoints e).entries = (parcel, sender) :: slot.entries)
      (hrecv : slot.receiver? = none) (hnone : (s.endpoints e).receiver? = none) :
      Trade s c (((s.setEndpoint e slot).record (o.note parcel)).goto c (o.done parcel)
        (senderErrands sender parcel.id ++ o.hands parcel ++ o.behind))
  | registered {e w o} (hasks : s.Asks c e w o)
      (htry : (s.endpoints e).tryRecv w = some (.enqueued, .receiverWaiting w))
      (hslot : s.endpoints e = .empty) :
      Trade s c ((s.setEndpoint e (.receiverWaiting w)).goto c o.parked o.behind)
  | unregistered {e w r o} (hasks : s.Asks c e w o)
      (htry : (s.endpoints e).tryRecv w = some (.queueFull, s.endpoints e))
      (hslot : s.endpoints e = .receiverWaiting r) : Trade s c (s.goto c o.refused o.behind)
  | closed {e pid rest} (herr : (s.cores c).errands = .takeWaitingReceiver e :: rest)
      (hslot : s.endpoints e = .receiverWaiting (.process pid)) :
      Trade s c ((s.setEndpoint e .empty).goto c (s.cores c).main (.peerClosed pid :: rest))
  | nobody {e rest} (herr : (s.cores c).errands = .takeWaitingReceiver e :: rest) :
      Trade s c (s.goto c (s.cores c).main rest)

variable {s s' : State E} {c : CoreId} {e : E} {message : Message} {waker : ℕ} {pid : Pid}
  {f : TrapFrame} {rest : List (Errand E)} {w r : EndpointWaiter} {slot : EndpointSlot} {o : Onward E}

theorem setEndpoint_self : s.setEndpoint e (s.endpoints e) = s := by
  simp [setEndpoint]

omit [DecidableEq E] in
theorem receiverWaiting_of_delivered
    (htry : (s.endpoints e).trySend ⟨s.nextId, message⟩ w = (.delivered r, slot)) :
    s.endpoints e = .receiverWaiting r ∧ slot.entries = [(⟨s.nextId, message⟩, .none)] ∧
      slot.receiver? = none := by
  have hcases := Endpoint.Slot.trySend_cases (by decide) (s.endpoints e) ⟨s.nextId, message⟩ w
  rw [htry] at hcases
  rcases hcases with ⟨_, hslot, hout, hentries, hrecv⟩ | ⟨-, hout, -⟩ | ⟨hout, -⟩ <;> cases hout
  exact ⟨hslot, hentries, hrecv⟩

theorem Trade.of_enqueued (hsubmits : s.Submits c e message w o)
    (htry : (s.endpoints e).trySend ⟨s.nextId, message⟩ w = (.enqueued, slot)) :
    s.Trade c ((s.setEndpoint e slot).accept.goto c o.parked o.behind) := by
  have hcases := Endpoint.Slot.trySend_cases (by decide) (s.endpoints e) ⟨s.nextId, message⟩ w
  rw [htry] at hcases
  rcases hcases with ⟨_, _, hout, _, _⟩ | ⟨hnone, -, hentries, hrecv⟩ | ⟨hout, -⟩
  · cases hout
  · exact .enqueued hsubmits htry hentries hrecv hnone
  · cases hout

theorem Trade.of_queueFull (hsubmits : s.Submits c e message w o)
    (htry : (s.endpoints e).trySend ⟨s.nextId, message⟩ w = (.queueFull, slot)) :
    s.Trade c ((s.setEndpoint e slot).goto c o.refused o.behind) := by
  have hcases := Endpoint.Slot.trySend_cases (by decide) (s.endpoints e) ⟨s.nextId, message⟩ w
  rw [htry] at hcases
  rcases hcases with ⟨_, _, hout, _, _⟩ | ⟨-, hout, -⟩ | ⟨-, -, hsame⟩
  · cases hout
  · cases hout
  · cases hsame
    rw [setEndpoint_self]
    exact .refused hsubmits htry

theorem Trade.pollSend (herr : (s.cores c).errands = .pollSend e message waker :: rest)
    (hs : s.pollSend c e message waker rest = .next s') : s.Trade c s' := by
  unfold State.pollSend at hs
  split at hs <;> rename_i htry <;> cases hs
  · obtain ⟨hslot, hentries, hrecv⟩ := receiverWaiting_of_delivered htry
    exact .delivered (.task herr) htry hslot hentries hrecv fun _ _ ↦ rfl
  · exact .of_enqueued (.task herr) htry
  · exact .of_queueFull (.task herr) htry

theorem Trade.trySend (herr : (s.cores c).errands = [])
    (hmain : (s.cores c).main = .trySend e message pid f)
    (hs : s.trySend c e message pid f = .next s') : s.Trade c s' := by
  unfold State.trySend at hs
  split at hs <;> rename_i htry <;> cases hs
  · obtain ⟨hslot, hentries, hrecv⟩ := receiverWaiting_of_delivered htry
    split
    · exact .displaced herr hmain htry hslot hentries hrecv
    · rename_i hnot
      rw [← List.append_nil (receiverErrands e _)]
      exact .delivered (.call herr hmain) htry hslot hentries hrecv fun waker h ↦ absurd h (hnot waker)
  · exact .of_enqueued (.call herr hmain) htry
  · exact .of_queueFull (.call herr hmain) htry

theorem Trade.of_taken {parcel : Parcel} {sender : EndpointWaiter} (hasks : s.Asks c e w o)
    (htry : (s.endpoints e).tryRecv w = some (.delivered parcel sender, slot)) :
    s.Trade c (((s.setEndpoint e slot).record (o.note parcel)).goto c (o.done parcel)
      (senderErrands sender parcel.id ++ o.hands parcel ++ o.behind)) := by
  rcases Endpoint.Slot.tryRecv_cases htry with
    ⟨_, _, _, hentries, hnone, hout, rfl, hrecv⟩ | ⟨-, hout, -⟩ | ⟨_, _, hout, -⟩ <;> cases hout
  exact .taken hasks htry hentries hrecv hnone

theorem Trade.of_registered (hasks : s.Asks c e w o)
    (htry : (s.endpoints e).tryRecv w = some (.enqueued, slot)) :
    s.Trade c ((s.setEndpoint e slot).goto c o.parked o.behind) := by
  rcases Endpoint.Slot.tryRecv_cases htry with
    ⟨_, _, _, _, -, hout, -⟩ | ⟨hslot, -, rfl⟩ | ⟨_, _, hout, -⟩
  · cases hout
  · exact .registered hasks htry hslot
  · cases hout

theorem Trade.of_unregistered (hasks : s.Asks c e w o)
    (htry : (s.endpoints e).tryRecv w = some (.queueFull, slot)) :
    s.Trade c ((s.setEndpoint e slot).goto c o.refused o.behind) := by
  rcases Endpoint.Slot.tryRecv_cases htry with
    ⟨_, _, _, _, -, hout, -⟩ | ⟨-, hout, -⟩ | ⟨r, hslot, -, rfl⟩
  · cases hout
  · cases hout
  · rw [setEndpoint_self]
    exact .unregistered hasks htry hslot

theorem Trade.pollRecv (herr : (s.cores c).errands = .pollRecv e waker :: rest)
    (hs : s.pollRecv c e waker rest = .next s') : s.Trade c s' := by
  unfold State.pollRecv at hs
  split at hs
  · cases hs
  · rename_i parcel sender slot htry
    cases hs
    rw [← List.append_nil (senderErrands sender parcel.id)]
    exact .of_taken (.task herr) htry
  · rename_i outcome slot hnot htry
    cases hs
    cases outcome with
    | delivered parcel sender => exact absurd rfl (hnot parcel sender)
    | enqueued => exact .of_registered (.task herr) htry
    | queueFull => exact .of_unregistered (.task herr) htry

theorem Trade.wakeReceiver (herr : (s.cores c).errands = .wakeReceiver e pid :: rest)
    (hs : s.wakeReceiver c e pid rest = .next s') : s.Trade c s' := by
  unfold State.wakeReceiver at hs
  split at hs
  · cases hs
  · rename_i parcel sender slot htry
    cases hs
    exact .of_taken (.displaced herr) htry
  · rename_i outcome slot hnot htry
    cases hs
    cases outcome with
    | delivered parcel sender => exact absurd rfl (hnot parcel sender)
    | enqueued => exact .of_registered (.displaced herr) htry
    | queueFull => exact .of_unregistered (.displaced herr) htry

theorem Trade.tryRecv (herr : (s.cores c).errands = [])
    (hmain : (s.cores c).main = .tryRecv e pid f) (hs : s.tryRecv c e pid f = .next s') :
    s.Trade c s' := by
  unfold State.tryRecv at hs
  split at hs
  · cases hs
  all_goals rename_i htry; cases hs
  · rw [← List.append_nil (senderErrands _ _), ← List.append_nil (_ ++ _)]
    exact .of_taken (.call herr hmain) htry
  · exact .of_registered (.call herr hmain) htry
  · exact .of_unregistered (.call herr hmain) htry

theorem Trade.takeWaitingReceiver (herr : (s.cores c).errands = .takeWaitingReceiver e :: rest)
    (hs : s.takeWaitingReceiver c e rest = .next s') : s.Trade c s' := by
  unfold State.takeWaitingReceiver at hs
  split at hs
  · rename_i hslot
    cases hs
    exact .closed herr hslot
  · cases hs
    exact .nobody herr

theorem Trade.main_of_errands (h : s.Trade c s') (herr : (s.cores c).errands ≠ []) :
    (s'.cores c).main = (s.cores c).main := by
  cases h with
  | closed | nobody => exact goto_main
  | displaced herr' => exact absurd herr' herr
  | delivered hfrom | enqueued hfrom | refused hfrom | taken hfrom | registered hfrom
  | unregistered hfrom =>
    rw [goto_main]
    cases hfrom with
    | call herr' => exact absurd herr' herr
    | _ => rfl

section Behind

omit [DecidableEq E]

variable {x : Errand E}

theorem Submits.mem_errands (h : s.Submits c e message w o) (hx : x ∈ o.behind) :
    x ∈ (s.cores c).errands := by
  cases h with
  | task herr => exact herr ▸ List.mem_cons_of_mem _ hx
  | call => cases hx

theorem Asks.mem_errands (h : s.Asks c e w o) (hx : x ∈ o.behind) : x ∈ (s.cores c).errands := by
  cases h with
  | task herr | displaced herr => exact herr ▸ List.mem_cons_of_mem _ hx
  | call => cases hx

end Behind

theorem Trade.sched (h : s.Trade c s') : s'.sched = s.sched := by
  cases h <;> rfl

theorem Trade.main {motive : Main E → Prop} (h : s.Trade c s') (hsame : motive (s.cores c).main)
    (hsend : ∀ f, motive (.sendReturn s.nextId f))
    (hrecv : ∀ e parcel sender pid f, (parcel, sender) ∈ (s.endpoints e).entries →
      motive (.recvReturn parcel pid f))
    (hblock : ∀ f, motive (.blockCurrent f)) (hleave : ∀ f, motive (.leave f)) :
    motive (s'.cores c).main := by
  cases h <;> rw [goto_main]
  case displaced => exact hsend _
  case closed | nobody => exact hsame
  case delivered hsubmits _ _ _ _ _ | enqueued hsubmits _ _ _ _ | refused hsubmits _ =>
    cases hsubmits with
    | task => exact hsame
    | call => first | exact hsend _ | exact hblock _ | exact hleave _
  case taken hasks _ hentries _ _ =>
    cases hasks with
    | task | displaced => exact hsame
    | call => exact hrecv _ _ _ _ _ (by rw [hentries]; exact List.mem_cons_self)
  case registered hasks _ _ | unregistered hasks _ _ =>
    cases hasks with
    | task | displaced => exact hsame
    | call => first | exact hblock _ | exact hleave _

theorem Trade.others (h : s.Trade c s') {d : CoreId} (hd : d ≠ c) : s'.cores d = s.cores d := by
  cases h <;> exact goto_other hd

end State

end Tarnos.Kernel
