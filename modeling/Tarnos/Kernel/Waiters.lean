import Tarnos.Kernel.Delivery

namespace Tarnos.Kernel

open Abi Arch Kcore Tarnos.Task Foundation.Transition Function

variable {E : Type} {rest : List (Errand E)} {c : CoreId}

namespace State

def entered [Fintype E] (s : State E) (p : Pid) : ℕ := ∑ e, slotTokens p (s.endpoints e)

/-- How many cores carry a wake for `p`: as a receiver inside `wake_receiver`, as a sender whose
message was taken, or as a receiver without a sender left. -/
def carried (s : State E) (p : Pid) : ℕ := ∑ c, coreTokens p (s.cores c)

def WaitsFor (s : State E) (p q : Pid) : Prop :=
  ∃ Q, s.sched.view q = .occupied Q ∧ Q.parent = some p ∧ Q.waitWaiter = some p

def RegisteredOnce [Fintype E] (s : State E) (p : Pid) : Prop :=
  s.entered p + s.carried p = 1 ∧ (∀ q, ¬ s.WaitsFor p q) ∨
    s.entered p + s.carried p = 0 ∧ ∃! q, s.WaitsFor p q

/-- No blocked process is forgotten, and a core that wakes a receiver either goes on to hand it the
message it took out or registers it again; a receiver that is handed a message is woken. -/
structure Remembered [DecidableEq E] [Fintype E] (s : State E) : Prop where
  blocked : ∀ p P, s.sched.view p = .occupied P → P.state = .blocked → s.RegisteredOnce p
  taking : ∀ a s' e p rest, s.next a = some s' → s.Keeps a →
    (s.cores a.core).errands = .wakeReceiver e p :: rest →
    (∃ sender parcel, (s'.cores a.core).errands =
      senderErrands sender parcel.id ++ .handOver p parcel :: rest) ∨
    s'.endpoints e = .receiverWaiting (.process p) ∧ (s'.cores a.core).errands = rest
  handing : ∀ a s' p P parcel rest, s.next a = some s' → s.sched.view p = .occupied P →
    (s.cores a.core).errands = .handOver p parcel :: rest →
    ∃ P', s'.sched.view p = .occupied P' ∧ (s'.cores a.core).errands = rest ∧
      (P' = applyWakeResult P (recvCompleted parcel.message) ∧ p ∈ s'.sched.queue ∨
        P.state = .running ∧ P'.pendingWake = some (recvCompleted parcel.message))

variable {s s' : State E} {p : Pid} {P : Process E}

def wakesAt : List (Errand E) → Option E
  | .wakeReceiver e _ :: _ => some e
  | _ => none

theorem keeps_iff {a : Action E} :
    s.Keeps a ↔ ∀ e ∈ wakesAt (s.cores a.core).errands, (s.endpoints e).receiver? = none := by
  refine ⟨fun h e he ↦ ?_, fun h e pid rest herr r hr ↦ ?_⟩
  · unfold wakesAt at he
    split at he
    · rename_i e' pid rest herr
      cases he
      cases hslot : s.endpoints e with
      | receiverWaiting r => exact absurd hslot (h e pid rest herr r)
      | _ => rfl
    · cases he
  · have hnone := h e (by rw [herr]; rfl)
    rw [hr] at hnone
    cases hnone

section

variable [Fintype E]

theorem tokens_eq : s.tokens p = s.entered p + s.carried p := rfl

theorem Inv.registeredOnce (h : s.Inv True) (hP : s.sched.view p = .occupied P)
    (hstate : P.state = .blocked) : s.RegisteredOnce p := by
  have hacc := h.scene.accounts.account p P hP
  -- a live waiter is the parent of the child it waits for
  have hchild : ∀ q, s.scene.table.Waits p q ↔ s.WaitsFor p q := by
    intro q
    refine ⟨fun ⟨Q, hQ, hwaiter⟩ ↦ ?_, fun ⟨Q, hQ, _, hwaiter⟩ ↦ ⟨Q, hQ, hwaiter⟩⟩
    rcases h.scene.sound.waiter q Q p hQ hwaiter with ⟨hparent, -⟩ | ⟨-, -, hdead⟩
    · exact ⟨Q, hQ, hparent, hwaiter⟩
    · exact absurd ⟨P, hP⟩ hdead
  by_cases hwaits : ∃ q, s.scene.table.Waits p q
  · obtain ⟨q, hq⟩ := hwaits
    obtain ⟨hzero, hunique⟩ := hacc.waiting q hq
    exact .inr ⟨hzero, q, (hchild q).mp hq, fun r hr ↦ hunique r ((hchild r).mpr hr)⟩
  · have hnone : ∀ q, ¬ s.scene.table.Waits p q := fun q hq ↦ hwaits ⟨q, hq⟩
    exact .inl ⟨hacc.blocked trivial hstate hnone, fun q hq ↦ hnone q ((hchild q).mpr hq)⟩

theorem Inv.blocked_or_running {strict : Prop} (h : s.Inv strict)
    (hP : s.sched.view p = .occupied P) (htokens : 0 < s.tokens p) :
    P.state = .blocked ∨ P.state = .running ∧ Parked s.scene.table s.scene.main p := by
  by_cases hstate : P.state = .blocked
  · exact .inl hstate
  · by_cases hparked : Parked s.scene.table s.scene.main p
    · obtain ⟨c, hc, -⟩ := id hparked
      exact .inr ⟨h.scene.state_running hc hP, hparked⟩
    · have hzero := ((h.scene.accounts.account p P hP).calm hstate hparked).1
      change s.tokens p = 0 at hzero
      omega

end

variable [DecidableEq E]

theorem Keeps.wakeReceiver {choice : Choice E} {e : E}
    (hkeeps : s.Keeps ⟨c, choice⟩) (herr : (s.cores c).errands = .wakeReceiver e p :: rest)
    (hs : s.wakeReceiver c e p rest = .next s') :
    (∃ sender parcel, (s'.cores c).errands =
      senderErrands sender parcel.id ++ .handOver p parcel :: rest) ∨
    s'.endpoints e = .receiverWaiting (.process p) ∧ (s'.cores c).errands = rest := by
  unfold State.wakeReceiver at hs
  split at hs
  · cases hs
  · rename_i parcel sender slot hrecv
    cases hs
    exact .inl ⟨sender, parcel, by simp⟩
  · rename_i outcome slot hother hrecv
    cases hs
    refine .inr ⟨?_, by simp⟩
    have hslot : slot = .receiverWaiting (.process p) := by
      cases hold : s.endpoints e with
      | empty =>
        rw [hold] at hrecv
        cases hrecv
        rfl
      | receiverWaiting r => exact absurd hold (hkeeps e p rest herr r)
      | sendersWaiting queue =>
        rw [hold] at hrecv
        simp only [Endpoint.Slot.tryRecv] at hrecv
        split at hrecv
        · cases hrecv
          exact absurd rfl (hother _ _)
        · cases hrecv
    simp [hslot, goto, setCore, setEndpoint]

variable [Fintype E]

omit [DecidableEq E] in
theorem carried_pos {errand : Errand E}
    (herr : (s.cores c).errands = errand :: rest) (htoken : errandTokens p errand = 1) :
    0 < s.tokens p := by
  have hcore : errandTokens p errand ≤ coreTokens p (s.cores c) := by
    unfold coreTokens
    rw [herr, List.map_cons, List.sum_cons]
    exact Nat.le_add_right _ _
  have hsum : coreTokens p (s.cores c) ≤ s.carried p :=
    Finset.single_le_sum (f := fun d ↦ coreTokens p (s.cores d)) (fun _ _ ↦ Nat.zero_le _)
      (Finset.mem_univ c)
  rw [tokens_eq]
  omega

theorem Inv.handing {strict : Prop} {choice : Choice E} {parcel : Parcel}
    (h : s.Inv strict) (hP : s.sched.view p = .occupied P)
    (herr : (s.cores c).errands = .handOver p parcel :: rest)
    (hs : s.errandStep c (.handOver p parcel) rest choice = .next s') :
    ∃ P', s'.sched.view p = .occupied P' ∧ (s'.cores c).errands = rest ∧
      (P' = applyWakeResult P (recvCompleted parcel.message) ∧ p ∈ s'.sched.queue ∨
        P.state = .running ∧ P'.pendingWake = some (recvCompleted parcel.message)) := by
  cases hs
  have htokens : 0 < s.tokens p := carried_pos herr (by simp [errandTokens])
  obtain ⟨htable, -⟩ := Inner.table_wake (s := s.sched) (p := p) (recvCompleted parcel.message) h.room
  have hview : (s.sched.wakeBlockedProcessLocked p (recvCompleted parcel.message)).view p =
      (s.sched.table.wake p (recvCompleted parcel.message)).view p := by rw [← htable]; rfl
  have hqueue : (s.sched.wakeBlockedProcessLocked p (recvCompleted parcel.message)).queue =
      (s.sched.table.wake p (recvCompleted parcel.message)).queue := by rw [← htable]; rfl
  have hold : s.sched.table.view p = .occupied P := hP
  unfold Table.wake at hview hqueue
  rw [hold] at hview hqueue
  rcases h.blocked_or_running hP htokens with hblocked | ⟨hrunning, -⟩
  · simp only [hblocked, if_true] at hview hqueue
    refine ⟨applyWakeResult P (recvCompleted parcel.message), ?_, by simp, .inl ⟨rfl, ?_⟩⟩
    · exact hview.trans (by simp)
    · exact hqueue ▸ (by simp)
  · have hnot : P.state ≠ .blocked := by rw [hrunning]; simp
    simp only [if_neg hnot] at hview
    refine ⟨{ P with pendingWake := some (recvCompleted parcel.message) }, ?_, by simp,
      .inr ⟨hrunning, rfl⟩⟩
    exact hview.trans (by simp)

/-- In every run without a wrapping generation counter in which no wake of a receiver is turned
down by another waiting receiver, no blocked process is forgotten. -/
theorem remembered_of_keeps (config : BootConfig E) (s : State E)
    (h : Reach next (fun t a ↦ t.NoWrap a ∧ t.Keeps a) (init config) s) : s.Remembered := by
  have hinv : s.Inv True := inv_of_reach (fun _ _ hok ↦ hok.1) (fun _ _ _ hok ↦ hok.2) h
  refine ⟨fun p P hP hstate ↦ hinv.registeredOnce hP hstate, ?_, ?_⟩
  · intro a s' e p rest hnext hkeeps herr
    have hstep := step_of_next hnext
    unfold step at hstep
    rw [herr] at hstep
    exact hkeeps.wakeReceiver herr hstep
  · intro a s' p P parcel rest hnext hP herr
    have hstep := step_of_next hnext
    unfold step at hstep
    rw [herr] at hstep
    exact hinv.handing hP herr hstep

instance (s : State E) (a : Action E) : Decidable (s.Keeps a) := decidable_of_iff' _ keeps_iff

/-- The parent of the blocked child `twin` runs on core 0, a second child on core 2; both children
may receive. -/
def twoReceivers : List (Action Unit) :=
  receiveFirst ++ spawnOn 0 2 ++ grantTo (Pid.new 2 1) 2 ++ startOn 0 (Pid.new 2 1) ++ advance 2 3

/-- Core 0 is about to wake the twin when core 2 takes the message and registers for the next. -/
def stealAndWait : List (Action Unit) :=
  serve 0 sysSend 0 3 ++ serve 2 sysRecv 0 5 ++ serve 2 sysRecv 0 3 ++ [go 0]

def waiterAt (s : State E) (i : Fin maxProcesses) : Option Pid :=
  match s.sched.processes i with
  | .occupied Q => Q.waitWaiter
  | _ => none

def blockedAt (s : State E) (p : Pid) : Bool :=
  match s.sched.occupiedMut p with
  | some P => P.state = .blocked
  | none => false

theorem remembered_of_keeps_twoReceivers :
    ∃ s, Reach next (fun t a ↦ t.NoWrap a ∧ t.Keeps a) (init soloEndpoint) s ∧
      s.blockedAt twin = true ∧ s.Remembered := by
  refine exists_of_run (twoReceivers ++ sendToChild.take 4) (by decide +kernel) fun s hreach
    (hblocked : s.blockedAt twin = true) ↦ ?_
  exact ⟨hblocked, remembered_of_keeps soloEndpoint s hreach⟩

/-- A blocked sender whose message was taken is only carried by the core that took it. A receiver
is lost if another one takes its message and registers before it is woken. After a wrapped counter
a process is registered twice. -/
theorem waiter_lost :
    (∃ s, Reach next (fun t a ↦ t.NoWrap a ∧ t.Keeps a) (init soloEndpoint) s ∧
      s.blockedAt (Pid.new 0 1) = true ∧ s.entered (Pid.new 0 1) = 0 ∧
      ¬ s.Receives (Pid.new 0 1) ∧ ∀ i, s.waiterAt i ≠ some (Pid.new 0 1)) ∧
    (∃ s, Reach next State.NoWrap (init soloEndpoint) s ∧
      s.blockedAt twin = true ∧ s.entered twin + s.carried twin = 0 ∧
      ∀ i, s.waiterAt i ≠ some twin) ∧
    (∃ s, Reach next (fun _ _ ↦ True) (init soloEndpoint) s ∧
      s.blockedAt twin = true ∧ s.entered twin = 1 ∧ s.waiterAt 2 = some twin) := by
  refine ⟨?_, ?_, ?_⟩
  · exact exists_of_run (bootSolo ++ spawnOn 0 1 ++ grantTo twin 2 ++ startOn 0 twin ++ sendToChild ++
      serve 0 sysRecv 0 3) (by decide +kernel) fun _ _ hsender ↦ hsender
  · exact exists_of_run (twoReceivers ++ stealAndWait) (by decide +kernel)
      fun _ _ hreceiver ↦ hreceiver
  · exact exists_of_runWrapped 1 leaveTraces (spawnAndStart 1 twin ++ advance 2 3 ++ spawnOn 2 2 ++
      serve 2 sysWait (Pid.new 2 1).raw 3) (by decide +kernel)
      fun _ htwice ↦ htwice

end State

end Tarnos.Kernel
