import Tarnos.Kernel.Course

namespace Tarnos.Kernel

open Abi Arch Kcore Tarnos.Task Function

variable {E : Type}

namespace State

def decides [DecidableEq E] (s : State E) (c : CoreId) : List E :=
  match (s.cores c).errands with
  | .wakeOrphanedReceivers dying :: _ => orphanedEndpoints s.sched dying
  | _ => []

inductive Gives (s : State E) (c : CoreId) (e : E) : EndpointWaiter → Prop
  | task {message : Message} {waker : ℕ} {rest : List (Errand E)}
      (herr : (s.cores c).errands = .pollSend e message waker :: rest) : Gives s c e (.task waker)
  | call {message : Message} {pid : Pid} {f : TrapFrame} (herr : (s.cores c).errands = [])
      (hmain : (s.cores c).main = .trySend e message pid f) : Gives s c e (.process pid)

inductive Brings [DecidableEq E] (s : State E) (c : CoreId) : Errand E → Prop
  | keeping {x : Errand E} (h : x.housekeeping = true) : Brings s c x
  | offers {e : E} {message : Message} {waker : ℕ} {rest : List (Errand E)}
      (herr : (s.cores c).errands = .runReadyTasks :: rest) : Brings s c (.pollSend e message waker)
  | asks {e : E} {waker : ℕ} : Brings s c (.pollRecv e waker)
  | receiver {e : E} {pid : Pid} {w : EndpointWaiter} (hgives : s.Gives c e w)
      (hslot : (s.endpoints e).receiver? = some (.process pid)) : Brings s c (.wakeReceiver e pid)
  | sender {pid : Pid} {id : ℕ} : Brings s c (.wakeSender pid id)
  | hands {e : E} {pid : Pid} {parcel : Parcel} {rest : List (Errand E)}
      (herr : (s.cores c).errands = .wakeReceiver e pid :: rest) : Brings s c (.handOver pid parcel)
  | closes {e : E} {pid : Pid} {rest : List (Errand E)}
      (herr : (s.cores c).errands = .takeWaitingReceiver e :: rest)
      (hslot : s.endpoints e = .receiverWaiting (.process pid)) : Brings s c (.peerClosed pid)
  | scans {q : Pid} {status : ExitStatus} (hends : s.terminates c = some (q, status)) :
      Brings s c (.wakeOrphanedReceivers (dyingCaps (s.sched.finalize q status).2))
  | takes {e : E} (h : e ∈ s.decides c) : Brings s c (.takeWaitingReceiver e)

section Steps

variable {s s' : State E} {c : CoreId} {y : Errand E} {e : E} {rest : List (Errand E)}

theorem Submits.gives {message : Message} {w : EndpointWaiter} {o : Onward E}
    (h : s.Submits c e message w o) : s.Gives c e w := by
  cases h with
  | task herr => exact .task herr
  | call herr hmain => exact .call herr hmain

variable [DecidableEq E]

theorem Brings.of_receiver {w r : EndpointWaiter} (hgives : s.Gives c e w)
    (hslot : s.endpoints e = .receiverWaiting r) (hy : y ∈ receiverErrands e r) : s.Brings c y := by
  cases r with
  | process pid =>
    rw [List.mem_singleton.mp hy]
    exact .receiver hgives (by rw [hslot]; rfl)
  | _ => cases hy

theorem Brings.of_sender {sender : EndpointWaiter} {id : ℕ} (hy : y ∈ (senderErrands sender id)) :
    s.Brings c y := by
  cases sender with
  | process pid =>
    rw [List.mem_singleton.mp hy]
    exact .sender
  | _ => cases hy

theorem Turn.errand_kept (hturn : s.Turn c s') (hy : y ∈ (s.cores c).errands) :
    y ∈ (s'.cores c).errands ∨ ∃ rest, (s.cores c).errands = y :: rest := by
  have hhead : ∀ more {x rest m} {b : State E}, (s.cores c).errands = x :: rest →
      s' = b.goto c m (more ++ rest) →
      y ∈ (s'.cores c).errands ∨ ∃ rest, (s.cores c).errands = y :: rest := by
    intro more x rest m b herr hs'
    rw [herr] at hy
    rcases List.mem_cons.mp hy with rfl | hold
    · exact .inr ⟨rest, herr⟩
    · refine .inl ?_
      rw [hs', goto_errands]
      exact List.mem_append_right more hold
  cases hturn with
  | tasks herr | orphans herr => exact hhead _ herr rfl
  | pollSend herr hs =>
    unfold State.pollSend at hs
    split at hs <;> (cases hs; exact hhead _ herr rfl)
  | pollRecv herr hs =>
    unfold State.pollRecv at hs
    split at hs <;> first | (cases hs; exact hhead _ herr rfl) | cases hs
  | wakeReceiver herr hs =>
    unfold State.wakeReceiver at hs
    split at hs <;> first | (cases hs; exact hhead _ herr rfl) | cases hs
  | takeWaitingReceiver herr hs =>
    unfold State.takeWaitingReceiver at hs
    split at hs <;> (cases hs; exact hhead _ herr rfl)
  | wake herr | dropBox herr | clearStackBusy herr =>
    exact hhead [] herr rfl
  | stay herr | bootDone herr | bootAllocate herr | bootSpawn herr | trap herr | leave herr
  | ignoreIpi herr | record herr | trySend herr | sendReturn herr | tryRecv herr | recvReturn herr
  | allocate herr | load herr | release herr | spawn herr | spawnFail herr | grant herr | start herr
  | collect herr | request herr | withdraw herr | kill herr | mark herr | exit herr | dispatch herr
  | abandon herr | resumeTick herr | rest herr =>
    rw [herr] at hy
    cases hy

theorem Trade.brings (h : s.Trade c s') (hy : y ∈ (s'.cores c).errands) :
    y ∈ (s.cores c).errands ∨ s.Brings c y := by
  cases h <;> rw [goto_errands] at hy
  case delivered hsubmits _ hslot _ _ _ =>
    rcases List.mem_append.mp hy with hnew | hold
    · exact .inr (.of_receiver hsubmits.gives hslot hnew)
    · exact .inl (hsubmits.mem_errands hold)
  case displaced => cases hy
  case enqueued hsubmits _ _ _ _ | refused hsubmits _ => exact .inl (hsubmits.mem_errands hy)
  case taken hasks _ _ _ _ =>
    rcases List.mem_append.mp hy with hnew | hold
    · rcases List.mem_append.mp hnew with hsender | hhand
      · exact .inr (.of_sender hsender)
      · cases hasks with
        | displaced herr =>
          rw [List.mem_singleton.mp hhand]
          exact .inr (.hands herr)
        | _ => cases hhand
    · exact .inl (hasks.mem_errands hold)
  case registered hasks _ _ | unregistered hasks _ _ => exact .inl (hasks.mem_errands hy)
  case closed herr hslot =>
    rcases List.mem_cons.mp hy with rfl | hold
    · exact .inr (.closes herr hslot)
    · exact .inl (herr ▸ List.mem_cons_of_mem _ hold)
  case nobody herr => exact .inl (herr ▸ List.mem_cons_of_mem _ hy)

theorem Turn.brings (hturn : s.Turn c s') (hy : y ∈ (s'.cores c).errands) :
    y ∈ (s.cores c).errands ∨ s.Brings c y := by
  have hkeep : ∀ {x rest more}, (s.cores c).errands = x :: rest → y ∈ more ++ rest →
      (y ∈ more → s.Brings c y) → y ∈ (s.cores c).errands ∨ s.Brings c y := by
    intro x rest more herr hmem hmore
    rcases List.mem_append.mp hmem with hnew | hold
    · exact .inr (hmore hnew)
    · exact .inl (herr ▸ List.mem_cons_of_mem x hold)
  cases hturn with
  | tasks herr hmore =>
    rw [goto_errands] at hy
    refine hkeep herr hy fun hnew ↦ ?_
    rcases hmore with rfl | ⟨e, message, waker, rfl⟩ | ⟨e, waker, rfl⟩
    · cases hnew
    · rcases List.mem_pair.mp hnew with rfl | rfl
      · exact .offers herr
      · exact .keeping rfl
    · rcases List.mem_pair.mp hnew with rfl | rfl
      · exact .asks
      · exact .keeping rfl
  | pollSend _ _ htrade | pollRecv _ _ htrade | wakeReceiver _ _ htrade
  | takeWaitingReceiver _ _ htrade | trySend _ _ _ htrade | tryRecv _ _ _ htrade =>
    exact htrade.brings hy
  | wake herr | dropBox herr | clearStackBusy herr =>
    rw [goto_errands] at hy
    exact .inl (herr ▸ List.mem_cons_of_mem _ hy)
  | orphans herr =>
    rw [goto_errands] at hy
    refine hkeep herr hy fun hnew ↦ ?_
    obtain ⟨e, he, rfl⟩ := List.mem_map.mp hnew
    refine .takes ?_
    simpa only [decides, herr] using he
  | bootDone =>
    rw [setCore_self] at hy
    rw [List.mem_singleton.mp hy]
    exact .inr (.keeping rfl)
  | spawnFail | resumeTick =>
    rw [goto_errands] at hy
    rw [List.mem_singleton.mp hy]
    exact .inr (.keeping rfl)
  | exit herr hmain =>
    rw [goto_errands] at hy
    rw [List.mem_singleton.mp hy]
    exact .inr (.scans (terminates_exit herr hmain))
  | kill herr hmain howner =>
    rw [goto_errands] at hy
    rcases List.mem_cons.mp hy with rfl | hdrop
    · exact .inr (.scans (terminates_kill herr hmain howner))
    · exact .inr (.keeping (housekeeping_drops _ y hdrop))
  | dispatch _ _ _ _ _ hkeeping | abandon _ _ _ _ hkeeping =>
    simp only [State.dispatch, State.abandon, setCore_self] at hy
    exact .inr (.keeping (hkeeping y hy))
  | rest _ _ _ _ hkeeping =>
    rw [goto_errands] at hy
    exact .inr (.keeping (hkeeping y hy))
  | trap | leave =>
    rw [setCore_self] at hy
    cases hy
  | _ =>
    rw [goto_errands] at hy
    cases hy

end Steps

end State

end Tarnos.Kernel
