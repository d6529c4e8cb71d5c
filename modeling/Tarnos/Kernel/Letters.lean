import Mathlib.Tactic.FinCases
import Tarnos.Kernel.Delivery
import Tarnos.Rt.Syscall

namespace Tarnos.Kernel

open Abi Arch Kcore Tarnos.Task Foundation.Transition Function Inner

variable {E : Type}

/-- The registers of the `SYS_SEND` behind each message number; kernel tasks leave none. -/
abbrev Letters := ℕ → Option TrapFrame

/-- A point of the kernel that carries no message of another, and its caller's one as the caller
wrote it. -/
structure Main.Sealed (m : Main E) : Prop where
  carries : m.carries = none
  sending : ∀ e message pid f, m = .trySend e message pid f → message = sendMessage f

namespace State

inductive Holds (s : State E) (parcel : Parcel) : Prop
  | slot (e : E) (sender : EndpointWaiter) (h : (parcel, sender) ∈ (s.endpoints e).entries)
  | errand (c : CoreId) (pid : Pid) (h : .handOver pid parcel ∈ (s.cores c).errands)
  | main (c : CoreId) (pid : Pid) (f : TrapFrame) (h : (s.cores c).main = .recvReturn parcel pid f)

def letter (s : State E) (a : Action E) (s' : State E) (sent : Letters) : Letters :=
  match (s.cores a.core).errands, (s.cores a.core).main with
  | [], .trySend _ _ _ f => if s'.nextId = s.nextId then sent else update sent s.nextId (some f)
  | _, _ => sent

structure Genuine (s : State E) (sent : Letters) : Prop where
  sending : ∀ c e message pid f, (s.cores c).main = .trySend e message pid f →
    message = sendMessage f
  number : ∀ parcel, s.Holds parcel → parcel.id < s.nextId
  message : ∀ parcel f, s.Holds parcel → sent parcel.id = some f → parcel.message = sendMessage f
  fresh : ∀ id, s.nextId ≤ id → sent id = none

/-- A step of core `c` makes no parcel but the one of the message it accepts, if any. -/
structure Mails (s : State E) (c : CoreId) (s' : State E) (new : Option Message) : Prop where
  number : s'.nextId = s.nextId + new.elim 0 fun _ ↦ 1
  holds : ∀ parcel, s'.Holds parcel → s.Holds parcel ∨ parcel.id = s.nextId ∧ new = some parcel.message
  sending : ∀ d e message pid f, (s'.cores d).main = .trySend e message pid f →
    (s.cores d).main = .trySend e message pid f ∨ message = sendMessage f

def Offers (s : State E) (c : CoreId) (message : Message) : Prop :=
  ((s.cores c).errands = [] ∧ ∃ e pid f, (s.cores c).main = .trySend e message pid f) ∨
    ∃ e waker rest, (s.cores c).errands = .pollSend e message waker :: rest

variable {s b s' : State E} {c : CoreId} {parcel : Parcel} {core : Core E} {m : Main E}
  {errands : List (Errand E)}

theorem Mails.of_core {new : Option Message} (hcores : b.cores = s.cores)
    (hnumber : b.nextId = s.nextId + new.elim 0 fun _ ↦ 1)
    (hslots : ∀ e parcel sender, (parcel, sender) ∈ (b.endpoints e).entries →
      s.Holds parcel ∨ parcel.id = s.nextId ∧ new = some parcel.message)
    (herrands : ∀ pid parcel, .handOver pid parcel ∈ core.errands → s.Holds parcel)
    (hmain : core.main = (s.cores c).main ∨ core.main.Sealed ∨
      ∃ parcel pid f, core.main = .recvReturn parcel pid f ∧ s.Holds parcel) :
    s.Mails c (b.setCore c core) new := by
  have hself : (b.setCore c core).cores c = core := update_self ..
  have hother : ∀ d, d ≠ c → (b.setCore c core).cores d = s.cores d := by
    intro d hd
    rw [← hcores]
    exact update_of_ne hd _ _
  refine ⟨hnumber, fun parcel hholds ↦ ?_, fun d e message pid f hd ↦ ?_⟩
  · cases hholds with
    | slot e sender h => exact hslots e parcel sender h
    | errand d pid h =>
      by_cases hd : d = c
      · rw [hd, hself] at h
        exact .inl (herrands pid parcel h)
      · rw [hother d hd] at h
        exact .inl (.errand d pid h)
    | main d pid f h =>
      by_cases hd : d = c
      · rw [hd, hself] at h
        rcases hmain with hold | hsealed | ⟨parcel', pid', f', hnew, hheld⟩
        · rw [hold] at h
          exact .inl (.main c pid f h)
        · have hcarries := hsealed.carries
          rw [h] at hcarries
          cases hcarries
        · rw [hnew] at h
          cases h
          exact .inl hheld
      · rw [hother d hd] at h
        exact .inl (.main d pid f h)
  · by_cases hdc : d = c
    · rw [hdc, hself] at hd
      rcases hmain with hold | hsealed | ⟨parcel, pid', f', hnew, -⟩
      · rw [hold] at hd
        exact .inl (hdc ▸ hd)
      · exact .inr (hsealed.sending e message pid f hd)
      · rw [hnew] at hd
        cases hd
    · rw [hother d hdc] at hd
      exact .inl hd

theorem Mails.quiet (hcores : b.cores = s.cores) (hnumber : b.nextId = s.nextId)
    (hslots : b.endpoints = s.endpoints)
    (herrands : ∀ x ∈ core.errands, x ∈ (s.cores c).errands ∨ x.carries = none)
    (hmain : core.main = (s.cores c).main ∨ core.main.Sealed) :
    s.Mails c (b.setCore c core) none := by
  refine .of_core hcores hnumber (fun e parcel sender h ↦ .inl (.slot e sender (hslots ▸ h)))
    (fun pid parcel h ↦ ?_) (hmain.imp_right .inl)
  rcases herrands _ h with hold | hnone
  · exact .errand c pid hold
  · cases hnone

section Exchanges

variable {e : E} {slot : EndpointSlot} {rest : List (Errand E)}

theorem not_handOver_receiverErrands {receiver : EndpointWaiter} {pid : Pid} :
    .handOver pid parcel ∉ (receiverErrands e receiver : List (Errand E)) := by
  cases receiver <;> simp [receiverErrands]

theorem not_handOver_senderErrands {sender : EndpointWaiter} {pid : Pid} {id : ℕ} :
    .handOver pid parcel ∉ (senderErrands sender id : List (Errand E)) := by
  cases sender <;> simp [senderErrands]

theorem mem_tail {errand : Errand E} (herr : (s.cores c).errands = errand :: rest) {x : Errand E}
    (hx : x ∈ rest) : x ∈ (s.cores c).errands := by
  rw [herr]
  exact List.mem_cons_of_mem _ hx

theorem Submits.offers {message : Message} {w : EndpointWaiter} {o : Onward E}
    (h : s.Submits c e message w o) : s.Offers c message := by
  cases h with
  | task herr => exact .inr ⟨_, _, _, herr⟩
  | call herr hmain => exact .inl ⟨herr, _, _, _, hmain⟩

variable [DecidableEq E]

theorem Mails.exchange {new : Option Message} (hcores : b.cores = s.cores)
    (hnumber : b.nextId = s.nextId + new.elim 0 fun _ ↦ 1)
    (hslots : b.endpoints = update s.endpoints e slot)
    (hentries : ∀ entry ∈ slot.entries, entry ∈ (s.endpoints e).entries ∨
      entry.1.id = s.nextId ∧ new = some entry.1.message)
    (herrands : ∀ pid parcel, .handOver pid parcel ∈ errands → s.Holds parcel)
    (hmain : m = (s.cores c).main ∨ m.Sealed ∨
      ∃ parcel pid f, m = .recvReturn parcel pid f ∧ s.Holds parcel) :
    s.Mails c (b.goto c m errands) new := by
  refine .of_core hcores hnumber (fun e' parcel sender h ↦ ?_) herrands hmain
  rw [hslots] at h
  by_cases he : e' = e
  · subst he
    rw [update_self] at h
    rcases hentries _ h with hold | hnew
    · exact .inl (.slot e' sender hold)
    · exact .inr hnew
  · rw [update_of_ne he] at h
    exact .inl (.slot e' sender h)

theorem Mails.trade (h : s.Trade c s') :
    ∃ new, s.Mails c s' new ∧ ∀ message, new = some message → s.Offers c message := by
  have hmain : (s'.cores c).main = (s.cores c).main ∨ (s'.cores c).main.Sealed ∨
      ∃ parcel pid f, (s'.cores c).main = .recvReturn parcel pid f ∧ s.Holds parcel :=
    h.main (motive := fun m ↦ m = (s.cores c).main ∨ m.Sealed ∨
      ∃ parcel pid f, m = .recvReturn parcel pid f ∧ s.Holds parcel) (.inl rfl)
      (fun _ ↦ .inr (.inl ⟨rfl, by simp⟩))
      (fun e parcel sender pid f hmem ↦ .inr (.inr ⟨parcel, pid, f, rfl, .slot e sender hmem⟩))
      (fun _ ↦ .inr (.inl ⟨rfl, by simp⟩)) fun _ ↦ .inr (.inl ⟨rfl, by simp⟩)
  have hbehind : ∀ {l : List (Errand E)}, (∀ x ∈ l, x ∈ (s.cores c).errands) →
      ∀ pid parcel, .handOver pid parcel ∈ l → s.Holds parcel := fun hl pid _ hmem ↦
    .errand c pid (hl _ hmem)
  have hnone : ∀ message, (none : Option Message) = some message → s.Offers c message :=
    fun _ h ↦ by cases h
  cases h <;> rw [goto_main] at hmain
  case delivered e message w r slot o hsubmits _ _ hentries _ _ =>
    refine ⟨some message, .exchange rfl rfl rfl (fun entry hentry ↦ .inr ?_) (fun pid parcel hmem ↦ ?_)
      hmain, fun _ h ↦ by cases h; exact hsubmits.offers⟩
    · rw [hentries] at hentry
      rw [List.mem_singleton.mp hentry]
      exact ⟨rfl, rfl⟩
    · rcases List.mem_append.mp hmem with hmem | hmem
      · exact absurd hmem not_handOver_receiverErrands
      · exact hbehind (fun _ hx ↦ hsubmits.mem_errands hx) pid parcel hmem
  case displaced e message pid f waker slot herr hold _ _ hentries _ =>
    refine ⟨some message, .exchange rfl rfl rfl (fun entry hentry ↦ .inr ?_) (by simp) hmain,
      fun _ h ↦ by cases h; exact .inl ⟨herr, e, pid, f, hold⟩⟩
    rw [hentries] at hentry
    rw [List.mem_singleton.mp hentry]
    exact ⟨rfl, rfl⟩
  case enqueued e message w slot o hsubmits _ hentries _ _ =>
    refine ⟨some message, .exchange rfl rfl rfl (fun entry hentry ↦ ?_)
      (hbehind fun _ hx ↦ hsubmits.mem_errands hx) hmain, fun _ h ↦ by cases h; exact hsubmits.offers⟩
    rw [hentries] at hentry
    refine (List.mem_append.mp hentry).imp_right fun hnew ↦ ?_
    rw [List.mem_singleton.mp hnew]
    exact ⟨rfl, rfl⟩
  case taken e w sender parcel slot o hasks _ hentries _ _ =>
    refine ⟨none, .exchange rfl rfl rfl (fun entry hentry ↦ .inl ?_) (fun pid parcel hmem ↦ ?_) hmain,
      hnone⟩
    · rw [hentries]
      exact List.mem_cons_of_mem _ hentry
    · rcases List.mem_append.mp hmem with hmem | hmem
      · rcases List.mem_append.mp hmem with hmem | hmem
        · exact absurd hmem not_handOver_senderErrands
        · cases hasks with
          | displaced =>
            cases List.mem_singleton.mp hmem
            exact .slot e sender (by rw [hentries]; exact List.mem_cons_self)
          | _ => cases hmem
      · exact hbehind (fun _ hx ↦ hasks.mem_errands hx) pid parcel hmem
  case registered hasks _ _ =>
    exact ⟨none, .exchange rfl rfl rfl (fun entry hentry ↦ by cases hentry)
      (hbehind fun _ hx ↦ hasks.mem_errands hx) hmain, hnone⟩
  case closed herr _ =>
    refine ⟨none, .exchange rfl rfl rfl (fun entry hentry ↦ by cases hentry) (fun pid parcel hmem ↦ ?_)
      hmain, hnone⟩
    exact hbehind (fun _ hx ↦ mem_tail herr hx) pid parcel (List.mem_of_ne_of_mem (by simp) hmem)
  case refused hsubmits _ =>
    exact ⟨none, .of_core rfl rfl (fun e _ sender h ↦ .inl (.slot e sender h))
      (hbehind fun _ hx ↦ hsubmits.mem_errands hx) hmain, hnone⟩
  case unregistered hasks _ _ =>
    exact ⟨none, .of_core rfl rfl (fun e _ sender h ↦ .inl (.slot e sender h))
      (hbehind fun _ hx ↦ hasks.mem_errands hx) hmain, hnone⟩
  case nobody herr =>
    exact ⟨none, .of_core rfl rfl (fun e _ sender h ↦ .inl (.slot e sender h))
      (hbehind fun _ hx ↦ mem_tail herr hx) hmain, hnone⟩

end Exchanges

section Turns

theorem Stay.sealed {m m' : Main E} (h : s.Stay c m m') : m'.Sealed := by
  cases h <;> exact ⟨rfl, fun _ _ _ _ h ↦ by cases h⟩

theorem Yields.unchanged {b : State E} (h : s.Yields c m b) :
    b.cores = s.cores ∧ b.nextId = s.nextId ∧ b.endpoints = s.endpoints := by
  cases h <;> exact ⟨rfl, rfl, rfl⟩

theorem housekeeping_carries {x : Errand E} (h : x.housekeeping = true) : x.carries = none := by
  cases x <;> first | rfl | cases h

theorem letter_same {a : Action E} (sent : Letters) (h : s'.nextId = s.nextId) :
    s.letter a s' sent = sent := by
  unfold letter
  split
  · exact if_pos h
  · rfl

theorem letter_of_errand {a : Action E} {errand : Errand E} {rest : List (Errand E)} (sent : Letters)
    (herr : (s.cores a.core).errands = errand :: rest) : s.letter a s' sent = sent := by
  unfold letter
  rw [herr]

theorem letter_trySend {a : Action E} {e : E} {message : Message} {pid : Pid} {f : TrapFrame}
    (sent : Letters) (herr : (s.cores a.core).errands = [])
    (hmain : (s.cores a.core).main = .trySend e message pid f) (h : s'.nextId ≠ s.nextId) :
    s.letter a s' sent = update sent s.nextId (some f) := by
  unfold letter
  rw [herr, hmain]
  exact if_neg h

theorem genuine_init (config : BootConfig E) : (init config).Genuine fun _ ↦ none := by
  refine ⟨fun c e message pid f hmain ↦ ?_, fun parcel hp ↦ ?_, fun parcel f _ hsent ↦ ?_,
    fun _ _ ↦ rfl⟩
  · simp only [init] at hmain
    split_ifs at hmain
  · cases hp with
    | slot e sender h => cases h
    | errand c pid h =>
      simp only [init] at h
      split_ifs at h <;> simp at h
    | main c pid f h =>
      simp only [init] at h
      split_ifs at h
  · cases hsent

/-- The step of core `c` ends the `SYS_RECV` of a process with a message: at once, by waking the
blocked process, or, if it has not blocked yet, by leaving the result for it. The last argument
are the registers with which the call returns. -/
inductive Receipt (s : State E) (c : CoreId) (s' : State E) : ℕ → TrapFrame → Prop
  | atOnce {parcel : Parcel} {pid : Pid} {f g : TrapFrame} (herr : (s.cores c).errands = [])
      (hmain : (s.cores c).main = .recvReturn parcel pid f) (hleave : (s'.cores c).main = .leave g) :
      Receipt s c s' parcel.id g
  | woken {parcel : Parcel} {pid : Pid} {rest : List (Errand E)} {P P' : Process E}
      (herr : (s.cores c).errands = .handOver pid parcel :: rest)
      (hP : s.sched.occupiedMut pid = some P) (hblocked : P.state = .blocked)
      (hP' : s'.sched.occupiedMut pid = some P') : Receipt s c s' parcel.id P'.trapFrame
  | early {parcel : Parcel} {pid : Pid} {rest : List (Errand E)} {P P' : Process E}
      {result : WakeResult} {f : TrapFrame}
      (herr : (s.cores c).errands = .handOver pid parcel :: rest)
      (hP : s.sched.occupiedMut pid = some P) (hrunning : P.state ≠ .blocked)
      (hP' : s'.sched.occupiedMut pid = some P') (hpending : P'.pendingWake = some result) :
      Receipt s c s' parcel.id (result.applyTo f)

/-- The receipt of a step that hands over at once or wakes a blocked receiver, as a test. -/
def receipt (s : State E) (c : CoreId) (s' : State E) : Option (ℕ × TrapFrame) :=
  match (s.cores c).errands, (s.cores c).main, (s'.cores c).main with
  | [], .recvReturn parcel _ _, .leave g => some (parcel.id, g)
  | .handOver pid parcel :: _, _, _ =>
    match s.sched.occupiedMut pid, s'.sched.occupiedMut pid with
    | some P, some P' => if P.state = .blocked then some (parcel.id, P'.trapFrame) else none
    | _, _ => none
  | _, _, _ => none

theorem Receipt.of_receipt {id : ℕ} {g : TrapFrame} (h : s.receipt c s' = some (id, g)) :
    s.Receipt c s' id g := by
  unfold receipt at h
  split at h
  · rename_i parcel pid f g' herr hmain hleave
    cases h
    exact .atOnce herr hmain hleave
  · rename_i pid parcel rest _ _ herr
    split at h
    · rename_i P P' hP hP'
      split at h
      · rename_i hblocked
        cases h
        exact .woken herr hP hblocked hP'
      · cases h
    · cases h
  · cases h

theorem trapMain_sealed (kind : Trap) (f : TrapFrame) : (trapMain kind f : Main E).Sealed := by
  refine ⟨(trapMain_free kind).1, ?_⟩
  cases kind with
  | syscall =>
    exact syscallDispatch_induction (motive := fun m ↦ ∀ e message pid g,
      m = .trySend e message pid g → message = sendMessage g) f (by simp) (by simp) (by simp) (by simp)
  | _ => simp [trapMain]

variable [DecidableEq E]

theorem callOn_sealed (P : Process E) (f : TrapFrame) (call : Call) : (callOn P f call).Sealed := by
  refine ⟨(callOn_free P call).1, fun e message pid g h ↦ ?_⟩
  cases call with
  | send =>
    simp only [callOn, orLeave] at h
    split at h <;> cases h
    rfl
  | recv | grant | sbrk | blockRead | fileRead =>
    simp only [callOn, orLeave] at h
    split at h <;> cases h
  | _ => cases h

theorem Turn.conveys (h : s.Turn c s') :
    ∃ new, s.Mails c s' new ∧ ∀ message, new = some message → s.Offers c message := by
  have hquiet : ∀ {t : State E}, s.Mails c t none →
      ∃ new, s.Mails c t new ∧ ∀ message, new = some message → s.Offers c message :=
    fun h ↦ ⟨none, h, fun _ h ↦ by cases h⟩
  have hleave : ∀ f : TrapFrame, (Main.leave f : Main E).Sealed := fun f ↦
    ⟨rfl, fun _ _ _ _ h ↦ by cases h⟩
  -- what is left of the errands was there before
  have htail : ∀ {errand : Errand E} {rest : List (Errand E)}, (s.cores c).errands = errand :: rest →
      ∀ x ∈ rest, x ∈ (s.cores c).errands ∨ x.carries = none := fun herr x hx ↦
    .inl (mem_tail herr hx)
  cases h with
  | tasks herr hmore =>
    refine hquiet (.quiet rfl rfl rfl (fun x hx ↦ ?_) (.inl rfl))
    rcases List.mem_append.mp hx with hx | hx
    · refine .inr ?_
      rcases hmore with rfl | ⟨e, message, waker, rfl⟩ | ⟨e, waker, rfl⟩
      · cases hx
      · simp only [List.mem_cons, List.not_mem_nil, or_false] at hx
        rcases hx with rfl | rfl <;> rfl
      · simp only [List.mem_cons, List.not_mem_nil, or_false] at hx
        rcases hx with rfl | rfl <;> rfl
    · exact htail herr x hx
  | pollSend _ _ htrade | pollRecv _ _ htrade | wakeReceiver _ _ htrade
  | takeWaitingReceiver _ _ htrade | trySend _ _ _ htrade | tryRecv _ _ _ htrade =>
    exact Mails.trade htrade
  | wake herr | dropBox herr | clearStackBusy herr =>
    exact hquiet (.quiet rfl rfl rfl (htail herr) (.inl rfl))
  | orphans herr =>
    refine hquiet (.quiet rfl rfl rfl (fun x hx ↦ ?_) (.inl rfl))
    rcases List.mem_append.mp hx with hx | hx
    · obtain ⟨e, -, rfl⟩ := List.mem_map.mp hx
      exact .inr rfl
    · exact htail herr x hx
  | stay _ _ hstay => exact hquiet (.quiet rfl rfl rfl (by simp) (.inr hstay.sealed))
  | bootDone | exit =>
    exact hquiet (.quiet rfl rfl rfl (by simp [Errand.carries])
      (.inr ⟨rfl, fun _ _ _ _ h ↦ by cases h⟩))
  | bootAllocate | bootSpawn | allocate | load | request | withdraw | mark | leave =>
    exact hquiet (.quiet rfl rfl rfl (by simp) (.inr ⟨rfl, fun _ _ _ _ h ↦ by cases h⟩))
  | trap => exact hquiet (.quiet rfl rfl rfl (by simp) (.inr (trapMain_sealed _ _)))
  | record =>
    refine hquiet (.quiet ?_ ?_ ?_ (by simp) (.inr (callOn_sealed _ _ _))) <;>
      (unfold recordResolve; split <;> rfl)
  | ignoreIpi | sendReturn | recvReturn | release | spawn | grant | start | collect =>
    exact hquiet (.quiet rfl rfl rfl (by simp) (.inr (hleave _)))
  | spawnFail | resumeTick =>
    exact hquiet (.quiet rfl rfl rfl (by simp [Errand.carries]) (.inr (hleave _)))
  | kill =>
    refine hquiet (.quiet rfl rfl rfl (fun x hx ↦ .inr ?_) (.inr (hleave _)))
    rcases List.mem_cons.mp hx with rfl | hx
    · rfl
    · exact housekeeping_carries (housekeeping_drops _ x hx)
  | dispatch _ _ hyields _ _ hkeeping =>
    obtain ⟨hcores, hnumber, hslots⟩ := hyields.unchanged
    exact hquiet (.quiet hcores hnumber hslots
      (fun x hx ↦ .inr (housekeeping_carries (hkeeping x hx))) (.inr (hleave _)))
  | abandon _ _ hyields _ hkeeping =>
    obtain ⟨hcores, hnumber, hslots⟩ := hyields.unchanged
    exact hquiet (.quiet hcores hnumber hslots
      (fun x hx ↦ .inr (housekeeping_carries (hkeeping x hx)))
      (.inr ⟨rfl, fun _ _ _ _ h ↦ by cases h⟩))
  | rest _ _ _ hnew hkeeping =>
    refine hquiet (.quiet rfl rfl rfl (fun x hx ↦ .inr (housekeeping_carries (hkeeping x hx))) ?_)
    rcases hnew with rfl | rfl <;> exact .inr ⟨rfl, fun _ _ _ _ h ↦ by cases h⟩

theorem Genuine.step {a : Action E} {sent : Letters} (h : s.Genuine sent)
    (hs : s.next a = some s') : s'.Genuine (s.letter a s' sent) := by
  obtain ⟨new, hmails, hoffers⟩ := (next_turn hs).conveys
  have hsending : ∀ c e message pid f, (s'.cores c).main = .trySend e message pid f →
      message = sendMessage f := by
    intro c e message pid f hmain
    rcases hmails.sending c e message pid f hmain with hold | hnew
    · exact h.sending c e message pid f hold
    · exact hnew
  cases new with
  | none =>
    have hnumber : s'.nextId = s.nextId := hmails.number
    have hholds : ∀ parcel, s'.Holds parcel → s.Holds parcel := fun parcel hp ↦
      (hmails.holds parcel hp).resolve_right fun hnew ↦ by cases hnew.2
    rw [letter_same sent hnumber]
    refine ⟨hsending, fun parcel hp ↦ ?_, fun parcel f hp ↦ h.message parcel f (hholds parcel hp), ?_⟩
    · rw [hnumber]
      exact h.number parcel (hholds parcel hp)
    · rw [hnumber]
      exact h.fresh
  | some message =>
    have hnumber : s'.nextId = s.nextId + 1 := hmails.number
    have hbelow : ∀ parcel, s'.Holds parcel → parcel.id < s'.nextId := by
      intro parcel hp
      rcases hmails.holds parcel hp with hold | ⟨hid, -⟩
      · have hlt := h.number parcel hold
        omega
      · omega
    rcases hoffers message rfl with ⟨herr, e, pid, f, hmain⟩ | ⟨e, waker, rest, herr⟩
    · rw [letter_trySend sent herr hmain (by omega)]
      refine ⟨hsending, hbelow, fun parcel g hp hsent ↦ ?_, fun id hid ↦ ?_⟩
      · rcases hmails.holds parcel hp with hold | ⟨hid, hmessage⟩
        · have hne : parcel.id ≠ s.nextId := (h.number parcel hold).ne
          rw [update_of_ne hne] at hsent
          exact h.message parcel g hold hsent
        · rw [hid, update_self] at hsent
          cases hsent
          cases hmessage
          exact h.sending a.core e _ pid f hmain
      · rw [update_of_ne (by omega)]
        exact h.fresh id (by omega)
    · rw [letter_of_errand sent herr]
      refine ⟨hsending, hbelow, fun parcel g hp hsent ↦ ?_, fun id hid ↦ h.fresh id (by omega)⟩
      rcases hmails.holds parcel hp with hold | ⟨hid, -⟩
      · exact h.message parcel g hold hsent
      · rw [hid, h.fresh s.nextId le_rfl] at hsent
        cases hsent

theorem genuine_of_reach {config : BootConfig E} {sent : Letters}
    (h : Reach (noted next letter) (fun _ _ ↦ True) (init config, fun _ ↦ none)
      (s, sent)) : s.Genuine sent :=
  Reach.noted_invariant (J := fun _ ↦ True)
    (fun (t : State E) (_ : Reach next (fun _ _ ↦ True) (init config) t) ↦ trivial)
    (genuine_init config) (fun _ _ _ _ _ hgen _ hnext ↦ hgen.step hnext) h

theorem recvRegisters_eq (f : TrapFrame) (message : Message) :
    recvRegisters f message = (recvCompleted message).applyTo f := rfl

theorem Receipt.registers {a : Action E} {id : ℕ} {g : TrapFrame} (h : s.Receipt a.core s' id g)
    (hs : s.next a = some s') :
    ∃ parcel f, s.Holds parcel ∧ parcel.id = id ∧ g = (recvCompleted parcel.message).applyTo f := by
  have hstep := step_of_next hs
  unfold step at hstep
  cases h with
  | @atOnce parcel pid f _ herr hmain hleave =>
    rw [herr, hmain] at hstep
    cases hstep
    refine ⟨parcel, f, .main a.core pid f hmain, rfl, ?_⟩
    have hself : ((s.record (.handed parcel.id pid (s.isLive pid))).goto a.core
        (.leave (recvRegisters f parcel.message)) []).cores a.core = _ := update_self ..
    rw [hself] at hleave
    cases hleave
    exact recvRegisters_eq f parcel.message
  | @woken parcel pid rest P P' herr hP hblocked hP' =>
    rw [herr] at hstep
    cases hstep
    refine ⟨parcel, P.trapFrame, .errand a.core pid (by rw [herr]; exact List.mem_cons_self), rfl, ?_⟩
    have hnew := (occupiedMut_eq_some.mp hP').symm.trans (view_wakeBlockedProcessLocked
      (occupiedMut_eq_some.mp hP) (recvCompleted parcel.message))
    rw [wakenRecord, if_pos hblocked] at hnew
    cases hnew
    rfl
  | @early parcel pid rest P P' result f herr hP hrunning hP' hpending =>
    rw [herr] at hstep
    cases hstep
    refine ⟨parcel, f, .errand a.core pid (by rw [herr]; exact List.mem_cons_self), rfl, ?_⟩
    have hnew := (occupiedMut_eq_some.mp hP').symm.trans (view_wakeBlockedProcessLocked
      (occupiedMut_eq_some.mp hP) (recvCompleted parcel.message))
    rw [wakenRecord, if_neg hrunning] at hnew
    cases hnew
    cases hpending
    rfl

theorem sendMessage_sysSend (cap : CapIndex) (message : Message) (f : TrapFrame) :
    sendMessage (Rt.sysSend cap message f) = message := by
  refine Message.ext_words rfl fun i ↦ ?_
  fin_cases i <;> rfl

theorem sysRecv_recvCompleted (message : Message) (f : TrapFrame) :
    Rt.sysRecv ((recvCompleted message).applyTo f) =
      .ok ⟨message.tag, #v[message.word 0, message.word 1, message.word 2, 0]⟩ :=
  Rt.orError_zero rfl _

/-- The wrappers hand over a message unchanged exactly if its last word is zero, whichever side
comes first. -/
theorem sysRecv_eq_iff (config : BootConfig E) (s s' : State E) (sent : Letters) (a : Action E)
    (cap : CapIndex) (message : Message) (f g : TrapFrame) (id : ℕ)
    (h : Reach (noted next letter) (fun _ _ ↦ True) (init config, fun _ ↦ none)
      (s, sent)) (hs : s.next a = some s') (hreceipt : s.Receipt a.core s' id g)
    (hsent : sent id = some (Rt.sysSend cap message f)) :
    Rt.sysRecv g = .ok message ↔ message.word 3 = 0 := by
  obtain ⟨parcel, f', hholds, rfl, rfl⟩ := hreceipt.registers hs
  have hmessage := (genuine_of_reach h).message parcel _ hholds hsent
  rw [sendMessage_sysSend] at hmessage
  rw [hmessage, sysRecv_recvCompleted, Except.ok.injEq]
  constructor
  · intro heq
    rw [← heq]
    rfl
  · intro hzero
    refine Message.ext_words rfl fun i ↦ ?_
    fin_cases i
    · rfl
    · rfl
    · rfl
    · exact hzero.symm

end Turns

def sendFrame (message : Message) : TrapFrame := Rt.sysSend ⟨0⟩ message userFrame

def receiverFirst (message : Message) : List (Action Unit) :=
  receiveFirst ++ [⟨0, .trap .syscall (sendFrame message)⟩] ++ advance 0 4

def senderFirst (message : Message) : List (Action Unit) :=
  bootSolo ++ spawnOn 0 1 ++ grantTo twin 2 ++ startOn 0 twin ++
    [⟨0, .trap .syscall (sendFrame message)⟩] ++ advance 0 6 ++ serve 0 sysRecv 0 4

def Exchanged (actions : List (Action Unit)) (message : Message)
    (result : Except SyscallError Message) : Prop :=
  ∃ s sent s' g, run (noted next letter) (init soloEndpoint, fun _ ↦ none) actions =
      some (s, sent) ∧ s.next (go 0) = some s' ∧ s.Receipt 0 s' 0 g ∧
    sent 0 = some (sendFrame message) ∧ Rt.sysRecv g = result

def exchanges (actions : List (Action Unit)) (message : Message)
    (result : Except SyscallError Message) : Bool :=
  ((run (noted next letter) (init soloEndpoint, fun _ ↦ none) actions).bind fun x ↦
    (x.1.next (go 0)).bind fun s' ↦ (x.1.receipt 0 s').map fun r ↦
      decide (r.1 = 0 ∧ x.2 0 = some (sendFrame message) ∧ Rt.sysRecv r.2 = result)) = some true

theorem Exchanged.of_exchanges {actions : List (Action Unit)} {message : Message}
    {result : Except SyscallError Message} (h : exchanges actions message result = true) :
    Exchanged actions message result := by
  have hrun := of_decide_eq_true h
  simp only [Option.bind_eq_some_iff, Option.map_eq_some_iff] at hrun
  obtain ⟨x, hx, s', hs', ⟨id, g⟩, hr, htest⟩ := hrun
  obtain ⟨hid, hsent, hresult⟩ := of_decide_eq_true htest
  simp only at hid
  subst hid
  exact ⟨x.1, x.2, s', g, hx, hs', .of_receipt hr, hsent, hresult⟩

def threeWords : Message := ⟨7, #v[1, 2, 3, 0]⟩

def fourWords : Message := ⟨7, #v[1, 2, 3, 4]⟩

theorem sysRecv_eq_iff_threeWords :
    ∃ s s' sent g, Reach (noted next letter) (fun _ _ ↦ True)
        (init soloEndpoint, fun _ ↦ none) (s, sent) ∧ s.next (go 0) = some s' ∧
      s.Receipt 0 s' 0 g ∧ sent 0 = some (Rt.sysSend ⟨0⟩ threeWords userFrame) ∧
      (Rt.sysRecv g = .ok threeWords ↔ threeWords.word 3 = 0) := by
  have hexchanged : Exchanged (receiverFirst threeWords) threeWords (.ok threeWords) :=
    .of_exchanges (by decide +kernel)
  obtain ⟨s, sent, s', g, hrun, hs', hreceipt, hsent, -⟩ := hexchanged
  exact ⟨s, s', sent, g, run_reach hrun, hs', hreceipt, hsent,
    sysRecv_eq_iff soloEndpoint s s' sent (go 0) ⟨0⟩ threeWords userFrame g 0 (run_reach hrun) hs'
      hreceipt hsent⟩

/-- The last of four words arrives as zero, whichever side comes first. -/
theorem fourth_word_lost :
    Exchanged (receiverFirst fourWords) fourWords (.ok threeWords) ∧
      Exchanged (senderFirst fourWords) fourWords (.ok threeWords) ∧ threeWords ≠ fourWords :=
  ⟨.of_exchanges (by decide +kernel), .of_exchanges (by decide +kernel), by decide⟩

end State

end Tarnos.Kernel
