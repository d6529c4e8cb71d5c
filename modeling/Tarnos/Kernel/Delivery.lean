import Tarnos.Kernel.Posting
import Tarnos.Kernel.Wrap

namespace Tarnos.Kernel

open Abi Arch Kcore Tarnos.Task Foundation.Transition
  Tarnos.Foundation.Mail Function

variable {E : Type} {p : Pid}

namespace State

def handings (s : State E) (id : ℕ) : ℕ := s.log.countP fun x ↦ x.hands = some id

def Carries (s : State E) (c : CoreId) (id : ℕ) : Prop :=
  (s.cores c).main.carries = some id ∨ ∃ x ∈ (s.cores c).errands, x.carries = some id

/-- A message whose `SYS_SEND` returned 0 was handed to one receiver, is on its way to it, or is
still queued for a kernel task that will poll again. No message is handed over twice. -/
structure Delivered (s : State E) : Prop where
  completed : ∀ id, .completed id ∈ s.log → s.handings id = 1 ∨ s.handings id = 0 ∧
    ((∃ c, s.Carries c id) ∨ (∃ e, id ∈ queued (s.endpoints e)) ∧ .displacedTask id ∈ s.log)
  once : ∀ id, s.handings id ≤ 1

/-- Whenever a message was taken out for a process or handed to it, the process was alive. -/
def ToTheLiving (s : State E) : Prop :=
  ∀ x ∈ s.log, ∀ p live, x.receiver = some (p, live) → live = true

/-- The step terminates no process that waits for a message or has one on its way. -/
def Attended (s : State E) (a : Action E) : Prop := ∀ p ∈ s.ends a.core, ¬ s.Receives p

theorem count_logged (f : Event E → Option ℕ) (log : List (Event E)) (id : ℕ) :
    (logged f log).count id = log.countP fun x ↦ f x = some id := by
  induction log with
  | nil => rfl
  | cons x log ih =>
    cases hx : f x with
    | none => simp [logged_cons_none hx, ih, hx]
    | some i =>
      rw [logged_cons_some hx, Multiset.count_cons, ih, List.countP_cons, hx]
      simp only [Option.some.injEq, decide_eq_true_eq]
      by_cases hid : i = id
      · simp [hid]
      · simp [hid, Ne.symm hid]

theorem mem_logged {f : Event E → Option ℕ} {log : List (Event E)} {id : ℕ} :
    id ∈ logged f log ↔ ∃ x ∈ log, f x = some id := by
  simp [logged]

theorem mem_load {α : Type} {f : Errand E → Option α} {errands : List (Errand E)} {a : α} :
    a ∈ load f errands ↔ ∃ x ∈ errands, f x = some a := by
  simp [load]

variable {s : State E} {config : BootConfig E}

section

theorem post_init (config : BootConfig E) (c : CoreId) :
    ((init config).post.couriers c) = freeCourier := by
  refine Core.Free.courier ?_
  simp only [init]
  split
  · exact ⟨rfl, rfl, quiet_runReadyTasks⟩
  · split
    · exact ⟨rfl, rfl, quiet_runReadyTasks⟩
    · exact ⟨rfl, rfl, by simp⟩

end

theorem isLive_iff : s.isLive p = true ↔ ∃ P, s.sched.view p = .occupied P := by
  unfold isLive
  simp only [Option.isSome_iff_exists, Inner.occupiedMut_eq_some]

variable [Fintype E]

theorem delivered_of_inv (h : s.post.Inv) : s.Delivered := by
  refine ⟨fun id hid ↦ ?_, fun id ↦ ?_⟩
  · have hmem : id ∈ s.post.completed := mem_logged.mpr ⟨_, hid, rfl⟩
    have hcount : s.post.handed.count id = s.handings id := count_logged _ _ _
    have hdelivered := h.delivered hmem
    rw [hcount] at hdelivered
    rcases hdelivered with hone | ⟨hzero, ⟨c, hc⟩ | ⟨hqueue, hleft⟩⟩
    · exact .inl hone
    · refine .inr ⟨hzero, .inl ⟨c, ?_⟩⟩
      rcases Multiset.mem_add.mp hc with hmain | herrand
      · exact .inl (by simpa using hmain)
      · exact .inr (mem_load.mp herrand)
    · obtain ⟨x, hx, hleaves⟩ := mem_logged.mp hleft
      refine .inr ⟨hzero, .inr ⟨hqueue, ?_⟩⟩
      cases x <;> cases hleaves
      exact hx
  · have hle := h.handed_le id
    rw [show s.post.handed.count id = s.handings id from count_logged _ _ _] at hle
    exact hle

theorem Receives.tokens (h : s.Receives p) : 0 < s.tokens p := by
  unfold State.tokens
  rcases h with ⟨e, he⟩ | ⟨c, x, hx, hr⟩
  · have hslot : slotTokens p (s.endpoints e) = 1 := by
      rw [slotTokens_eq, he]
      cases hslot : s.endpoints e with
      | receiverWaiting r => simp [waiterTokens]
      | _ =>
        rw [hslot] at he
        cases he
    have hle := Finset.single_le_sum (f := fun e ↦ slotTokens p (s.endpoints e))
      (fun _ _ ↦ Nat.zero_le _) (Finset.mem_univ e)
    omega
  · have hone : errandTokens p x = 1 := by
      cases x <;> cases hr <;> simp [errandTokens]
    have hcore : errandTokens p x ≤ coreTokens p (s.cores c) :=
      List.single_le_sum (fun _ _ ↦ Nat.zero_le _) _ (List.mem_map_of_mem hx)
    have hle := Finset.single_le_sum (f := fun c ↦ coreTokens p (s.cores c))
      (fun _ _ ↦ Nat.zero_le _) (Finset.mem_univ c)
    omega

theorem Inv.not_suspended {strict : Prop} {P : Process E} (h : s.Inv strict)
    (hP : s.sched.view p = .occupied P) (htokens : 0 < s.tokens p) : P.state ≠ .suspended := by
  intro hstate
  have hacc := h.scene.accounts.account p P hP
  have hparked : ¬ Parked s.scene.table s.scene.main p := by
    intro hparks
    obtain ⟨c, hc, -⟩ := hparks
    have hrun := h.scene.state_running hc hP
    rw [hstate] at hrun
    cases hrun
  have hzero := (hacc.calm (by rw [hstate]; simp) hparked).1
  change 0 < s.scene.tokens p at htokens
  omega

theorem Inv.live_of_caller {strict : Prop} {c : CoreId} (h : s.Inv strict)
    (hcaller : (s.cores c).main.caller = some p) : s.isLive p = true := by
  have hc : s.sched.current c = some p := h.scene.cores.caller c p hcaller
  obtain ⟨P, hP, -⟩ := h.scene.sound.running c p hc
  exact isLive_iff.mpr ⟨P, hP⟩

theorem post_inv_init (config : BootConfig E) : (init config).post.Inv := by
  refine ⟨fun id ↦ ?_, fun c id hid ↦ ?_, fun c id hid ↦ ?_, fun id hid ↦ ?_⟩
  · have hqueue : ∀ e, (init config).post.queue e = [] := fun _ ↦ rfl
    have hhanded : (init config).post.handed = 0 := rfl
    have hnext : (init config).post.next = 0 := rfl
    simp [Post.places, hqueue, hhanded, hnext, post_init, freeCourier]
  · rw [post_init] at hid
    exact absurd hid (Multiset.notMem_zero id)
  · rw [post_init] at hid
    cases hid
  · exact absurd hid (Multiset.notMem_zero id)

variable [DecidableEq E]

theorem post_of_reach {ok : State E → Action E → Prop}
    (h : Reach next ok (init config) s) :
    (∀ e, (s.endpoints e).receiver? ≠ some .none) ∧ s.post.Inv := by
  refine h.invariant (I := fun t : State E ↦ (∀ e, (t.endpoints e).receiver? ≠ some .none) ∧
    t.post.Inv) ⟨(fun e he ↦ by cases he), post_inv_init config⟩ ?_
  intro t a u ht _ hnext
  have hposting := next_posting ht.1 hnext
  exact ⟨fun e he ↦ ht.1 e (hposting.real e he), ht.2.step hposting.step⟩

theorem Posting.living {c : CoreId} {s' : State E} (hpost : s.Posting c s') (hinv : s.Inv False)
    (heff : s.Effect c s') (hends : ∀ p ∈ s.ends c, ¬ s.Receives p)
    (hreceivers : ∀ p, s.Receives p → s.isLive p = true) (hliving : s.ToTheLiving) :
    (∀ p, s'.Receives p → s'.isLive p = true) ∧ s'.ToTheLiving := by
  refine ⟨fun p hp ↦ ?_, fun x hx p live hr ↦ ?_⟩
  · rcases hpost.receives p hp with hold | ⟨hcaller, hsched⟩
    · obtain ⟨P, hP⟩ := isLive_iff.mp (hreceivers p hold)
      have hstate := hinv.not_suspended hP hold.tokens
      obtain ⟨P', hP', -⟩ := heff.resident hinv hP hstate fun hend ↦ hends p hend hold
      exact isLive_iff.mpr ⟨P', hP'⟩
    · have hlive := hinv.live_of_caller hcaller
      unfold isLive at hlive ⊢
      rwa [hsched]
  · rcases hpost.flags x hx p live hr with hold | ⟨hlive, hp⟩
    · exact hliving x hold p live hr
    · rw [hlive]
      rcases hp with hp | hcaller
      · exact hreceivers p hp
      · exact hinv.live_of_caller hcaller

theorem toTheLiving_of_reach
    (h : Reach next (fun t a ↦ t.NoWrap a ∧ t.Attended a) (init config) s) : s.ToTheLiving := by
  have hinv : ∀ t, Reach next (fun t a ↦ t.NoWrap a ∧ t.Attended a) (init config) t →
      t.Inv False ∧ ∀ e, (t.endpoints e).receiver? ≠ some .none := fun t ht ↦
    ⟨inv_of_noWrap (fun _ _ hok ↦ hok.1) ht, (post_of_reach ht).1⟩
  refine (Reach.invariant_over (I := fun t : State E ↦ (∀ p, t.Receives p → t.isLive p = true) ∧
    t.ToTheLiving) hinv ⟨fun p hp ↦ ?_, fun x hx ↦ by cases hx⟩ ?_ h).2
  · have htokens := hp.tokens
    rw [tokens_init] at htokens
    omega
  · intro t a u ht hlive hok hnext
    exact (next_posting ht.2 hnext).living ht.1 (ht.1.effect hok.1 hnext) hok.2 hlive.1 hlive.2

/-- In every state a message whose `SYS_SEND` returned 0 is accounted for and none has been handed
over twice. If moreover no generation counter wrapped and nobody was terminated while it waited for
a message, then whoever got one was alive. -/
theorem delivered_of_reach (config : BootConfig E) (s : State E)
    (h : Reach next (fun _ _ ↦ True) (init config) s) :
    s.Delivered ∧ (Reach next (fun t a ↦ t.NoWrap a ∧ t.Attended a) (init config) s →
      s.ToTheLiving) :=
  ⟨delivered_of_inv (post_of_reach h).2, toTheLiving_of_reach⟩

instance (s : State E) (p : Pid) : Decidable (s.Receives p) :=
  inferInstanceAs (Decidable (_ ∨ _))

instance (s : State E) (a : Action E) : Decidable (s.Attended a) :=
  inferInstanceAs (Decidable (∀ p ∈ s.ends a.core, ¬ s.Receives p))

def receiveFirst : List (Action Unit) := bothRun ++ serve 1 sysRecv 0 4

def sendToChild : List (Action Unit) := serve 0 sysSend 0 6

def killChild : List (Action Unit) := serve 0 sysKill twin.raw 7

theorem delivered_of_reach_receiveFirst :
    ∃ s, Reach next (fun _ _ ↦ True) (init soloEndpoint) s ∧
      Reach next (fun t a ↦ t.NoWrap a ∧ t.Attended a) (init soloEndpoint) s ∧
      (.completed 0 ∈ s.log ∧ .handed 0 twin true ∈ s.log) ∧ s.Delivered ∧ s.ToTheLiving := by
  obtain ⟨s, hreach, hlog⟩ : ∃ s, Reach next (fun t a ↦ t.NoWrap a ∧ t.Attended a)
      (init soloEndpoint) s ∧ .completed 0 ∈ s.log ∧ .handed 0 twin true ∈ s.log :=
    exists_of_run (receiveFirst ++ sendToChild) (by decide +kernel) fun _ _ h ↦ h
  have hany := hreach.mono fun _ _ _ ↦ trivial
  have hdelivered := delivered_of_reach soloEndpoint s hany
  exact ⟨s, hany, hreach, hlog, hdelivered.1, hdelivered.2 hreach⟩

/-- A blocked sender's `SYS_SEND` returns before its message is handed over. A message to a receiver
that was killed while it waited is lost, and its sender gets 0 all the same. -/
theorem delivery_lost :
    (∃ s, Reach next State.NoWrap (init soloEndpoint) s ∧ .completed 0 ∈ s.log ∧
      s.handings 0 = 0 ∧ queued (s.endpoints ()) = []) ∧
    (∃ s, Reach next State.NoWrap (init soloEndpoint) s ∧ .completed 0 ∈ s.log ∧
      .taken 0 twin false ∈ s.log ∧ .handed 0 twin false ∈ s.log ∧ s.handings 0 = 1) := by
  constructor
  · exact exists_of_run (bootSolo ++ spawnOn 0 1 ++ grantTo twin 2 ++ startOn 0 twin ++ sendToChild ++
      serve 0 sysRecv 0 4) (by decide +kernel) fun _ _ hearly ↦ hearly
  · exact exists_of_run (receiveFirst ++ killChild ++ sendToChild) (by decide +kernel)
      fun _ _ hdead ↦ hdead

end State

end Tarnos.Kernel
