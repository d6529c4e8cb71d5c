import Tarnos.Kernel.Aims

namespace Tarnos.Kernel

open Abi Arch Kcore Tarnos.Task Foundation.Transition Function

variable {E : Type} {f : TrapFrame}

def Place.Asked : Place E → Process E → TrapFrame → Prop
  | .sender e, P, f => f.rax = sysSend ∧ resolveEndpoint P ⟨f.rdi.toUInt32⟩ .send = .ok e
  | .receiver e, P, f => f.rax = sysRecv ∧ resolveEndpoint P ⟨f.rdi.toUInt32⟩ .recv = .ok e
  | .child q, _, f => f.rax = sysWait ∧ q = ⟨f.rdi⟩

theorem Place.Asked.congr {place : Place E} {P P' : Process E} (h : place.Asked P f)
    (hcaps : P'.capTable = P.capTable) : place.Asked P' f := by
  cases place with
  | sender e | receiver e =>
    obtain ⟨hrax, hresolve⟩ := h
    exact ⟨hrax, (resolveEndpoint_congr hcaps _ _).trans hresolve⟩
  | child q => exact h

def Main.running : Main E → Option TrapFrame
  | .user f => some f
  | _ => none

theorem Main.user_of_running {m : Main E} (h : m.running = some f) : m = .user f := by
  cases m with
  | user g => rw [Option.some.inj h]
  | _ => cases h

namespace State

def Placed (s : State E) (g : Journal E) : Prop :=
  ∀ p P, s.sched.view p = .occupied P → ∀ place, (g p).place = some place → place.Asked P (g p).trap

section Runs

variable {s s' : State E} {a : Action E} {c : CoreId} {p : Pid} {P : Process E} {g g₀ : Journal E}
  {place : Place E} {config : BootConfig E}

theorem Placed.init (config : BootConfig E) (g : Journal E) : (State.init config).Placed g := by
  intro p P hP
  rw [show (State.init config).sched = Inner.init from rfl, Inner.view_init] at hP
  cases hP

variable [Fintype E]

theorem Fits.asked (hfits : s.Fits g) (h : s.Inv False) (haims : s.Aims)
    (hP : s.sched.view p = .occupied P) (hr : s.registered c p = some place) :
    place.Asked P (g p).trap := by
  obtain ⟨-, hc, f, hf, hg⟩ := hfits.registers (a := ⟨c, .go⟩) h hr
  have haim := haims c p P hc hP
  rw [hg]
  obtain ⟨-, -, -, ⟨e, rfl, henters⟩ | ⟨e, rfl, henters⟩ | ⟨q, f', rfl, hawaits⟩⟩ :=
    registered_cases hr
  · cases henters with
    | sends _ hmain _ =>
      rw [hmain] at hf haim
      cases hf
      exact ⟨haim.1, haim.2.1⟩
  · cases henters with
    | receives _ hmain _ =>
      rw [hmain] at hf haim
      cases hf
      exact haim
  · rw [hawaits.hmain] at hf haim
    cases hf
    exact haim

variable [DecidableEq E]

theorem Placed.next (hplaced : s.Placed g) (hfits : s.Fits g) (h : s.Inv False) (haims : s.Aims)
    (hhoused : s.Housed) (hs : s.next a = some s') : s'.Placed (s.journal a s' g) := by
  intro p P' hP' place hplace
  cases hb : s.begun a p with
  | some f =>
    rw [journal_begun hb] at hplace
    cases hplace
  | none =>
    have hlive : ∀ P, s.sched.view p = .occupied P → place.Asked P' (s.journal a s' g p).trap := by
      intro P hP
      have hcaps : ∀ place, (g p).place = some place → P'.capTable = P.capTable := by
        intro place hsome
        refine ((hhoused.disciplined hs).settled p P P' hP hP' fun hsuspended ↦ ?_).1
        rw [((hfits.records p P hP).suspended hsuspended).2.1] at hsome
        cases hsome
      cases hr : s.registered a.core p with
      | some place' =>
        obtain ⟨-, hc, -⟩ := hfits.registers (a := a) h hr
        obtain ⟨P₀, hP₀, hrun⟩ := h.scene.sound.running _ p hc
        cases hP.symm.trans hP₀
        rw [journal_registered hb hr] at hplace ⊢
        cases hplace
        refine (hfits.asked h haims hP hr).congr ?_
        exact ((hhoused.disciplined hs).settled p P P' hP hP' (by rw [hrun]; simp)).1
      | none =>
        have hsame : (s.journal a s' g p).trap = (g p).trap ∧
            (s.journal a s' g p).place = (g p).place := by
          cases hset : s.settled a.core p with
          | some x => rw [journal_settled hb hr hset]; exact ⟨rfl, rfl⟩
          | none => rw [journal_same hb hr hset]; exact ⟨rfl, rfl⟩
        rw [hsame.2] at hplace
        rw [hsame.1]
        exact (hplaced p P hP place hplace).congr (hcaps place hplace)
    cases h.fared (next_turn hs) hP' with
    | spawned herr hmain hpid =>
      obtain ⟨-, hg⟩ := hfits.child a.core P' (by rw [hmain]; rfl)
      rw [hpid] at hg
      rw [journal_same (by simp [begun, herr, hmain]) (by simp [registered, herr, hmain])
        (by simp [settled, herr, hmain]), hg] at hplace
      cases hplace
    | booted herr hmain =>
      rw [h.frame_bootSpawn herr hmain hs hP'] at hb
      cases hb
    | went hP | dispatched hP => exact hlive _ hP

theorem fits_of_reach (h : Reach (noted next journal) (fun x a ↦ x.1.NoWrap a)
    (init config, g₀) (s, g)) : s.Inv False ∧ s.Fits g ∧ s.Placed g := by
  have hbase : ∀ t, Reach next State.NoWrap (init config) t →
      t.Inv False ∧ t.Housed ∧ t.Aims :=
    fun t ht ↦ ⟨inv_of_noWrap (fun _ _ hok ↦ hok) ht, (lawful_of_reach ht).1, aims_of_reach ht⟩
  refine ⟨(hbase s h.forget).1, ?_⟩
  refine Reach.noted_invariant (I := fun t g ↦ t.Fits g ∧ t.Placed g) hbase ?_ ?_ h
  · exact ⟨Fits.init config g₀, Placed.init config g₀⟩
  · intro t a u g ⟨hinv, hhoused, haims⟩ ⟨hfits, hplaced⟩ hwrap hs
    exact ⟨hfits.next hinv hwrap hs, hplaced.next hfits hinv haims hhoused hs⟩

end Runs

/-- Results reach the calls they belong to. A result is kept for a process only while it is about
to block in the call that registered it. An event that ends a registration finds the one on the
ticket, still open. A process that goes on after it registered gets the result of that event. -/
structure Answered [DecidableEq E] (s : State E) (g : Journal E) : Prop where
  pending : ∀ p P result, s.sched.view p = .occupied P → P.pendingWake = some result →
    P.state = .running ∧ ∃ c f e, s.sched.current c = some p ∧
      (s.cores c).main = .blockCurrent f ∧ (g p).trap = f ∧ (g p).outcome = some result ∧
      (f.rax = sysSend ∧ (g p).place = some (.sender e) ∨
        f.rax = sysRecv ∧ (g p).place = some (.receiver e))
  user : ∀ c p P f, s.sched.current c = some p → s.sched.view p = .occupied P →
    (s.cores c).main = .user f → P.pendingWake = none
  settles : ∀ c p P place result, s.sched.view p = .occupied P →
    s.settled c p = some (place, result) → (g p).place = some place ∧ (g p).outcome = none ∧
      place.Admits result ∧ place.Asked P (g p).trap
  returns : ∀ a s' p f place, s.next a = some s' → s.Dispatches a.core s' p f →
    (s.journal a s' g p).place = some place → ∃ result,
      (s.journal a s' g p).outcome = some result ∧ place.Admits result ∧
      f = result.applyTo (s.journal a s' g p).trap

section Answers

variable [Fintype E] {s s' : State E} {a : Action E} {c : CoreId} {p : Pid} {P : Process E}
  {g : Journal E} {result : WakeResult}

theorem Inv.parked_of_pending (h : s.Inv False) (hP : s.sched.view p = .occupied P)
    (hpending : P.pendingWake = some result) :
    P.state = .running ∧ ∃ c f, s.sched.current c = some p ∧ (s.cores c).main = .blockCurrent f := by
  have haccount := h.scene.accounts.account p P hP
  have hparked : Parked s.scene.table s.scene.main p := by
    by_contra hnot
    have hblocked : P.state ≠ .blocked := by
      intro hblocked
      rw [h.scene.sound.blocked p P hP hblocked] at hpending
      cases hpending
    rw [(haccount.calm hblocked hnot).2] at hpending
    cases hpending
  obtain ⟨c, hc, hparks⟩ := hparked
  obtain ⟨P₀, hP₀, hrun⟩ := h.scene.sound.running c p hc
  cases (show s.sched.view p = .occupied P from hP).symm.trans hP₀
  refine ⟨hrun, c, ?_⟩
  replace hparks : (s.cores c).main.parks = true := hparks
  cases hmain : (s.cores c).main with
  | blockCurrent f => exact ⟨f, hc, rfl⟩
  | _ =>
    rw [hmain] at hparks
    cases hparks

variable [DecidableEq E]

theorem Fits.returns (hfits : s.Fits g) (h : s.Inv False) (hs : s.next a = some s')
    (hd : s.Dispatches a.core s' p f) : f = (s.journal a s' g p).frame ∧
      (s.journal a s' g p).place.isSome = (s.journal a s' g p).outcome.isSome := by
  obtain ⟨P, x, hpicks⟩ := h.picks hs hd
  cases hd.main.symm.trans hpicks.main
  exact hfits.dispatched h hpicks.hP hpicks.course hpicks.ready

theorem answered_of_reach (config : BootConfig E) (g₀ : Journal E) (s : State E) (g : Journal E)
    (h : Reach (noted next journal) (fun x a ↦ x.1.NoWrap a) (init config, g₀) (s, g)) :
    s.Answered g := by
  obtain ⟨hinv, hfits, hplaced⟩ := fits_of_reach h
  refine ⟨fun p P result hP hpending ↦ ?_, fun c p P f hc hP hmain ↦ ?_,
    fun c p P place result hP hset ↦ ?_, fun a s' p f place hs hd hplace ↦ ?_⟩
  · obtain ⟨hrun, c, f, hc, hmain⟩ := hinv.parked_of_pending hP hpending
    have hserved := hfits.served c p f hc (by rw [hmain]; rfl)
    obtain ⟨-, houtcome⟩ := (hfits.records p P hP).pending result hpending
    obtain ⟨e, hplace | hplace⟩ := hserved.parked (by rw [hmain]; rfl)
    · have hasked := hplaced p P hP _ hplace
      rw [hserved.trap] at hasked
      exact ⟨hrun, c, f, e, hc, hmain, hserved.trap, houtcome, .inl ⟨hasked.1, hplace⟩⟩
    · have hasked := hplaced p P hP _ hplace
      rw [hserved.trap] at hasked
      exact ⟨hrun, c, f, e, hc, hmain, hserved.trap, houtcome, .inr ⟨hasked.1, hplace⟩⟩
  · by_contra hne
    obtain ⟨result, hpending⟩ := Option.ne_none_iff_exists'.mp hne
    obtain ⟨-, d, f', hd, hmain'⟩ := hinv.parked_of_pending hP hpending
    cases hinv.scene.sound.injective c d p hc hd
    cases hmain.symm.trans hmain'
  · obtain ⟨hnone, hplace, hadmits⟩ := hfits.settles hP hset
    exact ⟨hplace, hnone, hadmits, hplaced p P hP place hplace⟩
  · obtain ⟨hframe, hsome⟩ := hfits.returns hinv hs hd
    rw [hplace] at hsome
    obtain ⟨result, hresult⟩ := Option.isSome_iff_exists.mp hsome.symm
    obtain ⟨P, x, hpicks⟩ := hinv.picks hs hd
    exact ⟨result, hresult, hfits.journal_outcome hinv hpicks.hP hplace hresult,
      hframe.trans (Ticket.frame_of_outcome hresult)⟩

end Answers

def pendingOf (s : State E) (p : Pid) : Option WakeResult :=
  (s.sched.occupiedMut p).bind Process.pendingWake

def wakeEarly : List (Action Unit) := receiveFirst.dropLast ++ sendToChild

theorem answered_of_reach_wakeEarly :
    ∃ s g, Reach (noted next journal) (fun x a ↦ x.1.NoWrap a)
        (init soloEndpoint, fun _ ↦ .fresh userFrame) (s, g) ∧
      s.pendingOf twin = some (recvCompleted ⟨0, #v[0, 0, 0, 0]⟩) ∧
      (g twin).place = some (.receiver ()) ∧ s.Answered g := by
  obtain ⟨⟨s, g⟩, hreach, hpending, hplace⟩ : ∃ x, Reach (noted next journal)
      (fun x a ↦ x.1.NoWrap a) (init soloEndpoint, fun _ ↦ .fresh userFrame) x ∧
        x.1.pendingOf twin = some (recvCompleted ⟨0, #v[0, 0, 0, 0]⟩) ∧
        (x.2 twin).place = some (.receiver ()) :=
    exists_of_run wakeEarly (by decide +kernel) fun _ _ h ↦ h
  exact ⟨s, g, hreach, hpending, hplace, answered_of_reach soloEndpoint _ s g hreach⟩

/-- After a wrapped counter the registration of a dead receiver leaves a message for its twin, which
runs user code. -/
theorem wake_misplaced : ∃ s f, Reach next (fun _ _ ↦ True) (init soloEndpoint) s ∧
    s.sched.current 2 = some twin ∧ (s.cores 2).main = .user f ∧
    s.pendingOf twin = some (recvCompleted ⟨0, #v[0, 0, 0, 0]⟩) := by
  obtain ⟨s, hreach, hcurrent, hpending, hmain⟩ : ∃ s,
      Reach next (fun _ _ ↦ True) (init soloEndpoint) s ∧
      s.sched.current 2 = some twin ∧ s.pendingOf twin = some (recvCompleted ⟨0, #v[0, 0, 0, 0]⟩) ∧
      (s.cores 2).main.running.isSome = true :=
    exists_of_runWrapped 1 leaveTraces (spawnAndStart 1 twin ++ advance 2 3 ++ sendToChild)
      (by decide +kernel) fun _ h ↦ h
  obtain ⟨f, hf⟩ := Option.isSome_iff_exists.mp hmain
  exact ⟨s, f, hreach, hcurrent, Main.user_of_running hf, hpending⟩

end State

end Tarnos.Kernel
