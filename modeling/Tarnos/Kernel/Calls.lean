import Tarnos.Kernel.Journal

namespace Tarnos.Kernel

open Abi Arch Kcore Tarnos.Task Foundation.Transition Function Inner

variable {E : Type} {d : CoreId} {u : State E}

def Place.Admits : Place E → WakeResult → Prop
  | .sender _, result => result = .sendCompleted
  | .receiver _, result => result = .peerClosed ∨ ∃ message, result = recvCompleted message
  | .child _, result => ∃ status, result = .waitCompleted status

namespace Ticket

def Says (k : Ticket E) : Claim E → Prop
  | .sends e => k.place = some (.sender e) ∧ k.outcome = none
  | .receives e => k.place = some (.receiver e) ∧ k.outcome = none
  | .done result => k.place.isSome ∧ k.outcome = some result

structure Served (k : Ticket E) (m : Main E) (f : TrapFrame) : Prop where
  trap : k.trap = f
  parked : m.parks = true → ∃ e, k.place = some (.sender e) ∨ k.place = some (.receiver e)
  unparked : m.parks = false → k.place = none ∧ k.outcome = none

end Ticket

theorem Ticket.Served.isSome {k : Ticket E} {m : Main E} {f : TrapFrame} (h : k.Served m f)
    (hparks : m.parks = true) : k.place.isSome := by
  obtain ⟨e, hplace | hplace⟩ := h.parked hparks <;> rw [hplace] <;> rfl

structure Saved.Fits (x : Saved) (k : Ticket E) : Prop where
  suspended : x.state = .suspended → x.frame = k.trap ∧ k.place = none ∧ k.outcome = none
  ready : x.state = .ready → x.frame = k.frame ∧ k.place.isSome = k.outcome.isSome
  blocked : x.state = .blocked → x.frame = k.trap ∧ k.place.isSome
  pending : ∀ result, x.pending = some result → k.place.isSome ∧ k.outcome = some result

namespace Saved.Fits

variable {x : Saved} {k : Ticket E}
  (hpending : ∀ result, x.pending = some result → k.place.isSome ∧ k.outcome = some result)

include hpending

theorem of_running (hstate : x.state = .running) : x.Fits k := by
  refine ⟨fun h ↦ ?_, fun h ↦ ?_, fun h ↦ ?_, hpending⟩ <;> rw [hstate] at h <;> cases h

theorem of_ready (hstate : x.state = .ready) (hframe : x.frame = k.frame)
    (hplace : k.place.isSome = k.outcome.isSome) : x.Fits k := by
  refine ⟨fun h ↦ ?_, fun _ ↦ ⟨hframe, hplace⟩, fun h ↦ ?_, hpending⟩ <;> rw [hstate] at h <;> cases h

theorem of_blocked (hstate : x.state = .blocked) (hframe : x.frame = k.trap)
    (hplace : k.place.isSome) : x.Fits k := by
  refine ⟨fun h ↦ ?_, fun h ↦ ?_, fun _ ↦ ⟨hframe, hplace⟩, hpending⟩ <;> rw [hstate] at h <;> cases h

theorem of_suspended (hstate : x.state = .suspended) (hframe : x.frame = k.trap)
    (hplace : k.place = none) (houtcome : k.outcome = none) : x.Fits k := by
  refine ⟨fun _ ↦ ⟨hframe, hplace, houtcome⟩, fun h ↦ ?_, fun h ↦ ?_, hpending⟩ <;>
    rw [hstate] at h <;> cases h

end Saved.Fits

theorem Ticket.frame_of_outcome {k : Ticket E} {result : WakeResult} (h : k.outcome = some result) :
    k.frame = result.applyTo k.trap := by
  simp only [Ticket.frame, h]

theorem Ticket.frame_of_none {k : Ticket E} (h : k.outcome = none) : k.frame = k.trap := by
  simp only [Ticket.frame, h]

namespace State

/-- The machine agrees with the journal of its run. -/
structure Fits [Fintype E] (s : State E) (g : Journal E) : Prop where
  records : ∀ p P, s.sched.view p = .occupied P → (saved P).Fits (g p)
  claims : ∀ p P, s.sched.view p = .occupied P → ∀ x ∈ s.claims p, (g p).Says x
  waits : ∀ p q, s.sched.table.Live p → s.sched.table.Waits p q →
    (g p).place = some (.child q) ∧ (g p).outcome = none
  served : ∀ c p f, s.sched.current c = some p → (s.cores c).main.saves = some f →
    (g p).Served (s.cores c).main f
  child : ∀ c P, (s.cores c).main.child = some P → P.pid.slot.isSome ∧ g P.pid = .fresh P.trapFrame
  outcome : ∀ p P, s.sched.view p = .occupied P → ∀ place result, (g p).place = some place →
    (g p).outcome = some result → place.Admits result

section Idle

variable {s s' : State E} {a : Action E} {c : CoreId} {p q : Pid} {P P' : Process E} {strict : Prop}
  {g : Journal E} {x : Claim E} {f : TrapFrame} {result : WakeResult} {place : Place E}

def Unserved (s : State E) (c : CoreId) (p : Pid) : Prop :=
  s.sched.current c = some p → (s.cores c).main.parks = true

theorem Course.waiter {y y' : Saved} (h : s.Course c q y y') :
    y'.waiter = y.waiter ∨ ∃ w f, s.Awaits c w q f ∧ y'.waiter = some w := by
  cases h with
  | woken =>
    unfold Saved.waken
    split <;> exact .inl rfl
  | awaited hawaits => exact .inr ⟨_, _, hawaits, rfl⟩
  | _ => exact .inl rfl

theorem saves_switchToNextOrHalt {b : State E} {outgoing : Option (Fin maxProcesses)}
    {drops : List (Process E)} (hs : b.switchToNextOrHalt c outgoing drops = .next s') :
    (s'.cores c).main.saves = none := by
  unfold switchToNextOrHalt at hs
  split at hs
  · unfold switchTo at hs
    split at hs
    · cases hs
    · cases hs
      simp [dispatch, Main.saves]
  · cases hs
    simp [abandon, Main.saves]

section

variable [Fintype E]

section

variable (h : s.Inv strict)

include h

theorem Inv.unserved_of_state (hP : s.sched.view p = .occupied P) (hstate : P.state ≠ .running) :
    s.Unserved c p := by
  intro hc
  obtain ⟨P₀, hP₀, hrun⟩ := h.scene.sound.running c p hc
  rw [show s.scene.table.view p = .occupied P from hP] at hP₀
  cases hP₀
  exact absurd hrun hstate

theorem Inv.blocked_of_waits (hP : s.sched.view p = .occupied P)
    (hwaits : s.sched.table.Waits p q) : P.state = .blocked := by
  obtain ⟨Q, hQ, hwaiter⟩ := hwaits
  exact h.scene.sound.waiter_blocked hQ hwaiter hP

theorem Inv.waits_unique {q' : Pid} (hP : s.sched.view p = .occupied P)
    (hwaits : s.sched.table.Waits p q) (hwaits' : s.sched.table.Waits p q') : q' = q :=
  ((h.scene.accounts.account p P hP).waiting q hwaits).2 q' hwaits'

theorem Inv.known_of_waits (hwaits : s.sched.table.Waits p q) : s.sched.table.Known p := by
  obtain ⟨Q, hQ, hwaiter⟩ := hwaits
  rcases h.scene.sound.waiter q Q p hQ hwaiter with ⟨-, W, hW, -⟩ | ⟨-, hknown, -⟩
  · exact Table.Live.known ⟨W, hW⟩ h.scene.sound
  · exact hknown

theorem Inv.unserved_of_pending (hP : s.sched.view p = .occupied P)
    (hpending : P.pendingWake = some result) : s.Unserved c p := by
  intro hc
  by_contra hparks
  obtain ⟨-, hnone⟩ := h.scene.calm_current hc hP (Bool.not_eq_true _ ▸ hparks)
  rw [hpending] at hnone
  cases hnone

theorem Inv.unserved_of_claim (hP : s.sched.view p = .occupied P) (hx : x ∈ s.claims p) :
    s.Unserved c p := by
  intro hc
  rcases h.waits_of_claim hP hx with hblocked | ⟨d, hd, hparks⟩
  · obtain ⟨P₀, hP₀, hrun⟩ := h.scene.sound.running c p hc
    rw [show s.scene.table.view p = .occupied P from hP] at hP₀
    cases hP₀
    rw [hrun] at hblocked
    cases hblocked
  · cases h.scene.sound.injective c d p hc hd
    exact hparks

theorem Inv.registered_none (hunserved : s.Unserved c p) : s.registered c p = none := by
  by_contra hne
  obtain ⟨place, hplace⟩ := Option.ne_none_iff_exists'.mp hne
  obtain ⟨-, hcaller, hparks, -⟩ := registered_cases hplace
  rw [hunserved (h.scene.cores.caller c p hcaller)] at hparks
  cases hparks

end

theorem Fits.registers (hfits : s.Fits g) (h : s.Inv strict)
    (hr : s.registered c p = some place) :
    s.begun ⟨c, a.choice⟩ p = none ∧ s.sched.current c = some p ∧
      ∃ f, (s.cores c).main.saves = some f ∧ g p = .fresh f := by
  obtain ⟨herr, hcaller, hparks, hcase⟩ := registered_cases hr
  have hc := h.scene.cores.caller c p hcaller
  have hserved : ∀ f, (s.cores c).main.saves = some f → g p = .fresh f := by
    intro f hf
    have hserved := hfits.served c p f hc hf
    obtain ⟨hplace, houtcome⟩ := hserved.unparked hparks
    rw [← hserved.trap, Ticket.fresh, ← hplace, ← houtcome]
  have hmain : ∃ f, (s.cores c).main.saves = some f ∧ s.begun ⟨c, a.choice⟩ p = none := by
    rcases hcase with ⟨e, -, henters⟩ | ⟨e, -, henters⟩ | ⟨q, f, -, hawaits⟩
    · rcases henters.main with ⟨e, message, f, hmain⟩ | ⟨e, f, hmain⟩
      · exact ⟨f, by rw [hmain]; rfl, by simp [begun, herr, hmain]⟩
      · exact ⟨f, by rw [hmain]; rfl, by simp [begun, herr, hmain]⟩
    · rcases henters.main with ⟨e, message, f, hmain⟩ | ⟨e, f, hmain⟩
      · exact ⟨f, by rw [hmain]; rfl, by simp [begun, herr, hmain]⟩
      · exact ⟨f, by rw [hmain]; rfl, by simp [begun, herr, hmain]⟩
    · exact ⟨f, by rw [hawaits.hmain]; rfl, by simp [begun, herr, hawaits.hmain]⟩
  obtain ⟨f, hf, hb⟩ := hmain
  exact ⟨hb, hc, f, hf, hserved f hf⟩

theorem Fits.init (config : BootConfig E) (g : Journal E) : (State.init config).Fits g := by
  have hview : ∀ p P, (State.init config).sched.view p ≠ .occupied P := by
    intro p P hP
    rw [show (State.init config).sched = Inner.init from rfl, Inner.view_init] at hP
    cases hP
  refine ⟨fun p P hP ↦ absurd hP (hview p P), fun p P hP ↦ absurd hP (hview p P),
    fun p q hlive ↦ absurd hlive.choose_spec (hview p _), fun c p f hc ↦ (by cases hc),
    fun c P hP ↦ ?_, fun p P hP ↦ absurd hP (hview p P)⟩
  rw [(init_core config c).2.1.child] at hP
  cases hP

theorem Inv.user_of_begun (h : s.Inv strict) (hP : s.sched.view p = .occupied P)
    (hb : s.begun a p = some f) :
    s.sched.current a.core = some p ∧ ∃ g, (s.cores a.core).main = .user g := by
  obtain ⟨-, ⟨hc, g, kind, hmain, -⟩ | hreserves⟩ := begun_cases hb
  · exact ⟨hc, g, hmain⟩
  · obtain ⟨i, hslot, -⟩ := slot_of_eq hP
    have hview := (h.reserved rfl hreserves hslot).2
    rw [hP] at hview
    cases hview

theorem Fits.settles (hfits : s.Fits g) (hP : s.sched.view p = .occupied P)
    (hset : s.settled c p = some (place, result)) :
    (g p).outcome = none ∧ (g p).place = some place ∧ place.Admits result := by
  cases settled_cases hset with
  | sends hconsumes =>
    obtain ⟨hplace, hnone⟩ := hfits.claims p P hP _ hconsumes.claimed
    cases hconsumes
    exact ⟨hnone, hplace, rfl⟩
  | receives hconsumes =>
    obtain ⟨hplace, hnone⟩ := hfits.claims p P hP _ hconsumes.claimed
    cases hconsumes with
    | receiver => exact ⟨hnone, hplace, .inr ⟨_, rfl⟩⟩
    | orphan => exact ⟨hnone, hplace, .inl rfl⟩
  | waits hbereaves =>
    obtain ⟨hplace, hnone⟩ := hfits.waits p _ ⟨P, hP⟩ hbereaves.hwaits
    exact ⟨hnone, hplace, _, rfl⟩

section

variable (h : s.Inv strict) (hP : s.sched.view p = .occupied P)

include h hP

theorem Inv.unserved_of_settled (hset : s.settled d p = some (place, result)) : s.Unserved c p := by
  cases settled_cases hset with
  | sends hconsumes | receives hconsumes => exact h.unserved_of_claim hP hconsumes.claimed
  | waits hbereaves =>
    refine h.unserved_of_state hP ?_
    rw [h.blocked_of_waits hP hbereaves.hwaits]
    simp

theorem Inv.settled_of_consumes (hconsumes : s.Consumes c p x result) :
    ∃ place, s.settled c p = some (place, result) := by
  cases hconsumes with
  | @sender e w parcel slot htakes hrecv =>
    cases htakes with
    | task herr => exact ⟨.sender e, by simp [settled, herr, hrecv, relieved]⟩
    | @displaced pid rest herr =>
      have hne : pid ≠ p := by
        rintro rfl
        have hsends : .sends e ∈ s.claims pid :=
          claims_of_slot (e := e) (mem_slotClaims.mpr (.inl ⟨rfl, parcel, sends_of_delivered hrecv⟩))
        have hreceives : .receives e ∈ s.claims pid :=
          claims_of_errand (c := c) (y := .wakeReceiver e pid)
            (by rw [herr]; exact List.mem_cons_self) rfl
        cases h.claim_unique hP hsends hreceives
      exact ⟨.sender e, by simp [settled, herr, hrecv, relieved, hne]⟩
    | call herr hmain => exact ⟨.sender e, by simp [settled, herr, hmain, hrecv, relieved]⟩
  | @receiver e _ _ _ _ herr hrecv => exact ⟨.receiver e, by simp [settled, herr, hrecv]⟩
  | @orphan e _ herr hslot => exact ⟨.receiver e, by simp [settled, herr, hslot]⟩

theorem Inv.blocked_of_settled (hset : s.settled c p = some (place, result))
    (hstate : P.state ≠ .running) : P.state = .blocked := by
  cases settled_cases hset with
  | sends hconsumes | receives hconsumes =>
    rcases h.waits_of_claim hP hconsumes.claimed with hblocked | ⟨d, hd, -⟩
    · exact hblocked
    · obtain ⟨P₀, hP₀, hrun⟩ := h.scene.sound.running d p hd
      rw [show s.scene.table.view p = .occupied P from hP] at hP₀
      cases hP₀
      exact absurd hrun hstate
  | waits hbereaves => exact h.blocked_of_waits hP hbereaves.hwaits

end

theorem Inv.journal_reserved (h : s.Inv strict) (hview : s.sched.view q = .reserved)
    (hb : s.begun a q = none) : s.journal a s' g q = g q := by
  refine journal_same hb ?_ ?_
  · by_contra hne
    obtain ⟨place, hplace⟩ := Option.ne_none_iff_exists'.mp hne
    obtain ⟨-, hcaller, -⟩ := registered_cases hplace
    obtain ⟨Q, hQ, -⟩ := h.scene.sound.running _ q (h.scene.cores.caller _ q hcaller)
    cases hview.symm.trans hQ
  · by_contra hne
    obtain ⟨⟨place, result⟩, hresult⟩ := Option.ne_none_iff_exists'.mp hne
    cases settled_cases hresult with
    | sends hconsumes | receives hconsumes => exact (h.known_of_claim hconsumes.claimed).2 hview
    | waits hbereaves => exact (h.known_of_waits hbereaves.hwaits).2 hview

end

inductive Noted (s : State E) (a : Action E) (g : Journal E) (p : Pid) : Ticket E → Prop
  | begun {f : TrapFrame} (h : s.begun a p = some f) : Noted s a g p (.fresh f)
  | registered {f : TrapFrame} {place : Place E} (h : s.registered a.core p = some place)
      (hg : g p = .fresh f) : Noted s a g p ⟨f, some place, none⟩
  | settled {place : Place E} {result : WakeResult} (h : s.settled a.core p = some (place, result))
      (hplace : (g p).place = some place) (hnone : (g p).outcome = none)
      (hadmits : place.Admits result) :
      Noted s a g p { g p with outcome := some result }
  | same (hb : s.begun a p = none) (hr : s.registered a.core p = none)
      (hset : s.settled a.core p = none) : Noted s a g p (g p)

section

variable [DecidableEq E]

theorem trap_of_next {f₀ : TrapFrame} (herr : (s.cores a.core).errands = [])
    (hmain : (s.cores a.core).main = .user f₀) (hs : s.next a = some s') :
    ∃ kind f, a.choice = .trap kind f ∧ (s'.cores a.core).main = trapMain kind f := by
  have hstep := mainStep_of_next hs herr hmain
  simp only [mainStep, trap] at hstep
  split at hstep
  · rename_i kind f hchoice
    split at hstep
    · cases hstep
      exact ⟨kind, f, hchoice, by rw [setCore_self]⟩
    · cases hstep
  · cases hstep

theorem Awaits.saves {f' : TrapFrame} (hawaits : s.Awaits a.core p q f) (hs : s.next a = some s') :
    (s'.cores a.core).main.saves ≠ some f' := by
  have hstep := mainStep_of_next hs hawaits.herr hawaits.hmain
  simp only [mainStep, waitForChild, hawaits.hwait,
    blockCurrent] at hstep
  split at hstep
  · cases hstep
  · rw [saves_switchToNextOrHalt hstep]
    simp

theorem load_of_next {caller child : Pid} (herr : (s.cores a.core).errands = [])
    (hmain : (s.cores a.core).main = .fromElf caller child f) (hs : s.next a = some s')
    (hP : (s'.cores a.core).main.child = some P) :
    P.pid.slot.isSome ∧ s.begun a P.pid = some P.trapFrame := by
  obtain ⟨hslot, entry, frame, hchoice, rfl⟩ := child_of_load hs herr hmain hP
  exact ⟨hslot, by simp [begun, herr, hmain, hchoice, Process.new]⟩

end

variable [Fintype E]

theorem Inv.begun_none (h : s.Inv strict) (hP : s.sched.view p = .occupied P)
    (hunserved : s.Unserved a.core p) : s.begun a p = none := by
  by_contra hne
  obtain ⟨f, hf⟩ := Option.ne_none_iff_exists'.mp hne
  obtain ⟨hc, g, hmain⟩ := h.user_of_begun hP hf
  have hparks := hunserved hc
  rw [hmain] at hparks
  cases hparks

theorem Inv.journal_unserved (h : s.Inv strict) (hP : s.sched.view p = .occupied P)
    (hunserved : s.Unserved a.core p) :
    (s.settled a.core p = none ∧ s.journal a u g p = g p) ∨
      ∃ place result, s.settled a.core p = some (place, result) ∧
        s.journal a u g p = { g p with outcome := some result } := by
  have hb := h.begun_none hP hunserved
  have hr := h.registered_none hunserved
  cases hset : s.settled a.core p with
  | none => exact .inl ⟨rfl, journal_same hb hr hset⟩
  | some x => exact .inr ⟨x.1, x.2, rfl, journal_settled hb hr hset⟩

section

variable (hfits : s.Fits g) (h : s.Inv strict) (hP : s.sched.view p = .occupied P)

include hfits h hP

theorem Fits.woken (hcompletes : s.Completes a.core p result) :
    ((saved P).waken result).Fits (s.journal a s' g p) := by
  have hold := hfits.records p P hP
  cases hcompletes with
  | @errand y rest notes _ herr hwakes =>
    have hclaim : .done result ∈ s.claims p := by
      refine claims_of_errand (c := a.core) (y := y) (by rw [herr]; exact List.mem_cons_self) ?_
      cases hwakes <;> rfl
    have hunserved := h.unserved_of_claim (c := a.core) hP hclaim
    obtain ⟨hplace, houtcome⟩ := hfits.claims p P hP _ hclaim
    rw [journal_same (h.begun_none hP hunserved) (h.registered_none hunserved)
      (settled_of_wakes herr hwakes)]
    unfold Saved.waken
    split
    · rename_i hblocked
      obtain ⟨hframe, -⟩ := hold.blocked hblocked
      refine .of_ready hold.pending rfl ?_ ?_
      · rw [Ticket.frame_of_outcome houtcome, ← hframe]
      · rw [houtcome, hplace]
        rfl
    · rename_i hblocked
      refine .of_running (fun r hr ↦ ?_) ?_
      · cases hr
        exact ⟨hplace, houtcome⟩
      · rcases h.waits_of_claim hP hclaim with hstate | ⟨d, hd, -⟩
        · exact absurd hstate hblocked
        · obtain ⟨P₀, hP₀, hrun⟩ := h.scene.sound.running d p hd
          rw [show s.scene.table.view p = .occupied P from hP] at hP₀
          cases hP₀
          exact hrun
  | @ended q Q status hends hQ hwaiter =>
    have hbereaves : s.Bereaves a.core p q status := ⟨hends, Q, hQ, hwaiter⟩
    have hblocked := h.blocked_of_waits hP hbereaves.hwaits
    have hunserved := h.unserved_of_state (c := a.core) hP (by rw [hblocked]; simp)
    obtain ⟨hframe, hplace⟩ := hold.blocked hblocked
    have hpending := h.scene.sound.blocked p P hP hblocked
    rw [journal_settled (h.begun_none hP hunserved) (h.registered_none hunserved)
      (settled_of_bereaves hbereaves), Saved.waken, if_pos (show (saved P).state = _ from hblocked)]
    refine .of_ready (fun r hr ↦ ?_) rfl ?_ ?_
    · cases hpending.symm.trans hr
    · rw [Ticket.frame_of_outcome rfl, ← hframe]
    · rw [hplace]
      rfl

theorem Fits.noted : s.Noted a g p (s.journal a u g p) := by
  cases hb : s.begun a p with
  | some f =>
    rw [journal_begun hb]
    exact .begun hb
  | none =>
    cases hr : s.registered a.core p with
    | some place =>
      obtain ⟨-, -, f, -, hg⟩ := hfits.registers (a := a) h hr
      rw [journal_registered hb hr, hg]
      exact .registered hr hg
    | none =>
      cases hset : s.settled a.core p with
      | some x =>
        obtain ⟨hnone, hplace, hadmits⟩ := hfits.settles hP hset
        rw [journal_settled hb hr hset]
        exact .settled hset hplace hnone hadmits
      | none =>
        rw [journal_same hb hr hset]
        exact .same hb hr hset

theorem Fits.journal_outcome (hplace : (s.journal a s' g p).place = some place)
    (houtcome : (s.journal a s' g p).outcome = some result) : place.Admits result := by
  have hnoted := hfits.noted (a := a) (u := s') h hP
  generalize s.journal a s' g p = k at hplace houtcome hnoted
  cases hnoted with
  | begun => cases hplace
  | registered => cases houtcome
  | settled _ hplace' _ hadmits =>
    cases houtcome
    cases hplace'.symm.trans hplace
    exact hadmits
  | same => exact hfits.outcome p P hP place result hplace houtcome

end

theorem Inv.served_apart {m : Main E} (h : s.Inv strict)
    (hP : s.sched.view p = .occupied P) (hd : s.sched.current d = some p)
    (hm : m = (s.cores d).main) (hb : s.begun a p = none) (hr : s.registered a.core p = none)
    (hserved : (g p).Served m f) : (s.journal a s' g p).Served m f := by
  cases hset : s.settled a.core p with
  | none =>
    rw [journal_same hb hr hset]
    exact hserved
  | some x =>
    rw [journal_settled hb hr hset]
    refine ⟨hserved.trap, hserved.parked, fun hparks ↦ ?_⟩
    rw [hm, h.unserved_of_settled hP hset hd] at hparks
    cases hparks

section

variable (hfits : s.Fits g) (h : s.Inv strict) (hP : s.sched.view p = .occupied P)

include hfits h hP

theorem Fits.same : (saved P).Fits (s.journal a u g p) := by
  have hold := hfits.records p P hP
  by_cases hrun : P.state = .running
  · refine .of_running (fun result hpending ↦ ?_) hrun
    obtain ⟨hplace, houtcome⟩ := hold.pending result hpending
    have hunserved := h.unserved_of_pending (c := a.core) hP hpending
    rcases h.journal_unserved (g := g) (u := u) hP hunserved with
      ⟨-, hsame⟩ | ⟨place', result', hset, -⟩
    · rw [hsame]
      exact ⟨hplace, houtcome⟩
    · rw [(hfits.settles hP hset).1] at houtcome
      cases houtcome
  · have hunserved := h.unserved_of_state (c := a.core) hP hrun
    rcases h.journal_unserved (g := g) (u := u) hP hunserved with
      ⟨-, hsame⟩ | ⟨place, result, hset, heq⟩
    · rw [hsame]
      exact hold
    · have hblocked := h.blocked_of_settled hP hset hrun
      have hpending := h.scene.sound.blocked p P hP hblocked
      obtain ⟨hframe, hplace⟩ := hold.blocked hblocked
      rw [heq]
      refine .of_blocked (fun r hr ↦ ?_) hblocked hframe hplace
      cases hpending.symm.trans hr

theorem Fits.course {y : Saved} (hcourse : s.Course a.core p (saved P) y) :
    y.Fits (s.journal a s' g p) := by
  have hold := hfits.records p P hP
  cases hcourse with
  | same => exact hfits.same h hP
  | awaited =>
    obtain ⟨hsuspended, hready, hblocked, hpending⟩ := hfits.same (a := a) (u := s') h hP
    exact ⟨hsuspended, hready, hblocked, hpending⟩
  | woken hcompletes => exact hfits.woken h hP hcompletes
  | started hstate =>
    have hunserved := h.unserved_of_state (c := a.core) hP
      (show P.state ≠ .running from fun hrun ↦ by cases (show P.state = _ from hstate).symm.trans hrun)
    obtain ⟨hframe, hplace, houtcome⟩ := hold.suspended hstate
    have hsame : s.journal a s' g p = g p := by
      rcases h.journal_unserved (g := g) (u := s') hP hunserved with
        ⟨-, hsame⟩ | ⟨place, result, hset, -⟩
      · exact hsame
      · obtain ⟨-, hsome, -⟩ := hfits.settles hP hset
        rw [hplace] at hsome
        cases hsome
    rw [hsame]
    refine .of_ready hold.pending rfl ?_ ?_
    · rw [Ticket.frame_of_none houtcome, ← hframe]
    · rw [hplace, houtcome]
      rfl
  | preempted herr hmain hc =>
    have hserved := hfits.served a.core p _ hc (by rw [hmain]; rfl)
    obtain ⟨hplace, houtcome⟩ := hserved.unparked (by rw [hmain]; rfl)
    rw [journal_same (by simp [begun, herr, hmain]) (by simp [registered, herr, hmain])
      (by simp [settled, herr, hmain])]
    refine .of_ready hold.pending rfl ?_ ?_
    · rw [Ticket.frame_of_none houtcome, hserved.trap]
    · rw [hplace, houtcome]
      rfl
  | blocked herr hmain hc hpending =>
    have hserved := hfits.served a.core p _ hc (by rw [hmain]; rfl)
    rw [journal_same (by simp [begun, herr, hmain]) (by simp [registered, herr, hmain])
      (by simp [settled, herr, hmain])]
    exact .of_blocked hold.pending rfl hserved.trap.symm (hserved.isSome (by rw [hmain]; rfl))
  | @stashed f result herr hmain hc hpending =>
    have hserved := hfits.served a.core p _ hc (by rw [hmain]; rfl)
    obtain ⟨hplace, houtcome⟩ := hold.pending result hpending
    rw [journal_same (by simp [begun, herr, hmain]) (by simp [registered, herr, hmain])
      (by simp [settled, herr, hmain])]
    refine .of_ready (fun r hr ↦ ?_) rfl ?_ ?_
    · cases hr
    · rw [Ticket.frame_of_outcome houtcome, hserved.trap]
    · rw [houtcome, hplace]
      rfl
  | @waits q f hawaits hc =>
    have hr := registered_of_awaits hawaits
    obtain ⟨hb, -, f', hf', hg⟩ := hfits.registers (a := a) h hr
    rw [hawaits.hmain] at hf'
    cases hf'
    rw [journal_registered hb hr, hg]
    refine .of_blocked (fun r hpending ↦ ?_) rfl rfl rfl
    have houtcome := (hold.pending r hpending).2
    rw [hg] at houtcome
    cases houtcome

theorem Fits.dispatched {y : Saved} (hcourse : s.Course a.core p (saved P) y)
    (hready : y.state = .ready) : y.frame = (s.journal a s' g p).frame ∧
      (s.journal a s' g p).place.isSome = (s.journal a s' g p).outcome.isSome :=
  (hfits.course h hP hcourse).ready hready

end

variable [DecidableEq E]

theorem Inv.live_before (h : s.Inv strict) (hturn : s.Turn c s') (hP' : s'.sched.view p = .occupied P')
    (hknown : s.sched.table.Known p) : ∃ P, s.sched.view p = .occupied P := by
  cases h.fared hturn hP' with
  | spawned _ _ _ hview | booted _ _ _ hview => exact absurd hview hknown.2
  | went hP | dispatched hP => exact ⟨_, hP⟩

theorem Fits.next_claims {strict' : Prop} (hfits : s.Fits g) (h : s.Inv strict)
    (h' : s'.Inv strict') (hs : s.next a = some s') (hP' : s'.sched.view p = .occupied P')
    (hx : x ∈ s'.claims p) : (s.journal a s' g p).Says x := by
  have hturn := next_turn hs
  have horigin := hturn.origin hx
  have hlive : ∃ P, s.sched.view p = .occupied P := by
    cases horigin with
    | kept hold => exact h.live_before hturn hP' (h.known_of_claim hold)
    | entered henters =>
      rcases registered_of_enters henters with ⟨e, -, hr⟩ | ⟨e, -, hr⟩
      all_goals
        obtain ⟨P, hP, -⟩ := h.scene.sound.running _ _ (hfits.registers (a := a) h hr).2.1
        exact ⟨P, hP⟩
    | consumed _ hconsumes => exact h.live_before hturn hP' (h.known_of_claim hconsumes.claimed)
  obtain ⟨P, hP⟩ := hlive
  cases hset : s.settled a.core p with
  | some y =>
    obtain ⟨place, result⟩ := y
    have hunserved := h.unserved_of_settled (c := a.core) hP hset
    rw [journal_settled (h.begun_none hP hunserved) (h.registered_none hunserved) hset]
    obtain ⟨-, hplace, -⟩ := hfits.settles hP hset
    have hdone : x = .done result := by
      cases settled_cases hset with
      | sends hconsumes | receives hconsumes => exact h'.claim_unique hP' hx (hconsumes.after hs)
      | @waits q status hbereaves =>
        cases horigin with
        | kept hold => exact absurd hbereaves.hwaits (h.not_waits_of_claim hP hold q)
        | entered henters =>
          rcases registered_of_enters henters with ⟨e, -, hr⟩ | ⟨e, -, hr⟩
          all_goals
            rw [h.registered_none hunserved] at hr
            cases hr
        | consumed _ hconsumes =>
          exact absurd hbereaves.hwaits (h.not_waits_of_claim hP hconsumes.claimed q)
    rw [hdone]
    exact ⟨by rw [hplace]; rfl, rfl⟩
  | none =>
    cases horigin with
    | kept hold =>
      have hunserved := h.unserved_of_claim (c := a.core) hP hold
      rw [journal_same (h.begun_none hP hunserved) (h.registered_none hunserved) hset]
      exact hfits.claims p P hP x hold
    | entered henters =>
      rcases registered_of_enters henters with ⟨e, rfl, hr⟩ | ⟨e, rfl, hr⟩
      all_goals
        obtain ⟨hb, -, f, -, hg⟩ := hfits.registers (a := a) h hr
        rw [journal_registered hb hr, hg]
        exact ⟨rfl, rfl⟩
    | consumed _ hconsumes =>
      obtain ⟨place, hsome⟩ := h.settled_of_consumes hP hconsumes
      cases hsome.symm.trans hset

theorem Inv.waits_before (h : s.Inv strict) (hturn : s.Turn c s') (hwaits : s'.sched.table.Waits p q) :
    s.sched.table.Waits p q ∨ ∃ f, s.Awaits c p q f := by
  obtain ⟨Q', hQ', hwaiter⟩ := hwaits
  have hcourse : ∀ {Q : Process E} {y : Saved}, s.sched.view q = .occupied Q →
      s.Course c q (saved Q) y → y.waiter = some p →
      s.sched.table.Waits p q ∨ ∃ f, s.Awaits c p q f := by
    intro Q y hQ hcourse hy
    rcases hcourse.waiter with hsame | ⟨w, f, hawaits, hw⟩
    · exact .inl ⟨Q, hQ, hsame.symm.trans hy⟩
    · cases hw.symm.trans hy
      exact .inr ⟨f, hawaits⟩
  cases h.fared hturn hQ' with
  | spawned _ hmain =>
    obtain ⟨-, -, hnone, -⟩ := h.scene.cores.child c Q' (by rw [main_core hmain]; rfl)
    rw [hwaiter] at hnone
    cases hnone
  | booted _ _ hboot =>
    rw [hboot] at hwaiter
    cases hwaiter
  | went hQ hstep => exact hcourse hQ hstep hwaiter
  | @dispatched Q y hQ hstep _ hsaved =>
    refine hcourse hQ hstep ?_
    have hw : (saved Q').waiter = some p := hwaiter
    rw [hsaved] at hw
    exact hw

theorem Inv.dead_of_terminates {Q : Process E} {status : ExitStatus} (h : s.Inv strict)
    (hs : s.next a = some s') (hends : s.terminates a.core = some (q, status))
    (hQ : s.sched.view q = .occupied Q) : ¬ s'.sched.table.Live q := by
  obtain ⟨htable, -⟩ := finalize_spec status (finalizable h.scene.sound hQ)
  rw [(next_of_terminates hends hs).1, htable]
  exact Table.finalize_dead h.scene.sound hQ

theorem Fits.next_waits (hfits : s.Fits g) (h : s.Inv strict) (hs : s.next a = some s')
    (hlive : s'.sched.table.Live p) (hwaits : s'.sched.table.Waits p q) :
    (s.journal a s' g p).place = some (.child q) ∧ (s.journal a s' g p).outcome = none := by
  have hturn := next_turn hs
  obtain ⟨P', hP'⟩ := hlive
  rcases h.waits_before hturn hwaits with hold | ⟨f, hawaits⟩
  · obtain ⟨P, hP⟩ := h.live_before hturn hP' (h.known_of_waits hold)
    have hblocked := h.blocked_of_waits hP hold
    have hunserved := h.unserved_of_state (c := a.core) hP (by rw [hblocked]; simp)
    rcases h.journal_unserved (g := g) (u := s') hP hunserved with
      ⟨-, hsame⟩ | ⟨place, result, hset, -⟩
    · rw [hsame]
      exact hfits.waits p q ⟨P, hP⟩ hold
    · cases settled_cases hset with
      | sends hconsumes | receives hconsumes =>
        exact absurd hold (h.not_waits_of_claim hP hconsumes.claimed q)
      | waits hbereaves =>
        -- the one it waits for would be gone
        cases h.waits_unique hP hold hbereaves.hwaits
        obtain ⟨Q, hQ, -⟩ := hold
        obtain ⟨Q', hQ', -⟩ := hwaits
        exact absurd ⟨Q', hQ'⟩ (h.dead_of_terminates hs hbereaves.hends hQ)
  · have hr := registered_of_awaits hawaits
    obtain ⟨hb, -, f, -, hg⟩ := hfits.registers (a := a) h hr
    rw [journal_registered hb hr, hg]
    exact ⟨rfl, rfl⟩

theorem Inv.frame_bootSpawn {boot : BootProcess E} {rest : List (BootProcess E)} (h : s.Inv strict)
    (herr : (s.cores a.core).errands = []) (hmain : (s.cores a.core).main = .bootSpawn p boot rest)
    (hs : s.next a = some s') (hP' : s'.sched.view p = .occupied P') :
    s.begun a p = some P'.trapFrame := by
  obtain ⟨entry, frame, sched, hchoice, hspawn, rfl⟩ := bootSpawn_of_next herr hmain hs
  have hP'' : P'.trapFrame = TrapFrame.initialUserFrame entry userStackTop := by
    obtain ⟨-, hreserved, -⟩ := h.booted hmain hspawn
    rw [view_spawn hspawn (show s.sched.view p ≠ _ by rw [hreserved]; simp),
      if_pos (show p = (boot.process p frame entry).pid from rfl)] at hP'
    cases hP'
    rfl
  simp [begun, herr, hmain, hchoice, hP'']

section

variable (hfits : s.Fits g) (h : s.Inv strict) (hs : s.next a = some s')
  (hP' : s'.sched.view p = .occupied P')

include hfits h hs hP'

theorem Fits.next_records : (saved P').Fits (s.journal a s' g p) := by
  cases h.fared (next_turn hs) hP' with
  | spawned herr hmain hpid =>
    obtain ⟨-, hsuspended, -, hpending⟩ := h.scene.cores.child a.core P' (by rw [main_core hmain]; rfl)
    obtain ⟨-, hg⟩ := hfits.child a.core P' (by rw [hmain]; rfl)
    rw [hpid] at hg
    rw [journal_same (by simp [begun, herr, hmain]) (by simp [registered, herr, hmain])
      (by simp [settled, herr, hmain]), hg]
    refine .of_suspended (fun r hr ↦ ?_) hsuspended rfl rfl rfl
    cases hpending.symm.trans hr
  | @booted boot rest frame entry herr hmain hboot =>
    rw [journal_begun (h.frame_bootSpawn herr hmain hs hP')]
    rw [hboot]
    refine .of_ready (fun r hr ↦ ?_) rfl rfl rfl
    cases hr
  | went hP hcourse => exact hfits.course h hP hcourse
  | @dispatched P y hP hcourse _ hsaved =>
    rw [hsaved]
    exact .of_running (hfits.course h hP hcourse).pending rfl

theorem Fits.live_or_fresh :
    (∃ P, s.sched.view p = .occupied P) ∨ ∃ f, s.journal a s' g p = .fresh f := by
  cases h.fared (next_turn hs) hP' with
  | spawned herr hmain hpid =>
    obtain ⟨-, hg⟩ := hfits.child a.core P' (by rw [hmain]; rfl)
    rw [hpid] at hg
    refine .inr ⟨P'.trapFrame, ?_⟩
    rw [journal_same (by simp [begun, herr, hmain]) (by simp [registered, herr, hmain])
      (by simp [settled, herr, hmain]), hg]
  | booted herr hmain => exact .inr ⟨_, journal_begun (h.frame_bootSpawn herr hmain hs hP')⟩
  | went hP | dispatched hP => exact .inl ⟨_, hP⟩

theorem Fits.next_outcome (hplace : (s.journal a s' g p).place = some place)
    (houtcome : (s.journal a s' g p).outcome = some result) : place.Admits result := by
  rcases hfits.live_or_fresh h hs hP' with ⟨P, hP⟩ | ⟨f, hfresh⟩
  · exact hfits.journal_outcome h hP hplace houtcome
  · rw [hfresh] at hplace
    cases hplace

end

theorem Fits.next_served (hfits : s.Fits g) (h : s.Inv False) (hwrap : s.NoWrap a)
    (hs : s.next a = some s') (hd : s'.sched.current d = some p)
    (hf : (s'.cores d).main.saves = some f) : (s.journal a s' g p).Served (s'.cores d).main f := by
  have hturn := next_turn hs
  have heff := h.effect hwrap hs
  by_cases hdc : d = a.core
  · subst hdc
    rw [heff.current_saves hf] at hd
    obtain ⟨P, hP, -⟩ := h.scene.sound.running a.core p hd
    cases hturn.serves hf with
    | trapped herr hmain =>
      obtain ⟨kind, f₀, hchoice, hnew⟩ := trap_of_next herr hmain hs
      rw [hnew] at hf ⊢
      cases saves_trapMain hf
      have hb : s.begun a p = some f := by simp [begun, herr, hmain, hchoice, hd]
      rw [journal_begun hb]
      refine ⟨rfl, fun hparks ↦ ?_, fun _ ↦ ⟨rfl, rfl⟩⟩
      rw [(trapMain_plain kind f).1.parks] at hparks
      cases hparks
    | errand herr hmain =>
      rw [hmain] at hf ⊢
      refine h.served_apart hP hd rfl ?_ ?_ (hfits.served a.core p f hd hf)
      · by_contra hne
        obtain ⟨f', hf'⟩ := Option.ne_none_iff_exists'.mp hne
        exact herr (begun_cases hf').1
      · by_contra hne
        obtain ⟨place, hplace⟩ := Option.ne_none_iff_exists'.mp hne
        exact herr (registered_cases hplace).1
    | serves herr hold hparks hnew =>
      have hserved := hfits.served a.core p f hd hold
      cases hr : s.registered a.core p with
      | some place =>
        obtain ⟨hb, -, f', -, hg⟩ := hfits.registers (a := a) h hr
        rw [journal_registered hb hr]
        -- a wait for a child leaves the core at once, the other registrations park it
        obtain ⟨-, -, -, ⟨e, rfl, henters⟩ | ⟨e, rfl, henters⟩ | ⟨q, f'', -, hawaits⟩⟩ :=
          registered_cases hr
        · refine ⟨hserved.trap, fun _ ↦ ⟨e, .inl rfl⟩, fun hparks' ↦ ?_⟩
          rw [hnew.mpr ⟨p, _, henters⟩] at hparks'
          cases hparks'
        · refine ⟨hserved.trap, fun _ ↦ ⟨e, .inr rfl⟩, fun hparks' ↦ ?_⟩
          rw [hnew.mpr ⟨p, _, henters⟩] at hparks'
          cases hparks'
        · exact absurd hf (hawaits.saves hs)
      | none =>
        have hb : s.begun a p = none := by
          by_contra hne
          obtain ⟨f', hf'⟩ := Option.ne_none_iff_exists'.mp hne
          obtain ⟨-, g', hmain⟩ := h.user_of_begun hP hf'
          rw [hmain] at hold
          cases hold
        have hset : s.settled a.core p = none := by
          by_contra hne
          obtain ⟨result, hresult⟩ := Option.ne_none_iff_exists'.mp hne
          rw [h.unserved_of_settled hP hresult hd] at hparks
          cases hparks
        rw [journal_same hb hr hset]
        refine ⟨hserved.trap, fun hparks' ↦ ?_, fun _ ↦ hserved.unparked hparks⟩
        obtain ⟨p', x, henters⟩ := hnew.mp hparks'
        have hp' : p' = p := by
          rcases registered_of_enters henters with ⟨e, -, hr'⟩ | ⟨e, -, hr'⟩
          all_goals
            obtain ⟨-, hc', -⟩ := hfits.registers (a := a) h hr'
            exact Option.some.inj (hc'.symm.trans hd)
        subst hp'
        rcases registered_of_enters henters with ⟨e, -, hr'⟩ | ⟨e, -, hr'⟩
        all_goals
          rw [hr] at hr'
          cases hr'
  · rw [hturn.others hdc] at hf ⊢
    have hd' := (heff.seating h).current_other hdc hd
    obtain ⟨P, hP, -⟩ := h.scene.sound.running d p hd'
    have hunserved : s.Unserved a.core p := fun hc ↦
      absurd (h.scene.sound.injective d a.core p hd' hc) hdc
    exact h.served_apart hP hd' rfl (h.begun_none hP hunserved) (h.registered_none hunserved)
      (hfits.served d p f hd' hf)

theorem Inv.child_cases (h : s.Inv strict) (hs : s.next a = some s')
    (hslot : (s.cores d).main.child = some P → P.pid.slot.isSome)
    (hP : (s'.cores d).main.child = some P) :
    ((s.cores d).main.child = some P ∧ s.sched.view P.pid = .reserved ∧ s.begun a P.pid = none) ∨
      P.pid.slot.isSome ∧ s.sched.view P.pid = .reserved ∧
        s.begun a P.pid = some P.trapFrame := by
  have hturn := next_turn hs
  have hreserves : (s.cores d).main.child = some P → (s.cores d).main.reserves = some P.pid := by
    intro hd
    have hslot := hslot hd
    cases hmain : (s.cores d).main with
    | spawnSuspended P₀ f =>
      rw [hmain] at hd
      cases hd
      simp [Main.reserves, Main.unplaced, hslot]
    | _ =>
      rw [hmain] at hd
      cases hd
  by_cases hdc : d = a.core
  · subst hdc
    rcases hturn.child hP with ⟨herr, hmain⟩ | ⟨herr, caller, child, f, hmain⟩
    · rw [hmain] at hP
      refine .inl ⟨hP, h.scene.cores.reserves _ _ (hreserves hP), ?_⟩
      by_contra hne
      obtain ⟨f', hf'⟩ := Option.ne_none_iff_exists'.mp hne
      exact herr (begun_cases hf').1
    · obtain ⟨hsome, hb⟩ := load_of_next herr hmain hs hP
      obtain ⟨i, hi⟩ := Option.isSome_iff_exists.mp hsome
      obtain ⟨-, ⟨-, g, kind, huser, -⟩ | hother⟩ := begun_cases hb
      · cases hmain.symm.trans huser
      · exact .inr ⟨hsome, (h.reserved rfl hother hi).2, hb⟩
  · rw [hturn.others hdc] at hP
    have hview := h.scene.cores.reserves _ _ (hreserves hP)
    refine .inl ⟨hP, hview, ?_⟩
    by_contra hne
    obtain ⟨f', hf'⟩ := Option.ne_none_iff_exists'.mp hne
    obtain ⟨-, ⟨hc, -⟩ | hother⟩ := begun_cases hf'
    · obtain ⟨Q, hQ, -⟩ := h.scene.sound.running _ _ hc
      cases (show s.sched.view P.pid = .reserved from hview).symm.trans hQ
    · refine hdc (h.scene.cores.reserver d a.core P.pid (hreserves hP) ?_)
      exact hother.trans (if_pos (hslot hP))

theorem Fits.next_child (hfits : s.Fits g) (h : s.Inv strict)
    (hs : s.next a = some s') (hP : (s'.cores d).main.child = some P) :
    P.pid.slot.isSome ∧ s.journal a s' g P.pid = .fresh P.trapFrame := by
  rcases h.child_cases hs (fun hd ↦ (hfits.child d P hd).1) hP with ⟨hd, hview, hb⟩ | ⟨hslot, -, hb⟩
  · obtain ⟨hslot, hg⟩ := hfits.child d P hd
    exact ⟨hslot, (h.journal_reserved hview hb).trans hg⟩
  · exact ⟨hslot, journal_begun hb⟩

theorem Fits.next (hfits : s.Fits g) (h : s.Inv False) (hwrap : s.NoWrap a)
    (hs : s.next a = some s') : s'.Fits (s.journal a s' g) := by
  have h' : s'.Inv False := h.next hwrap False.elim hs
  exact ⟨fun p P hP ↦ hfits.next_records h hs hP, fun p P hP x hx ↦ hfits.next_claims h h' hs hP hx,
    fun p q hlive hwaits ↦ hfits.next_waits h hs hlive hwaits,
    fun d p f hd hf ↦ hfits.next_served h hwrap hs hd hf, fun d P hP ↦ hfits.next_child h hs hP,
    fun p P hP place result hplace houtcome ↦ hfits.next_outcome h hs hP hplace houtcome⟩

end Idle

end State

end Tarnos.Kernel
