import Tarnos.Kernel.Delivery
import Tarnos.Kernel.Fates

namespace Tarnos.Kernel

open Abi Arch Kcore Tarnos.Task Foundation.Transition Function Inner

variable {E : Type}

namespace State

def callOver (s : State E) (c : CoreId) (p : Pid) : Bool :=
  decide (s.sched.current c ≠ some p) ||
    match (s.cores c).errands, (s.cores c).main with
    | [], .user _ => true
    | _, _ => false

def carryOn [DecidableEq E] (c : CoreId) (p : Pid) : ℕ → State E → Option (State E)
  | 0, _ => none
  | n + 1, s => if s.callOver c p then some s else (s.next (go c)).bind (carryOn c p n)

def CarriesOn [DecidableEq E] (s : State E) (c : CoreId) (p : Pid) (u : State E) : Prop :=
  ∃ n, carryOn c p n s = some u

/-- `p` traps on core `c` with the registers `f`, and the core carries out the call. -/
def Performs [DecidableEq E] (s : State E) (c : CoreId) (p : Pid) (f : TrapFrame) (u : State E) :
    Prop :=
  ∃ t, s.next ⟨c, .trap .syscall f⟩ = some t ∧ t.CarriesOn c p u

/-- `p` is in ring 3 on core `c`, its record `P` is that of a running process for which no wake is
pending, and it is not in the ready queue, which has room for it. -/
structure InRing3 (s : State E) (c : CoreId) (p : Pid) (P : Process E) : Prop where
  current : s.sched.current c = some p
  errands : (s.cores c).errands = []
  user : ∃ g, (s.cores c).main = .user g
  view : s.sched.view p = .occupied P
  stored : P.pid = p
  running : P.state = .running
  pending : P.pendingWake = none
  queue : p ∉ s.sched.queue
  room : s.sched.queue.length < maxProcesses

/-- `p`, in ring 3 on core `c`, is about to make the call `number` on a capability for `e`. -/
structure Calls (s : State E) (c : CoreId) (p : Pid) (f : TrapFrame) (number : UInt64)
    (right : Rights) (e : E) : Prop where
  ring3 : ring3Frame f = true
  number : f.rax = number
  caller : ∃ P, s.InRing3 c p P ∧ resolveEndpoint P ⟨f.rdi.toUInt32⟩ right = .ok e

inductive HasRegisters (s : State E) (p : Pid) (f : TrapFrame) : Prop
  | running {c : CoreId} (hc : s.sched.current c = some p) (hmain : (s.cores c).main = .user f)
  | saved {P : Process E} (hP : s.sched.view p = .occupied P) (hstate : P.state ≠ .running)
      (hframe : P.trapFrame = f)

def Runnable (s : State E) (p : Pid) : Prop :=
  ∃ P, s.sched.view p = .occupied P ∧ P.pendingWake = none ∧
    (P.state = .ready ∧ p ∈ s.sched.queue ∨ P.state = .running ∧ ∃ c, s.sched.current c = some p)

def readied (s : State E) (p : Pid) : ℕ :=
  s.sched.history.entered.count p + s.sched.history.refused.count p

/-- The message of the call `f` of `sender` has reached the call `g` of `receiver` at `e`. -/
structure Met (s : State E) (e : E) (sender receiver : Pid) (f g : TrapFrame) : Prop where
  slot : s.endpoints e = .empty
  sent : s.HasRegisters sender (f.withRax 0)
  received : s.HasRegisters receiver (recvRegisters g (sendMessage f))
  sender : s.Runnable sender
  receiver : s.Runnable receiver

/-- At an endpoint that is empty `p` makes its call. Then the machine runs on, but nobody comes to
the endpoint or touches the record of `p`, until `q` is about to make its call. -/
structure InTurn [DecidableEq E] (e : E) (p : Pid) (f : TrapFrame) (first : UInt64 × Rights)
    (q : Pid) (g : TrapFrame) (second : UInt64 × Rights) (c d : CoreId) (s s₁ s₂ : State E) :
    Prop where
  empty : s.endpoints e = .empty
  calls : s.Calls c p f first.1 first.2 e
  performs : s.Performs c p f s₁
  meanwhile : Reach next (fun _ _ ↦ True) s₁ s₂
  slot : s₂.endpoints e = s₁.endpoints e
  waits : s₂.sched.view p = s₁.sched.view p
  answers : s₂.Calls d q g second.1 second.2 e

/-- Whoever is next in the ready queue passes the assertions of `switch_to` on its frame. -/
def NextResumes (s : State E) : Prop :=
  ∀ p rest P, s.sched.queue = p :: rest → s.sched.view p = .occupied P →
    frameAssertions P.trapFrame = .ok ()

def inside (s : State E) (c : CoreId) (m : Main E) (errands : List (Errand E)) : State E :=
  s.setCore c { s.cores c with main := m, errands := errands, stack := (s.cores c).rsp0 }

section Inside

variable {s : State E} {c : CoreId} {m m' : Main E} {errands errands' : List (Errand E)}

@[simp] theorem inside_main : ((s.inside c m errands).cores c).main = m := by
  rw [inside, setCore_self]

@[simp] theorem inside_errands : ((s.inside c m errands).cores c).errands = errands := by
  rw [inside, setCore_self]

@[simp] theorem inside_sched : (s.inside c m errands).sched = s.sched := rfl

@[simp] theorem inside_endpoints : (s.inside c m errands).endpoints = s.endpoints := rfl

@[simp] theorem inside_nextId : (s.inside c m errands).nextId = s.nextId := rfl

theorem inside_setEndpoint [DecidableEq E] (e : E) (slot : EndpointSlot) :
    (s.inside c m errands).setEndpoint e slot = (s.setEndpoint e slot).inside c m errands := rfl

theorem inside_accept : (s.inside c m errands).accept = s.accept.inside c m errands := rfl

theorem inside_record (x : Event E) :
    (s.inside c m errands).record x = (s.record x).inside c m errands := rfl

theorem inside_wakeBlockedProcess (p : Pid) (result : WakeResult) :
    (s.inside c m errands).wakeBlockedProcess p result =
      (s.wakeBlockedProcess p result).inside c m errands := rfl

@[simp] theorem inside_goto : (s.inside c m errands).goto c m' errands' = s.inside c m' errands' := by
  simp [inside, goto, setCore]

end Inside

section CarriesOn

variable [DecidableEq E] {s t u : State E} {c : CoreId} {p : Pid}

theorem carriesOn_over (h : s.callOver c p = true) : s.CarriesOn c p u ↔ u = s := by
  constructor
  · rintro ⟨n, hn⟩
    cases n with
    | zero => cases hn
    | succ n =>
      rw [carryOn, if_pos h] at hn
      cases hn
      rfl
  · rintro rfl
    refine ⟨1, ?_⟩
    rw [carryOn, if_pos h]

theorem carriesOn_step (h : s.callOver c p = false) (hs : s.next (go c) = some t) :
    s.CarriesOn c p u ↔ t.CarriesOn c p u := by
  have hnext : ∀ n, carryOn c p (n + 1) s = carryOn c p n t := by
    intro n
    rw [carryOn, h, hs]
    rfl
  constructor
  · rintro ⟨n, hn⟩
    cases n with
    | zero => cases hn
    | succ n => exact ⟨n, (hnext n).symm.trans hn⟩
  · rintro ⟨n, hn⟩
    exact ⟨n + 1, (hnext n).trans hn⟩

def Passes (s : State E) (c : CoreId) (p : Pid) (t : State E) : Prop :=
  ∀ u, s.CarriesOn c p u ↔ t.CarriesOn c p u

theorem Passes.trans (h : s.Passes c p t) (h' : t.Passes c p u) : s.Passes c p u :=
  fun v ↦ (h v).trans (h' v)

theorem Passes.one (hcurrent : s.sched.current c = some p)
    (hmain : (s.cores c).errands ≠ [] ∨ ∀ f, (s.cores c).main ≠ .user f)
    (hs : s.next (go c) = some t) : s.Passes c p t := by
  have hover : s.callOver c p = false := by
    unfold callOver
    rw [hcurrent]
    cases herr : (s.cores c).errands with
    | cons x rest => simp
    | nil =>
      cases hm : (s.cores c).main with
      | user f =>
        rcases hmain with hne | hne
        · exact absurd herr hne
        · exact absurd hm (hne f)
      | _ => simp
  exact fun u ↦ carriesOn_step hover hs

theorem Passes.main {m : Main E} (hcurrent : s.sched.current c = some p) (hmain : ∀ f, m ≠ .user f)
    (hs : (s.inside c m []).mainStep c m .go = .next t) : (s.inside c m []).Passes c p t := by
  refine .one hcurrent (.inr fun f ↦ ?_) ?_
  · rw [inside_main]
    exact hmain f
  · unfold next step
    simp only [go, inside_errands, inside_main, hs]
    rfl

theorem Passes.errand {m : Main E} {x : Errand E} {rest : List (Errand E)}
    (hcurrent : s.sched.current c = some p)
    (hs : (s.inside c m (x :: rest)).errandStep c x rest .go = .next t) :
    (s.inside c m (x :: rest)).Passes c p t := by
  refine .one hcurrent (.inl ?_) ?_
  · rw [inside_errands]
    exact List.cons_ne_nil x rest
  · unfold next step
    simp only [go, inside_errands, hs]
    rfl

end CarriesOn

section Entry

variable [DecidableEq E] {s u : State E} {c : CoreId} {p : Pid} {P : Process E} {f : TrapFrame}
  {e : E} {call : Call} {m : Main E}

theorem InRing3.enters (h : s.InRing3 c p P) (hring3 : ring3Frame f = true)
    (hdispatch : syscallDispatch f = (.withCurrent call f : Main E)) (hwrites : callWrites call P = P)
    (hrecord : ∀ t : State E, t.recordResolve P f call = t) (hon : callOn P f call = m) :
    ∀ u, s.Performs c p f u ↔ (s.inside c m []).CarriesOn c p u := by
  obtain ⟨g, huser⟩ := h.user
  have htrap : s.next ⟨c, .trap .syscall f⟩ = some (s.inside c (.withCurrent call f) []) := by
    unfold next step
    simp only [h.errands, huser, mainStep, trap, hring3, if_true, trapMain, hdispatch]
    rfl
  have hlookup : (s.inside c (.withCurrent call f) []).Passes c p
      (s.inside c (.withProcess call p f) []) := by
    refine .main h.current (by simp) ?_
    simp only [mainStep, withCurrent, inside_sched, h.current, inside_goto]
  have hresolve : (s.inside c (.withProcess call p f) []).Passes c p (s.inside c m []) := by
    refine .main h.current (by simp) ?_
    have hself : (s.inside c (.withProcess call p f) []).withSched (s.sched.setProcess p P) =
        s.inside c (.withProcess call p f) [] := by
      rw [setProcess_self h.view]
      rfl
    simp only [mainStep, withProcess, inside_sched, occupiedMut_eq_some.mpr h.view,
      hwrites, hself, hrecord, hon, inside_goto]
  intro u
  rw [← hlookup.trans hresolve u]
  constructor
  · rintro ⟨t, ht, hgoes⟩
    cases htrap.symm.trans ht
    exact hgoes
  · intro hgoes
    exact ⟨_, htrap, hgoes⟩

theorem Calls.enters_send (h : s.Calls c p f sysSend .send e) :
    ∀ u, s.Performs c p f u ↔ (s.inside c (.trySend e (sendMessage f) p f) []).CarriesOn c p u := by
  obtain ⟨P, hring3, hresolves⟩ := h.caller
  have hdispatch : syscallDispatch f = (.withCurrent .send f : Main E) := by
    unfold syscallDispatch
    rw [h.number]
    rfl
  refine hring3.enters h.ring3 hdispatch rfl (fun _ ↦ rfl) ?_
  rw [callOn, hresolves, hring3.stored]
  rfl

theorem Calls.enters_recv (h : s.Calls c p f sysRecv .recv e) :
    ∀ u, s.Performs c p f u ↔ (s.inside c (.tryRecv e p f) []).CarriesOn c p u := by
  obtain ⟨P, hring3, hresolves⟩ := h.caller
  have hdispatch : syscallDispatch f = (.withCurrent .recv f : Main E) := by
    unfold syscallDispatch
    rw [h.number]
    rfl
  refine hring3.enters h.ring3 hdispatch rfl (fun _ ↦ rfl) ?_
  rw [callOn, hresolves, hring3.stored]
  rfl

end Entry

section Blocking

variable {s t u : State E} {c : CoreId} {p : Pid} {P : Process E} {f : TrapFrame}

theorem blockCurrentProcessLocked_eq {sched : Inner E} (hc : sched.current c = some p)
    (hP : sched.view p = .occupied P) (hpending : P.pendingWake = none) :
    sched.blockCurrentProcessLocked c f =
      .ok ((sched.setProcess p { P with trapFrame := f, state := .blocked }).setCurrent c none) := by
  obtain ⟨i, hslot, hpid, hproc⟩ := slot_of_eq hP
  simp [blockCurrentProcessLocked, hc, hslot, hproc, hpending, setProcess]

theorem exists_switchTo {sched : Inner E} (hP : sched.view p = .occupied P) (hstored : P.pid = p)
    (hother : ∀ d, d ≠ c → sched.current d ≠ some p)
    (hframe : Inner.frameAssertions P.trapFrame = .ok ()) :
    ∃ R sched', sched.switchTo c p = .ok (R, sched') := by
  obtain ⟨i, hslot, hpid, hproc⟩ := Inner.slot_of_eq hP
  have hgen := (Inner.eq_pidAt_iff.mp hpid).2
  have hnot : ¬ ∃ d, d ≠ c ∧ sched.current d = some p := fun ⟨d, hd, hcur⟩ ↦ hother d hd hcur
  unfold Inner.switchTo
  simp only [hnot, if_false, hslot, hgen, ne_eq, not_true, hproc, hstored, hframe]
  exact ⟨_, _, rfl⟩

/-- A core that takes the next process, or none, puts nobody in the queue and takes nobody who is
not there. -/
theorem taken_switchToNextOrHalt (hcurrent : t.sched.current c = none) (hqueue : p ∉ t.sched.queue)
    (hs : t.switchToNextOrHalt c none [] = .next u) :
    u.endpoints = t.endpoints ∧ u.sched.current c ≠ some p ∧ ∀ q, u.readied q = t.readied q := by
  unfold switchToNextOrHalt at hs
  split at hs
  · rename_i pid popped hpop
    unfold switchTo at hs
    split at hs
    · cases hs
    · rename_i R sched hswitch
      cases hs
      obtain ⟨rest, hfront, rfl⟩ := pop_some hpop
      obtain ⟨R₀, hR₀, -, -, -, rfl⟩ := switchTo_ok hswitch
      have hview : (t.sched.pop.2.setCurrent c (some pid)).view pid = .occupied R₀ := hR₀
      obtain ⟨-, hcur, -, hhistory⟩ := setProcess_fields hview R
      refine ⟨rfl, ?_, fun q ↦ ?_⟩
      · change ((t.sched.pop.2.setCurrent c (some pid)).setProcess pid R).current c ≠ some p
        rw [hcur]
        simp only [setCurrent, update_self, ne_eq, Option.some.injEq]
        rintro rfl
        exact hqueue (by rw [hfront]; exact List.mem_cons_self)
      · change ((t.sched.pop.2.setCurrent c (some pid)).setProcess pid R).history.entered.count q +
          ((t.sched.pop.2.setCurrent c (some pid)).setProcess pid R).history.refused.count q = _
        rw [hhistory]
        rfl
  · rename_i popped hpop
    cases hs
    obtain ⟨-, rfl⟩ := pop_none hpop
    refine ⟨rfl, ?_, fun q ↦ rfl⟩
    change t.sched.current c ≠ some p
    rw [hcurrent]
    simp

theorem exists_switchToNextOrHalt (hfront : ∀ q popped, t.sched.pop = (some q, popped) →
      ∃ R sched, popped.switchTo c q = .ok (R, sched)) :
    ∃ u, t.switchToNextOrHalt c none [] = .next u := by
  unfold switchToNextOrHalt
  cases hpop : t.sched.pop with
  | mk front popped =>
    cases front with
    | none => exact ⟨_, rfl⟩
    | some q =>
      obtain ⟨R, sched, hswitch⟩ := hfront q popped hpop
      have hnext : (t.withSched popped).sched.switchTo c q = .ok (R, sched) := hswitch
      dsimp only
      unfold switchTo
      rw [hnext]
      exact ⟨_, rfl⟩

structure Blocks (s : State E) (c : CoreId) (p : Pid) (P : Process E) (f : TrapFrame) (u : State E) :
    Prop where
  endpoints : u.endpoints = s.endpoints
  view : u.sched.view p = .occupied { P with trapFrame := f, state := .blocked }
  readied : ∀ q, u.readied q = s.readied q

variable (hc : s.sched.current c = some p) (hP : s.sched.view p = .occupied P)
  (hpending : P.pendingWake = none) (hqueue : p ∉ s.sched.queue)

include hc hP hpending

theorem blockCurrent_blocks : ∃ sched : Inner E,
    s.sched.blockCurrentProcessLocked c f = .ok sched ∧
      sched.current = update s.sched.current c none ∧
      (∀ q, sched.view q =
        if q = p then .occupied { P with trapFrame := f, state := .blocked } else s.sched.view q) ∧
      sched.queue = s.sched.queue ∧ sched.history = s.sched.history := by
  obtain ⟨-, hcurrent, -, hhistory⟩ :=
    setProcess_fields hP { P with trapFrame := f, state := .blocked }
  refine ⟨_, blockCurrentProcessLocked_eq hc hP hpending, ?_, ?_, ?_, hhistory⟩
  · simp only [setCurrent, hcurrent]
  · exact view_setProcess hP { P with trapFrame := f, state := .blocked }
  · exact queue_setProcess s.sched p { P with trapFrame := f, state := .blocked }

include hqueue

variable [DecidableEq E]

theorem blocks_of_next (hs : (s.inside c (.blockCurrent f) []).next (go c) = some u) :
    u.callOver c p = true ∧ s.Blocks c p P f u := by
  obtain ⟨sched, hblock, hcurrent, hviews, hsame, hhistory⟩ :=
    blockCurrent_blocks (f := f) hc hP hpending
  have hfree : sched.current c = none := by rw [hcurrent, update_self]
  have hview : sched.view p = .occupied { P with trapFrame := f, state := .blocked } := by
    rw [hviews, if_pos rfl]
  have hstep := step_of_next hs
  unfold step at hstep
  simp only [go, inside_errands, inside_main, mainStep, blockCurrent, inside_sched,
    hblock] at hstep
  have hqueue' : p ∉ sched.queue := by
    rw [hsame]
    exact hqueue
  obtain ⟨hendpoints, hleft, hreadied⟩ := taken_switchToNextOrHalt (p := p) hfree hqueue' hstep
  refine ⟨?_, hendpoints, ?_, fun q ↦ ?_⟩
  · simp [callOver, hleft]
  · rcases view_switchToNextOrHalt hview hstep with hkept | ⟨-, hmem⟩
    · exact hkept
    · exact absurd hmem hqueue'
  · rw [hreadied q]
    change sched.history.entered.count q + sched.history.refused.count q = _
    rw [hhistory]
    rfl

theorem exists_blocks (hsound : s.sched.table.Sound) (hresumes : s.NextResumes) :
    ∃ u, (s.inside c (.blockCurrent f) []).next (go c) = some u := by
  obtain ⟨sched, hblock, hcurrent, hviews, hsame, -⟩ := blockCurrent_blocks (f := f) hc hP hpending
  obtain ⟨u, hu⟩ := exists_switchToNextOrHalt (c := c)
    (t := (s.inside c (.blockCurrent f) []).withSched sched) <| by
    intro q popped hpop
    obtain ⟨rest, hfront, rfl⟩ := pop_some hpop
    rw [show ((s.inside c (.blockCurrent f) []).withSched sched).sched.queue = sched.queue from rfl,
      hsame] at hfront
    have hmem : q ∈ s.sched.queue := by
      rw [hfront]
      exact List.mem_cons_self
    obtain ⟨Q, hQ, hready⟩ := (hsound.queued q).mp hmem
    have hqp : q ≠ p := by
      rintro rfl
      exact hqueue hmem
    have hview : sched.pop.2.view q = .occupied Q := by
      rw [view_pop, hviews, if_neg hqp]
      exact hQ
    have hother : ∀ d, d ≠ c → sched.pop.2.current d ≠ some q := by
      intro d hd
      change sched.current d ≠ some q
      rw [hcurrent, update_of_ne hd]
      exact hsound.not_current hQ (by rw [hready]; simp) d
    exact exists_switchTo hview (hsound.stored q Q hQ) hother (hresumes q rest Q hfront hQ)
  refine ⟨u, ?_⟩
  unfold next step
  simp only [go, inside_errands, inside_main, mainStep, blockCurrent, inside_sched, hblock]
  exact congrArg Outcome.toOption hu

theorem carriesOn_block : (s.inside c (.blockCurrent f) []).CarriesOn c p u ↔
    (s.inside c (.blockCurrent f) []).next (go c) = some u := by
  have hover : (s.inside c (.blockCurrent f) []).callOver c p = false := by
    simp [callOver, hc]
  constructor
  · rintro ⟨n, hn⟩
    cases n with
    | zero => cases hn
    | succ n =>
      rw [carryOn, hover] at hn
      obtain ⟨t, ht, hrest⟩ := Option.bind_eq_some_iff.mp hn
      obtain ⟨hdone, -⟩ := blocks_of_next hc hP hpending hqueue ht
      have heq := (carriesOn_over hdone).mp ⟨n, hrest⟩
      rw [ht, heq]
  · intro hs
    obtain ⟨hdone, -⟩ := blocks_of_next hc hP hpending hqueue hs
    exact (carriesOn_step hover hs).mpr ((carriesOn_over hdone).mpr rfl)

end Blocking

def WaitsWith (s : State E) (p : Pid) (f : TrapFrame) : Prop :=
  ∃ P, s.sched.view p = .occupied P ∧ P.state = .blocked ∧ P.trapFrame = f ∧ P.pendingWake = none

section First

variable [DecidableEq E] {s t b u : State E} {c : CoreId} {p : Pid} {P : Process E}
  {f : TrapFrame} {e : E}

theorem InRing3.blocks (h : s.InRing3 c p P) (hb : b.sched = s.sched)
    (henters : ∀ u, s.Performs c p f u ↔ t.CarriesOn c p u)
    (hpasses : t.Passes c p (b.inside c (.blockCurrent f) [])) :
    (s.sched.table.Sound → s.NextResumes → ∃ u, s.Performs c p f u) ∧
      ∀ u, s.Performs c p f u → u.endpoints = b.endpoints ∧ u.WaitsWith p f ∧
        ∀ q, u.readied q = s.readied q := by
  have hreadied : ∀ q, b.readied q = s.readied q := fun q ↦ by rw [readied, hb]; rfl
  have hresumes : s.NextResumes → b.NextResumes := fun hs ↦ by
    unfold NextResumes
    rw [hb]
    exact hs
  have hc := h.current
  have hP := h.view
  have hqueue := h.queue
  rw [← hb] at hc hP hqueue ⊢
  have hiff : ∀ u, s.Performs c p f u ↔ (b.inside c (.blockCurrent f) []).next (go c) = some u :=
    fun u ↦ (henters u).trans ((hpasses u).trans (carriesOn_block hc hP h.pending hqueue))
  constructor
  · intro hsound hnext
    obtain ⟨u, hu⟩ := exists_blocks (f := f) hc hP h.pending hqueue hsound (hresumes hnext)
    exact ⟨u, (hiff u).mpr hu⟩
  · intro u hu
    obtain ⟨-, hblocks⟩ := blocks_of_next hc hP h.pending hqueue ((hiff u).mp hu)
    refine ⟨hblocks.endpoints, ⟨_, hblocks.view, rfl, rfl, h.pending⟩, fun q ↦ ?_⟩
    rw [hblocks.readied, hreadied]

theorem Calls.first_send (h : s.Calls c p f sysSend .send e) (hempty : s.endpoints e = .empty) :
    (s.sched.table.Sound → s.NextResumes → ∃ u, s.Performs c p f u) ∧
      ∀ u, s.Performs c p f u →
        (u.endpoints e).entries = [(⟨s.nextId, sendMessage f⟩, .process p)] ∧
        u.WaitsWith p f ∧ ∀ q, u.readied q = s.readied q := by
  obtain ⟨P, hring3, -⟩ := h.caller
  obtain ⟨slot, htry, hentries⟩ : ∃ slot : EndpointSlot,
      (s.endpoints e).trySend ⟨s.nextId, sendMessage f⟩ (.process p) = (.enqueued, slot) ∧
      slot.entries = [(⟨s.nextId, sendMessage f⟩, .process p)] := by
    rw [hempty]
    exact ⟨_, rfl, Endpoint.Slot.singleton_queue (by decide) _⟩
  have hpasses : (s.inside c (.trySend e (sendMessage f) p f) []).Passes c p
      ((s.setEndpoint e slot).accept.inside c (.blockCurrent f) []) := by
    refine .main hring3.current (by simp) ?_
    simp only [mainStep, trySend, inside_endpoints, inside_nextId, htry,
      inside_setEndpoint, inside_accept, inside_goto]
  obtain ⟨hexists, hall⟩ := hring3.blocks (b := (s.setEndpoint e slot).accept) rfl h.enters_send hpasses
  refine ⟨hexists, fun u hu ↦ ?_⟩
  obtain ⟨hendpoints, hwaits, hreadied⟩ := hall u hu
  refine ⟨?_, hwaits, hreadied⟩
  rw [hendpoints]
  change (update s.endpoints e slot e).entries = _
  rw [update_self, hentries]

theorem Calls.first_recv (h : s.Calls c p f sysRecv .recv e) (hempty : s.endpoints e = .empty) :
    (s.sched.table.Sound → s.NextResumes → ∃ u, s.Performs c p f u) ∧
      ∀ u, s.Performs c p f u → u.endpoints e = .receiverWaiting (.process p) ∧
        u.WaitsWith p f ∧ ∀ q, u.readied q = s.readied q := by
  obtain ⟨P, hring3, -⟩ := h.caller
  have htry : (s.endpoints e).tryRecv (.process p) =
      some (.enqueued, .receiverWaiting (.process p)) := by
    rw [hempty]
    rfl
  have hpasses : (s.inside c (.tryRecv e p f) []).Passes c p
      ((s.setEndpoint e (.receiverWaiting (.process p))).inside c (.blockCurrent f) []) := by
    refine .main hring3.current (by simp) ?_
    simp only [mainStep, tryRecv, inside_endpoints, htry, inside_setEndpoint, inside_goto]
  obtain ⟨hexists, hall⟩ := hring3.blocks (b := s.setEndpoint e (.receiverWaiting (.process p))) rfl
    h.enters_recv hpasses
  refine ⟨hexists, fun u hu ↦ ?_⟩
  obtain ⟨hendpoints, hwaits, hreadied⟩ := hall u hu
  refine ⟨?_, hwaits, hreadied⟩
  rw [hendpoints]
  exact update_self e _ s.endpoints

end First

section Second

variable {s t b u : State E} {c : CoreId} {p q : Pid} {Q : Process E}
  {f g k : TrapFrame} {e : E} {result : WakeResult} {parcel : Parcel}

theorem tryRecv_singleton {slot : EndpointSlot} {sender : EndpointWaiter}
    (h : slot.entries = [(parcel, sender)]) (w : EndpointWaiter) :
    slot.tryRecv w = some (.delivered parcel sender, .empty) := by
  cases slot with
  | empty | receiverWaiting r => cases h
  | sendersWaiting queue =>
    obtain ⟨hval, hrest⟩ := queue.pop_cons (show queue.toList = (parcel, sender) :: [] from h)
    have hpop : queue.pop = (some (parcel, sender), queue.pop.2) := Prod.ext hval rfl
    have hempty : queue.pop.2.isEmpty = true := (queue.pop.2.isEmpty_iff).mpr hrest
    rw [Endpoint.Slot.tryRecv, hpop]
    simp only [hempty, if_true]

theorem readied_push (sched : Inner E) (p q : Pid) :
    (sched.push p).history.entered.count q + (sched.push p).history.refused.count q =
      sched.history.entered.count q + sched.history.refused.count q + if p = q then 1 else 0 := by
  unfold push
  dsimp only
  split
  · simp only [List.count_append, List.count_singleton, beq_iff_eq]
    omega
  · simp only [List.count_append, List.count_singleton, beq_iff_eq]
    omega

section

variable [DecidableEq E]

theorem carriesOn_leave (hc : b.sched.current c = some q) :
    ∃ u, (∀ v, (b.inside c (.leave k) []).CarriesOn c q v ↔ v = u) ∧
      u.sched = b.sched ∧ u.endpoints = b.endpoints ∧ (u.cores c).main = .user k := by
  obtain ⟨u, hu, hmain, herr, hsched, hendpoints⟩ : ∃ u,
      (b.inside c (.leave k) []).mainStep c (.leave k) .go = .next u ∧ (u.cores c).main = .user k ∧
      (u.cores c).errands = [] ∧ u.sched = b.sched ∧ u.endpoints = b.endpoints := by
    refine ⟨_, rfl, ?_, ?_, rfl, rfl⟩
    · rw [setCore_self]
    · rw [setCore_self]
  have hpasses : (b.inside c (.leave k) []).Passes c q u := .main hc (by simp) hu
  have hover : u.callOver c q = true := by simp [callOver, herr, hmain]
  exact ⟨u, fun v ↦ (hpasses v).trans (carriesOn_over hover), hsched, hendpoints, hmain⟩

end

theorem WaitsWith.wake (h : s.WaitsWith p f) (hroom : s.sched.queue.length < maxProcesses)
    (result : WakeResult) :
    (∃ P, (s.sched.wakeBlockedProcessLocked p result).view p = .occupied P ∧ P.state = .ready ∧
      P.trapFrame = result.applyTo f ∧ P.pendingWake = none) ∧
    p ∈ (s.sched.wakeBlockedProcessLocked p result).queue ∧
    (∀ q, q ≠ p → (s.sched.wakeBlockedProcessLocked p result).view q = s.sched.view q) ∧
    (s.sched.wakeBlockedProcessLocked p result).current = s.sched.current ∧
    ∀ q, (s.wakeBlockedProcess p result).readied q = s.readied q + if p = q then 1 else 0 := by
  obtain ⟨P, hP, hblocked, rfl, hpending⟩ := h
  have heq : s.sched.wakeBlockedProcessLocked p result =
      (s.sched.setProcess p (applyWakeResult P result)).push p := by
    rcases s.sched.wakeBlockedProcessLocked_cases p result with
      ⟨hnone, -⟩ | ⟨P₀, hP₀, hstate, -⟩ | ⟨P₀, hP₀, -, heq⟩
    · exact absurd hP (hnone P)
    · cases hP.symm.trans hP₀
      exact absurd hblocked hstate
    · cases hP.symm.trans hP₀
      exact heq
  obtain ⟨-, hcurrent, -, hhistory⟩ := setProcess_fields hP (applyWakeResult P result)
  refine ⟨⟨applyWakeResult P result, ?_, rfl, rfl, hpending⟩, ?_, fun q hq ↦ ?_, ?_, fun q ↦ ?_⟩
  · rw [heq, view_push, view_setProcess hP, if_pos rfl]
  · rw [heq, queue_push (by rwa [queue_setProcess])]
    exact List.mem_append_right _ List.mem_cons_self
  · rw [heq, view_push, view_setProcess hP, if_neg hq]
  · rw [heq]
    exact hcurrent
  · change (s.sched.wakeBlockedProcessLocked p result).history.entered.count q +
      (s.sched.wakeBlockedProcessLocked p result).history.refused.count q = _
    rw [heq, readied_push, hhistory]
    rfl

structure Through (s : State E) (e : E) (p q : Pid) (f k : TrapFrame) (result : WakeResult)
    (u : State E) : Prop where
  slot : u.endpoints e = .empty
  woken : u.HasRegisters p (result.applyTo f)
  returned : u.HasRegisters q k
  first : u.Runnable p
  second : u.Runnable q
  readied : ∀ r, u.readied r = s.readied r + if p = r then 1 else 0

variable [DecidableEq E]

theorem InRing3.returns (h : s.InRing3 c q Q) (hwaits : s.WaitsWith p f)
    (henters : ∀ u, s.Performs c q g u ↔ t.CarriesOn c q u)
    (hpasses : t.Passes c q (b.inside c (.leave k) []))
    (hsched : b.sched = s.sched.wakeBlockedProcessLocked p result) (hslot : b.endpoints e = .empty) :
    ∃ u, (∀ v, s.Performs c q g v ↔ v = u) ∧ s.Through e p q f k result u := by
  obtain ⟨⟨P, hP, hready, hframe, hnone⟩, hqueue, hothers, hcurrent, hreadied⟩ :=
    hwaits.wake h.room result
  have hqp : q ≠ p := by
    rintro rfl
    obtain ⟨P₀, hP₀, hblocked, -⟩ := hwaits
    cases h.view.symm.trans hP₀
    cases h.running.symm.trans hblocked
  have hc : b.sched.current c = some q := by
    rw [hsched, hcurrent]
    exact h.current
  obtain ⟨u, hiff, hsame, hendpoints, hmain⟩ := carriesOn_leave (k := k) hc
  have hfinal : u.sched = s.sched.wakeBlockedProcessLocked p result := hsame.trans hsched
  have hcu : u.sched.current c = some q := by
    rw [hsame]
    exact hc
  rw [← hfinal] at hP hqueue
  have hQ : u.sched.view q = .occupied Q := by
    rw [hfinal, hothers q hqp]
    exact h.view
  refine ⟨u, fun v ↦ (henters v).trans ((hpasses v).trans (hiff v)), ?_, ?_, ?_, ?_, ?_, ?_⟩
  · rw [hendpoints, hslot]
  · exact .saved hP (by rw [hready]; simp) hframe
  · exact .running hcu hmain
  · exact ⟨P, hP, hnone, .inl ⟨hready, hqueue⟩⟩
  · exact ⟨Q, hQ, h.pending, .inr ⟨h.running, c, hcu⟩⟩
  · intro r
    rw [← hreadied r]
    unfold readied
    rw [hfinal]
    rfl

theorem Calls.second_recv (h : s.Calls c q g sysRecv .recv e) (hwaits : s.WaitsWith p f)
    (hentries : (s.endpoints e).entries = [(parcel, .process p)]) :
    ∃ u, (∀ v, s.Performs c q g v ↔ v = u) ∧
      s.Through e p q f (recvRegisters g parcel.message) .sendCompleted u := by
  obtain ⟨Q, hring3, -⟩ := h.caller
  obtain ⟨P, hP, -⟩ := id hwaits
  let taken := (s.setEndpoint e .empty).record (.taken parcel.id q (s.isLive q))
  let woken := (taken.wakeBlockedProcess p .sendCompleted).record (.completed parcel.id)
  have hcurrent : woken.sched.current c = some q := by
    obtain ⟨-, -, -, hsame, -⟩ := hwaits.wake hring3.room .sendCompleted
    exact (congrFun hsame c).trans hring3.current
  have htakes : (s.inside c (.tryRecv e q g) []).Passes c q
      (taken.inside c (.recvReturn parcel q g) [.wakeSender p parcel.id]) := by
    refine .main hring3.current (by simp) ?_
    simp only [mainStep, tryRecv, inside_endpoints, tryRecv_singleton hentries,
      inside_setEndpoint, inside_record, inside_goto]
    rfl
  have hwakes : (taken.inside c (.recvReturn parcel q g) [.wakeSender p parcel.id]).Passes c q
      (woken.inside c (.recvReturn parcel q g) []) := by
    refine .errand hring3.current ?_
    have hlive : (taken.inside c (.recvReturn parcel q g) [.wakeSender p parcel.id]).isLive p = true :=
      isLive_iff.mpr ⟨P, hP⟩
    simp only [errandStep, hlive, if_true, resume, inside_wakeBlockedProcess, inside_record,
      inside_main, inside_goto, List.nil_append]
    rfl
  have hreturns : (woken.inside c (.recvReturn parcel q g) []).Passes c q
      ((woken.record (.handed parcel.id q (woken.isLive q))).inside c
        (.leave (recvRegisters g parcel.message)) []) := by
    refine .main hcurrent (by simp) ?_
    simp only [mainStep, inside_record, inside_goto]
    rfl
  refine hring3.returns hwaits h.enters_recv (htakes.trans (hwakes.trans hreturns)) rfl ?_
  exact update_self e _ s.endpoints

/-- The receiver is already there: the sender leaves the message, takes it out again on the
receiver's behalf and writes its registers. -/
theorem Calls.second_send (h : s.Calls c q g sysSend .send e) (hwaits : s.WaitsWith p f)
    (hslot : s.endpoints e = .receiverWaiting (.process p)) :
    ∃ u, (∀ v, s.Performs c q g v ↔ v = u) ∧
      s.Through e p q f (g.withRax 0) (recvCompleted (sendMessage g)) u := by
  obtain ⟨Q, hring3, -⟩ := h.caller
  let parcel : Parcel := ⟨s.nextId, sendMessage g⟩
  obtain ⟨queue, htry, hentries⟩ : ∃ queue : EndpointSlot,
      (s.endpoints e).trySend ⟨s.nextId, sendMessage g⟩ (.process q) =
        (.delivered (.process p), queue) ∧
      queue.entries = [(parcel, .none)] := by
    rw [hslot]
    exact ⟨_, rfl, Endpoint.Slot.singleton_queue (by decide) _⟩
  let left := (s.setEndpoint e queue).accept
  let taken := (left.setEndpoint e .empty).record (.taken parcel.id p (left.isLive p))
  let woken := (taken.wakeBlockedProcess p (recvCompleted parcel.message)).record
    (.handed parcel.id p (taken.isLive p))
  have hcurrent : woken.sched.current c = some q := by
    obtain ⟨-, -, -, hsame, -⟩ := hwaits.wake hring3.room (recvCompleted parcel.message)
    exact (congrFun hsame c).trans hring3.current
  have hleaves : (s.inside c (.trySend e (sendMessage g) q g) []).Passes c q
      (left.inside c (.sendReturn parcel.id g) [.wakeReceiver e p]) := by
    refine .main hring3.current (by simp) ?_
    simp only [mainStep, trySend, inside_endpoints, inside_nextId, htry,
      inside_setEndpoint, inside_accept, inside_goto]
    rfl
  have htakes : (left.inside c (.sendReturn parcel.id g) [.wakeReceiver e p]).Passes c q
      (taken.inside c (.sendReturn parcel.id g) [.handOver p parcel]) := by
    refine .errand hring3.current ?_
    have hleft : (left.endpoints e).entries = [(parcel, .none)] := by
      change (update s.endpoints e queue e).entries = _
      rw [update_self, hentries]
    simp only [errandStep, wakeReceiver, inside_endpoints, tryRecv_singleton hleft,
      resume, inside_setEndpoint, inside_record, inside_main, inside_goto]
    rfl
  have hwakes : (taken.inside c (.sendReturn parcel.id g) [.handOver p parcel]).Passes c q
      (woken.inside c (.sendReturn parcel.id g) []) := by
    refine .errand hring3.current ?_
    simp only [errandStep, resume, inside_wakeBlockedProcess, inside_record, inside_main,
      inside_goto, List.nil_append]
    rfl
  have hreturns : (woken.inside c (.sendReturn parcel.id g) []).Passes c q
      ((woken.record (.completed parcel.id)).inside c (.leave (g.withRax 0)) []) := by
    refine .main hcurrent (by simp) ?_
    simp only [mainStep, inside_record, inside_goto]
  refine hring3.returns hwaits h.enters_send
    (hleaves.trans (htakes.trans (hwakes.trans hreturns))) rfl ?_
  exact update_self e _ _

end Second

section Orders

variable {s s₁ s₂ : State E} {c d : CoreId} {p : Pid} {P : Process E}
  {sender receiver : Pid} {f g : TrapFrame} {e : E}

theorem WaitsWith.of_view (h : s₁.WaitsWith p f) (hview : s₂.sched.view p = s₁.sched.view p) :
    s₂.WaitsWith p f := by
  obtain ⟨P, hP, hrest⟩ := h
  exact ⟨P, hview.trans hP, hrest⟩

section

variable [Fintype E]

theorem Inv.inRing3 {k : TrapFrame} (h : s.Inv False) (hc : s.sched.current c = some p)
    (hP : s.sched.view p = .occupied P) (herr : (s.cores c).errands = [])
    (hmain : (s.cores c).main = .user k) : s.InRing3 c p P := by
  have hparks : (s.scene.main c).parks = false := by
    change (s.cores c).main.parks = false
    rw [hmain]
    rfl
  have hrunning := h.scene.state_running hc hP
  have hqueue : p ∉ s.sched.queue := h.scene.sound.not_queued hP (by rw [hrunning]; simp)
  exact ⟨hc, herr, ⟨k, hmain⟩, hP, h.scene.sound.stored p P hP, hrunning,
    (h.scene.calm_current hc hP hparks).2, hqueue,
    queue_length_lt h.scene.sound (by rw [hP]; simp) hqueue⟩

end

variable [DecidableEq E]

theorem met_of_sender (h : InTurn e sender f (sysSend, .send) receiver g (sysRecv, .recv) c d s s₁ s₂) :
    ∃ u, (∀ v, s₂.Performs d receiver g v ↔ v = u) ∧ u.Met e sender receiver f g ∧
      ∀ r, (s₁.readied r - s.readied r) + (u.readied r - s₂.readied r) ≤ 1 := by
  obtain ⟨hentries, hwaits, hfirst⟩ := (h.calls.first_send h.empty).2 s₁ h.performs
  rw [← h.slot] at hentries
  obtain ⟨u, hiff, hthrough⟩ := h.answers.second_recv (hwaits.of_view h.waits) hentries
  refine ⟨u, hiff, ⟨hthrough.slot, hthrough.woken, hthrough.returned, hthrough.first,
    hthrough.second⟩, fun r ↦ ?_⟩
  rw [hfirst r, hthrough.readied r]
  split <;> omega

theorem met_of_receiver
    (h : InTurn e receiver g (sysRecv, .recv) sender f (sysSend, .send) d c s s₁ s₂) :
    ∃ u, (∀ v, s₂.Performs c sender f v ↔ v = u) ∧ u.Met e sender receiver f g ∧
      ∀ r, (s₁.readied r - s.readied r) + (u.readied r - s₂.readied r) ≤ 1 := by
  obtain ⟨hslot, hwaits, hfirst⟩ := (h.calls.first_recv h.empty).2 s₁ h.performs
  rw [← h.slot] at hslot
  obtain ⟨u, hiff, hthrough⟩ := h.answers.second_send (hwaits.of_view h.waits) hslot
  refine ⟨u, hiff, ⟨hthrough.slot, hthrough.returned, hthrough.woken, hthrough.second,
    hthrough.first⟩, fun r ↦ ?_⟩
  rw [hfirst r, hthrough.readied r]
  split <;> omega

variable [Fintype E]

/-- Whether the sender or the receiver comes first to an empty endpoint, the exchange ends in the
same way. In a state reached without a wrapped counter every process in ring 3 can be the one or the
other, and the first call is carried out if the next process in the queue can be resumed. -/
theorem rendezvous_either_order (config : BootConfig E) (e : E) (sender receiver : Pid)
    (f g : TrapFrame) :
    (∀ c d s s₁ s₂, InTurn e sender f (sysSend, .send) receiver g (sysRecv, .recv) c d s s₁ s₂ →
      ∃ u, (∀ v, s₂.Performs d receiver g v ↔ v = u) ∧ u.Met e sender receiver f g ∧
        ∀ r, (s₁.readied r - s.readied r) + (u.readied r - s₂.readied r) ≤ 1) ∧
    (∀ c d s s₁ s₂, InTurn e receiver g (sysRecv, .recv) sender f (sysSend, .send) d c s s₁ s₂ →
      ∃ u, (∀ v, s₂.Performs c sender f v ↔ v = u) ∧ u.Met e sender receiver f g ∧
        ∀ r, (s₁.readied r - s.readied r) + (u.readied r - s₂.readied r) ≤ 1) ∧
    ∀ c s, Reach next State.NoWrap (init config) s →
      (∀ p P k, s.sched.current c = some p → s.sched.view p = .occupied P →
        (s.cores c).errands = [] → (s.cores c).main = .user k → s.InRing3 c p P) ∧
      (s.endpoints e = .empty → s.NextResumes →
        (s.Calls c sender f sysSend .send e → ∃ s₁, s.Performs c sender f s₁) ∧
        (s.Calls c receiver g sysRecv .recv e → ∃ s₁, s.Performs c receiver g s₁)) := by
  refine ⟨?_, ?_, ?_⟩
  · intro c d s s₁ s₂ h
    exact met_of_sender h
  · intro c d s s₁ s₂ h
    exact met_of_receiver h
  · intro c s hrun
    have hinv : s.Inv False := inv_of_noWrap (fun _ _ hok ↦ hok) hrun
    constructor
    · intro p P k hc hP herr hmain
      exact hinv.inRing3 hc hP herr hmain
    · intro hempty hresumes
      constructor
      · intro hcalls
        exact (hcalls.first_send hempty).1 hinv.scene.sound hresumes
      · intro hcalls
        exact (hcalls.first_recv hempty).1 hinv.scene.sound hresumes

end Orders

def callsNow [DecidableEq E] (s : State E) (c : CoreId) (p : Pid) (f : TrapFrame) (number : UInt64)
    (right : Rights) (e : E) : Bool :=
  decide (s.sched.current c = some p ∧ ring3Frame f = true ∧ f.rax = number ∧ p ∉ s.sched.queue ∧
    s.sched.queue.length < maxProcesses) &&
  (match (s.cores c).errands, (s.cores c).main with
    | [], .user _ => true
    | _, _ => false) &&
  (s.sched.occupiedMut p).any fun P ↦
    decide (P.pid = p ∧ P.state = .running ∧ P.pendingWake = none) &&
      match resolveEndpoint P ⟨f.rdi.toUInt32⟩ right with
      | .ok e' => decide (e' = e)
      | .error _ => false

theorem Calls.of_callsNow [DecidableEq E] {s : State E} {c : CoreId} {p : Pid} {f : TrapFrame}
    {number : UInt64} {right : Rights} {e : E} (h : s.callsNow c p f number right e = true) :
    s.Calls c p f number right e := by
  unfold callsNow at h
  simp only [Bool.and_eq_true, Option.any_eq_true, decide_eq_true_eq] at h
  obtain ⟨⟨⟨hc, hring3, hnumber, hqueue, hroom⟩, huser⟩, P, hP, ⟨hstored, hrunning, hpending⟩,
    hcap⟩ := h
  have hview := occupiedMut_eq_some.mp hP
  have hplace : (s.cores c).errands = [] ∧ ∃ g, (s.cores c).main = .user g := by
    split at huser
    · rename_i g herr hmain
      exact ⟨herr, g, hmain⟩
    · cases huser
  have hresolves : resolveEndpoint P ⟨f.rdi.toUInt32⟩ right = .ok e := by
    split at hcap
    · rename_i e' hok
      rw [hok, of_decide_eq_true hcap]
    · cases hcap
  exact ⟨hring3, hnumber, P, ⟨hc, hplace.1, hplace.2, hview, hstored, hrunning, hpending, hqueue,
    hroom⟩, hresolves⟩

def perform [DecidableEq E] (s : State E) (c : CoreId) (p : Pid) (f : TrapFrame) (n : ℕ) :
    Option (State E) :=
  (s.next ⟨c, .trap .syscall f⟩).bind (carryOn c p n)

theorem Performs.of_perform [DecidableEq E] {s u : State E} {c : CoreId} {p : Pid} {f : TrapFrame}
    {n : ℕ} (h : s.perform c p f n = some u) : s.Performs c p f u := by
  obtain ⟨t, ht, hu⟩ := Option.bind_eq_some_iff.mp h
  exact ⟨t, ht, n, hu⟩

def isEmptySlot : EndpointSlot → Bool
  | .empty => true
  | _ => false

theorem eq_empty_of_isEmptySlot {slot : EndpointSlot} (h : isEmptySlot slot = true) :
    slot = .empty := by
  cases slot with
  | empty => rfl
  | _ => cases h

def offerFrame : TrapFrame := { userFrame with rax := sysSend, rsi := 7, rdx := 1, r10 := 2, r8 := 3 }

def askFrame : TrapFrame := { userFrame with rax := sysRecv }

theorem inTurn_of_bothRun (p : Pid) (f : TrapFrame) (first : UInt64 × Rights) (q : Pid)
    (g : TrapFrame) (second : UInt64 × Rights) (c d : CoreId)
    (h : ((run next (init soloEndpoint) bothRun).bind fun s ↦
      (s.perform c p f 9).map fun s₁ ↦ isEmptySlot (s.endpoints ()) &&
        s.callsNow c p f first.1 first.2 () && s₁.callsNow d q g second.1 second.2 ()) = some true) :
    ∃ s s₁, InTurn () p f first q g second c d s s₁ s₁ := by
  obtain ⟨s, -, hs⟩ := Option.bind_eq_some_iff.mp h
  obtain ⟨s₁, hs₁, hcheck⟩ := Option.map_eq_some_iff.mp hs
  simp only [Bool.and_eq_true] at hcheck
  obtain ⟨⟨hempty, hfirst⟩, hsecond⟩ := hcheck
  exact ⟨s, s₁, eq_empty_of_isEmptySlot hempty, .of_callsNow hfirst, .of_perform hs₁, .refl, rfl, rfl,
    .of_callsNow hsecond⟩

theorem rendezvous_either_order_bothRun :
    (∃ s s₁ u, InTurn () (Pid.new 0 1) offerFrame (sysSend, .send) twin askFrame (sysRecv, .recv) 0 1
        s s₁ s₁ ∧ s₁.Performs 1 twin askFrame u ∧
      u.Met () (Pid.new 0 1) twin offerFrame askFrame) ∧
    ∃ s s₁ u, InTurn () twin askFrame (sysRecv, .recv) (Pid.new 0 1) offerFrame (sysSend, .send) 1 0
        s s₁ s₁ ∧ s₁.Performs 0 (Pid.new 0 1) offerFrame u ∧
      u.Met () (Pid.new 0 1) twin offerFrame askFrame := by
  obtain ⟨hsender, hreceiver, -⟩ :=
    rendezvous_either_order soloEndpoint () (Pid.new 0 1) twin offerFrame askFrame
  constructor
  · obtain ⟨s, s₁, hturn⟩ := inTurn_of_bothRun (Pid.new 0 1) offerFrame (sysSend, .send) twin askFrame
      (sysRecv, .recv) 0 1 (by decide +kernel)
    obtain ⟨u, hiff, hmet, -⟩ := hsender 0 1 s s₁ s₁ hturn
    exact ⟨s, s₁, u, hturn, (hiff u).mpr rfl, hmet⟩
  · obtain ⟨s, s₁, hturn⟩ := inTurn_of_bothRun twin askFrame (sysRecv, .recv) (Pid.new 0 1) offerFrame
      (sysSend, .send) 1 0 (by decide +kernel)
    obtain ⟨u, hiff, hmet, -⟩ := hreceiver 0 1 s s₁ s₁ hturn
    exact ⟨s, s₁, u, hturn, (hiff u).mpr rfl, hmet⟩

end State

end Tarnos.Kernel
