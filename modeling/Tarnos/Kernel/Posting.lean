import Tarnos.Foundation.Mail
import Tarnos.Kernel.Scene
import Tarnos.Kernel.Turn

namespace Tarnos.Kernel

open Abi Arch Kcore Tarnos.Task Foundation.Mail Function Errand Onward

variable {E : Type} {r : EndpointWaiter} {pid : Pid} {x : Errand E} {id : ℕ}

namespace Errand

def carries : Errand E → Option ℕ
  | .handOver _ parcel => some parcel.id
  | _ => none

def tells : Errand E → Option ℕ
  | .wakeSender _ id => some id
  | _ => none

def serves : Errand E → Option E
  | .wakeReceiver e _ => some e
  | _ => none

def receiver : Errand E → Option Pid
  | .wakeReceiver _ pid | .handOver pid _ => some pid
  | _ => none

structure Quiet (errand : Errand E) : Prop where
  carries : errand.carries = none
  tells : errand.tells = none
  serves : errand.serves = none
  receiver : errand.receiver = none

end Errand

namespace Main

def carries : Main E → Option ℕ
  | .recvReturn parcel _ _ => some parcel.id
  | _ => none

def sends : Main E → Option ℕ
  | .sendReturn id _ => some id
  | _ => none

end Main

namespace Event

def hands : Event E → Option ℕ
  | .handed id _ _ | .handedTask id => some id
  | _ => none

def completes : Event E → Option ℕ
  | .completed id => some id
  | _ => none

def leaves : Event E → Option ℕ
  | .displacedTask id => some id
  | _ => none

/-- The receiver a message was taken out for or handed to, and whether it was alive then. -/
def receiver : Event E → Option (Pid × Bool)
  | .taken _ pid live | .handed _ pid live => some (pid, live)
  | _ => none

end Event

section Load

variable {α : Type}

def load (f : Errand E → Option α) (errands : List (Errand E)) : Multiset α :=
  (errands.filterMap f : List α)

variable {f : Errand E → Option α}

@[simp] theorem load_nil : load f [] = 0 := rfl

@[simp] theorem load_append (l₁ l₂ : List (Errand E)) :
    load f (l₁ ++ l₂) = load f l₁ + load f l₂ := by
  simp [load]

theorem load_cons (x : Errand E) (l : List (Errand E)) :
    load f (x :: l) = ((f x).toList : Multiset α) + load f l := by
  cases hx : f x <;> simp [load, hx]

theorem load_eq_zero {l : List (Errand E)} (h : ∀ x ∈ l, f x = none) : load f l = 0 := by
  simpa [load, List.filterMap_eq_nil_iff] using h

end Load

def Core.courier (core : Core E) : Courier E where
  carried := (core.main.carries.toList : Multiset ℕ) + load carries core.errands
  telling := load tells core.errands
  serving := load serves core.errands
  sending := core.main.sends

def Onward.courier (o : Onward E) : Courier E where
  carried := (o.parked.carries.toList : Multiset ℕ) + load carries o.behind
  telling := load tells o.behind
  serving := load serves o.behind
  sending := o.parked.sends

def freeCourier : Courier E := ⟨0, 0, 0, none⟩

structure Core.Free (core : Core E) : Prop where
  carries : core.main.carries = none
  sends : core.main.sends = none
  errands : ∀ x ∈ core.errands, x.Quiet

theorem Core.Free.courier {core : Core E} (h : core.Free) : core.courier = freeCourier := by
  unfold Core.courier freeCourier
  rw [h.carries, h.sends, load_eq_zero fun x hx ↦ (h.errands x hx).carries,
    load_eq_zero fun x hx ↦ (h.errands x hx).tells, load_eq_zero fun x hx ↦ (h.errands x hx).serves]
  rfl

def queued (slot : EndpointSlot) : List ℕ := slot.entries.map fun entry ↦ entry.1.id

def logged (f : Event E → Option ℕ) (log : List (Event E)) : Multiset ℕ := (log.filterMap f : List ℕ)

theorem logged_cons_none {f : Event E → Option ℕ} {x : Event E} (h : f x = none)
    (log : List (Event E)) : logged f (x :: log) = logged f log := by
  simp [logged, h]

theorem logged_cons_some {f : Event E → Option ℕ} {x : Event E} (h : f x = some id)
    (log : List (Event E)) : logged f (x :: log) = id ::ₘ logged f log := by
  simp [logged, h]

namespace State

/-- The kernel's message passing as a post office whose couriers are the cores. -/
def post (s : State E) : Post E CoreId where
  queue e := queued (s.endpoints e)
  couriers c := (s.cores c).courier
  next := s.nextId
  handed := logged Event.hands s.log
  completed := logged Event.completes s.log
  left := logged Event.leaves s.log

/-- `p` waits in an endpoint for a message, or a core is on its way to it. -/
def Receives (s : State E) (p : Pid) : Prop :=
  (∃ e, (s.endpoints e).receiver? = some (.process p)) ∨
    ∃ c, ∃ x ∈ (s.cores c).errands, x.receiver = some p

/-- A step of core `c` is a step of the post office. Only real receivers are registered, new ones
are the caller of the core, and the log tells the truth about them. -/
structure Posting [DecidableEq E] (s : State E) (c : CoreId) (s' : State E) : Prop where
  step : Post.Step c s.post s'.post
  real : ∀ e, (s'.endpoints e).receiver? = some .none → (s.endpoints e).receiver? = some .none
  receives : ∀ p, s'.Receives p →
    s.Receives p ∨ (s.cores c).main.caller = some p ∧ s'.sched = s.sched
  flags : ∀ x ∈ s'.log, ∀ p live, x.receiver = some (p, live) → x ∈ s.log ∨
    live = s.isLive p ∧ (s.Receives p ∨ (s.cores c).main.caller = some p)

variable {s b s' : State E} {c : CoreId}

theorem post_setCore (core : Core E) :
    (b.setCore c core).post = { b.post with couriers := update b.post.couriers c core.courier } := by
  have hcouriers : (fun d ↦ ((b.setCore c core).cores d).courier) =
      update (fun d ↦ (b.cores d).courier) c core.courier := by
    funext d
    by_cases hd : d = c
    · subst hd
      simp [setCore]
    · simp [setCore, hd]
  unfold post
  rw [hcouriers]
  rfl

theorem post_setEndpoint [DecidableEq E] (e : E) (slot : EndpointSlot) :
    (b.setEndpoint e slot).post = { b.post with queue := update b.post.queue e (queued slot) } := by
  have hqueue : (fun e' ↦ queued ((b.setEndpoint e slot).endpoints e')) =
      update (fun e' ↦ queued (b.endpoints e')) e (queued slot) := by
    funext e'
    by_cases he : e' = e
    · subst he
      simp [setEndpoint]
    · simp [setEndpoint, he]
  unfold post
  rw [hqueue]
  rfl

structure Unposted (s b : State E) : Prop where
  cores : b.cores = s.cores
  post : b.post = s.post
  endpoints : b.endpoints = s.endpoints
  log : ∀ x ∈ b.log, x.receiver ≠ none → x ∈ s.log

theorem Unposted.withSched (s : State E) (sched : Inner E) : s.Unposted (s.withSched sched) :=
  ⟨rfl, rfl, rfl, fun _ hx _ ↦ hx⟩

section

variable [DecidableEq E]

theorem Posting.silent {core : Core E} (hold : (s.cores c).Free) (hb : s.Unposted b)
    (hnew : core.Free) : s.Posting c (b.setCore c core) := by
  refine ⟨?_, fun e he ↦ ?_, fun p hp ↦ ?_, fun x hx p live hr ↦ ?_⟩
  · rw [post_setCore, hb.post, hnew.courier, ← hold.courier]
    exact .rest rfl le_rfl (fun e he ↦ .inl he) rfl
  · rw [← hb.endpoints]
    exact he
  · apply Or.inl
    rcases hp with ⟨e, he⟩ | ⟨d, x, hx, hr⟩
    · exact .inl ⟨e, by rw [← hb.endpoints]; exact he⟩
    · by_cases hd : d = c
      · subst hd
        rw [show ((b.setCore d core).cores d) = core from update_self ..] at hx
        rw [(hnew.errands x hx).receiver] at hr
        cases hr
      · rw [show (b.setCore c core).cores d = b.cores d from update_of_ne hd _ _, hb.cores] at hx
        exact .inr ⟨d, x, hx, hr⟩
  · exact .inl (hb.log x hx (by rw [hr]; simp))

end

section Silent

variable {m : Main E} {errands : List (Errand E)} {f : TrapFrame}

theorem quiet_of_housekeeping (h : ∀ x ∈ errands, x.housekeeping = true) :
    ∀ x ∈ errands, x.Quiet := by
  intro x hx
  have hkeeping := h x hx
  cases x with
  | runReadyTasks | dropBox | clearStackBusy => exact ⟨rfl, rfl, rfl, rfl⟩
  | _ => cases hkeeping

theorem Unposted.record {event : Event E} (hb : s.Unposted b) (hreceiver : event.receiver = none)
    (hhands : event.hands = none) (hcompletes : event.completes = none)
    (hleaves : event.leaves = none) : s.Unposted (b.record event) := by
  refine ⟨hb.cores, ?_, hb.endpoints, fun x hx hr ↦ ?_⟩
  · rw [← hb.post]
    unfold State.post State.record
    simp only [logged_cons_none hhands, logged_cons_none hcompletes, logged_cons_none hleaves]
  · rcases List.mem_cons.mp hx with rfl | hx
    · exact absurd hreceiver hr
    · exact hb.log x hx hr

theorem orLeave_free {α : Type} {result : Except SyscallError α} {k : α → Main E}
    (hk : ∀ a, (k a).carries = none ∧ (k a).sends = none) :
    (orLeave f result k).carries = none ∧ (orLeave f result k).sends = none := by
  cases result with
  | error e => exact ⟨rfl, rfl⟩
  | ok a => exact hk a

theorem trapMain_free (kind : Trap) :
    (trapMain kind f : Main E).carries = none ∧ (trapMain kind f : Main E).sends = none := by
  cases kind with
  | syscall =>
    exact syscallDispatch_induction (motive := fun m ↦ m.carries = none ∧ m.sends = none) f
      ⟨rfl, rfl⟩ (fun _ ↦ ⟨rfl, rfl⟩) (fun _ ↦ ⟨rfl, rfl⟩) fun _ ↦ ⟨rfl, rfl⟩
  | _ => exact ⟨rfl, rfl⟩

theorem quiet_runReadyTasks : ∀ x ∈ [(runReadyTasks : Errand E)], x.Quiet :=
  quiet_of_housekeeping housekeeping_tasks

theorem quiet_dying (dying : List (CapabilitySlot (KernelObjectRef E))) (drops : List (Process E)) :
    ∀ x ∈ wakeOrphanedReceivers dying :: drops.map dropBox, x.Quiet := by
  intro x hx
  rcases List.mem_cons.mp hx with rfl | hx
  · exact ⟨rfl, rfl, rfl, rfl⟩
  · exact quiet_of_housekeeping (housekeeping_drops drops) x hx

theorem unposted_recordResolve (sched : Inner E) (process : Process E) (call : Call) :
    s.Unposted ((s.withSched sched).recordResolve process f call) := by
  unfold recordResolve
  split
  · exact Unposted.record (.withSched s sched) rfl rfl rfl rfl
  · exact .withSched s sched

variable [DecidableEq E]

theorem Posting.goto (hold : (s.cores c).Free) (hb : s.Unposted b) (hcarries : m.carries = none)
    (hsends : m.sends = none) (herrands : ∀ x ∈ errands, x.Quiet) :
    s.Posting c (b.goto c m errands) :=
  .silent hold hb ⟨hcarries, hsends, herrands⟩

theorem Posting.leave (hold : (s.cores c).Free) (hb : s.Unposted b) :
    s.Posting c (b.goto c (.leave f) []) :=
  .goto hold hb rfl rfl fun _ hx ↦ absurd hx List.not_mem_nil

theorem Posting.bootSpawn {boot : BootProcess E} {rest : List (BootProcess E)}
    {sched : Inner E} {spaces : List ℕ} (hold : (s.cores c).Free) :
    s.Posting c (({ s with
      sched := sched
      spaces := spaces
      log := boot.seeds.map (fun seed ↦ .seeded pid seed.2) ++ s.log } : State E).goto c
        (.boot rest) []) := by
  refine .goto hold ⟨rfl, ?_, rfl, fun x hx hr ↦ ?_⟩ rfl rfl fun _ hx ↦ absurd hx List.not_mem_nil
  · simp [post, logged, Event.hands, Event.completes, Event.leaves, Function.comp_def]
  · rcases List.mem_append.mp hx with hx | hx
    · obtain ⟨seed, -, rfl⟩ := List.mem_map.mp hx
      exact absurd rfl hr
    · exact hx

theorem callOn_free (process : Process E) (call : Call) :
    (callOn process f call).carries = none ∧ (callOn process f call).sends = none := by
  cases call <;> first | exact ⟨rfl, rfl⟩ | exact orLeave_free fun _ ↦ ⟨rfl, rfl⟩

end Silent

section Mail

variable {e : E} {core : Core E} {p : Pid} {slot : EndpointSlot} {f : TrapFrame}
  {errand : Errand E} {rest more : List (Errand E)}

theorem receives_errand (herr : (s.cores c).errands = errand :: rest)
    (hr : errand.receiver = some p) : s.Receives p :=
  .inr ⟨c, errand, by rw [herr]; exact List.mem_cons_self, hr⟩

theorem receives_rest (herr : (s.cores c).errands = errand :: rest) (hx : x ∈ rest)
    (hr : x.receiver = some p) : s.Receives p :=
  .inr ⟨c, x, by rw [herr]; exact List.mem_cons_of_mem _ hx, hr⟩

theorem receives_waiting (hslot : s.endpoints e = .receiverWaiting r)
    (hr : r = .process p) : s.Receives p :=
  .inl ⟨e, by rw [hslot, hr]; rfl⟩

theorem receiver_receiverErrands
    (hx : x ∈ receiverErrands e r) (hr : x.receiver = some p) : r = .process p := by
  cases r with
  | process q =>
    rw [List.mem_singleton.mp hx] at hr
    rw [Option.some.inj hr]
  | _ => cases hx

theorem receiver_senderErrands
    (hx : x ∈ (senderErrands r id : List (Errand E))) : x.receiver = none := by
  cases r with
  | process q =>
    rw [List.mem_singleton.mp hx]
    rfl
  | _ => cases hx

@[simp] theorem load_carries_receiverErrands (r : EndpointWaiter) :
    load carries (receiverErrands e r) = 0 := by
  cases r <;> rfl

@[simp] theorem load_tells_receiverErrands (r : EndpointWaiter) :
    load tells (receiverErrands e r) = 0 := by
  cases r <;> rfl

@[simp] theorem load_carries_senderErrands (r : EndpointWaiter) (id : ℕ) :
    load (E := E) carries (senderErrands r id) = 0 := by
  cases r <;> rfl

@[simp] theorem load_serves_senderErrands (r : EndpointWaiter) (id : ℕ) :
    load (E := E) serves (senderErrands r id) = 0 := by
  cases r <;> rfl

theorem mem_load_tells_senderErrands {id x : ℕ}
    (hx : x ∈ load (E := E) tells (senderErrands r id)) : x = id := by
  cases r with
  | process q => exact Multiset.mem_singleton.mp hx
  | _ => exact absurd hx (Multiset.notMem_zero x)

theorem courier_errand (herr : (s.cores c).errands = errand :: rest) :
    s.post.couriers c =
      ⟨((s.cores c).main.carries.toList : Multiset ℕ) +
          ((errand.carries.toList : Multiset ℕ) + load carries rest),
        (errand.tells.toList : Multiset ℕ) + load tells rest,
        (errand.serves.toList : Multiset E) + load serves rest, (s.cores c).main.sends⟩ := by
  simp only [post, Core.courier, herr, load_cons]

theorem courier_resume (hcores : b.cores = s.cores) (more rest : List (Errand E)) :
    Core.courier { b.cores c with main := (b.cores c).main, errands := more ++ rest } =
      ⟨((s.cores c).main.carries.toList : Multiset ℕ) +
          (load carries more + load carries rest),
        load tells more + load tells rest,
        load serves more + load serves rest, (s.cores c).main.sends⟩ := by
  simp only [Core.courier, hcores, load_append]

section

variable [DecidableEq E]

theorem Receives.cases (hcores : b.cores = s.cores)
    (hendpoints : b.endpoints = update s.endpoints e slot) (h : (b.setCore c core).Receives p) :
    slot.receiver? = some (.process p) ∨ (∃ x ∈ core.errands, x.receiver = some p) ∨
      s.Receives p := by
  rcases h with ⟨e', he⟩ | ⟨d, x, hx, hr⟩
  · change (b.endpoints e').receiver? = _ at he
    rw [hendpoints] at he
    by_cases hee : e' = e
    · subst hee
      rw [update_self] at he
      exact .inl he
    · rw [update_of_ne hee] at he
      exact .inr (.inr (.inl ⟨e', he⟩))
  · by_cases hd : d = c
    · subst hd
      rw [show ((b.setCore d core).cores d) = core from update_self ..] at hx
      exact .inr (.inl ⟨x, hx, hr⟩)
    · rw [show (b.setCore c core).cores d = b.cores d from update_of_ne hd _ _, hcores] at hx
      exact .inr (.inr (.inr ⟨d, x, hx, hr⟩))

theorem Posting.exchange (hcores : b.cores = s.cores)
    (hendpoints : b.endpoints = update s.endpoints e slot)
    (hstep : Post.Step c s.post (b.setCore c core).post) (hreal : slot.receiver? ≠ some .none)
    (hslot : ∀ p, slot.receiver? = some (.process p) →
      s.Receives p ∨ (s.cores c).main.caller = some p ∧ b.sched = s.sched)
    (herrands : ∀ x ∈ core.errands, ∀ p, x.receiver = some p → s.Receives p)
    (hlog : ∀ x ∈ b.log, ∀ p live, x.receiver = some (p, live) → x ∈ s.log ∨
      live = s.isLive p ∧ (s.Receives p ∨ (s.cores c).main.caller = some p)) :
    s.Posting c (b.setCore c core) := by
  refine ⟨hstep, fun e' he ↦ ?_, fun p hp ↦ ?_, hlog⟩
  · change (b.endpoints e').receiver? = _ at he
    rw [hendpoints] at he
    by_cases hee : e' = e
    · subst hee
      rw [update_self] at he
      exact absurd he hreal
    · rwa [update_of_ne hee] at he
  · rcases Receives.cases hcores hendpoints hp with hr | ⟨x, hx, hr⟩ | hold
    · exact hslot p hr
    · exact .inl (herrands x hx p hr)
    · exact .inl hold

theorem Posting.accept (left : Multiset ℕ) (hcores : b.cores = s.cores)
    (hendpoints : b.endpoints = update s.endpoints e slot) (hrecv : slot.receiver? = none)
    (hpost : b.post = { s.post with
      queue := update s.post.queue e (s.post.queue e ++ [s.post.next])
      next := s.post.next + 1
      left := left })
    (hleft : s.post.left ≤ left) (hcarried : core.courier.carried = (s.post.couriers c).carried)
    (htelling : core.courier.telling = (s.post.couriers c).telling)
    (hserving : (s.post.couriers c).serving ≤ core.courier.serving)
    (hsending : core.courier.sending = (s.post.couriers c).sending ∨
      core.courier.sending = some s.post.next ∧
        (s.post.next ∈ left ∨ s.post.queue e = [] ∧ e ∈ core.courier.serving))
    (herrands : ∀ x ∈ core.errands, ∀ p, x.receiver = some p → s.Receives p)
    (hlog : ∀ x ∈ b.log, x.receiver ≠ none → x ∈ s.log) : s.Posting c (b.setCore c core) := by
  refine .exchange hcores hendpoints ?_ (by rw [hrecv]; simp) (by rw [hrecv]; simp) herrands
    fun x hx p live hr ↦ .inl (hlog x hx (by rw [hr]; simp))
  rw [post_setCore, hpost]
  exact .accept e hcarried htelling hserving hleft hsending

theorem post_accept (slot : EndpointSlot) (hqueued : queued slot = s.post.queue e ++ [s.nextId]) :
    (s.setEndpoint e slot).accept.post = { s.post with
      queue := update s.post.queue e (s.post.queue e ++ [s.post.next])
      next := s.post.next + 1 } := by
  have hset : (s.setEndpoint e slot).accept.post =
      { (s.setEndpoint e slot).post with next := s.post.next + 1 } := rfl
  rw [hset, post_setEndpoint, hqueued]
  rfl

theorem mem_log_accept {x : Event E} (hx : x ∈ (s.setEndpoint e slot).accept.log)
    (hr : x.receiver ≠ none) : x ∈ s.log := by
  rcases List.mem_cons.mp hx with rfl | hx
  · exact absurd rfl hr
  · exact hx

theorem Posting.move (hcores : b.cores = s.cores) (hendpoints : b.endpoints = s.endpoints)
    (hstep : Post.Step c s.post (b.setCore c core).post)
    (herrands : ∀ x ∈ core.errands, ∀ p, x.receiver = some p → s.Receives p)
    (hlog : ∀ x ∈ b.log, ∀ p live, x.receiver = some (p, live) → x ∈ s.log ∨
      live = s.isLive p ∧ (s.Receives p ∨ (s.cores c).main.caller = some p)) :
    s.Posting c (b.setCore c core) := by
  refine ⟨hstep, fun e he ↦ ?_, fun p hp ↦ .inl ?_, hlog⟩
  · rw [← hendpoints]
    exact he
  · rcases hp with ⟨e, he⟩ | ⟨d, x, hx, hr⟩
    · exact .inl ⟨e, by rw [← hendpoints]; exact he⟩
    · by_cases hd : d = c
      · subst hd
        rw [show (b.setCore d core).cores d = core from update_self ..] at hx
        exact herrands x hx p hr
      · rw [show (b.setCore c core).cores d = b.cores d from update_of_ne hd _ _, hcores] at hx
        exact .inr ⟨d, x, hx, hr⟩

theorem Posting.sendReturn (herr : (s.cores c).errands = [])
    (hmain : (s.cores c).main = .sendReturn id f) :
    s.Posting c ((s.record (.completed id)).goto c (.leave (f.withRax 0)) []) := by
  refine .move rfl rfl ?_ (fun x hx ↦ absurd hx List.not_mem_nil) fun x hx p live hr ↦ ?_
  · rw [post_setCore]
    refine .complete ?_ ?_ (.inr ⟨?_, ?_⟩) (.inl rfl)
    · simp [post, Core.courier, herr, hmain, Main.carries]
    · simp [post, Core.courier, herr]
    · simp [post, Core.courier, hmain, Main.sends]
    · simp [post, Core.courier, herr]
  · rcases List.mem_cons.mp hx with rfl | hx
    · cases hr
    · exact .inl hx

theorem Posting.recvReturn {parcel : Parcel} (herr : (s.cores c).errands = [])
    (hmain : (s.cores c).main = .recvReturn parcel pid f) :
    s.Posting c ((s.record (.handed parcel.id pid (s.isLive pid))).goto c
      (.leave (recvRegisters f parcel.message)) []) := by
  refine .move rfl rfl ?_ (fun x hx ↦ absurd hx List.not_mem_nil) fun x hx p live hr ↦ ?_
  · rw [post_setCore]
    refine .hand ?_ ?_ ?_ ?_
    · simp [post, Core.courier, herr, hmain, Main.carries]
    · simp [post, Core.courier, herr]
    · simp [post, Core.courier, herr]
    · simp [post, Core.courier, hmain, Main.sends]
  · rcases List.mem_cons.mp hx with rfl | hx
    · cases hr
      exact .inr ⟨rfl, .inr (by rw [hmain]; rfl)⟩
    · exact .inl hx

theorem Posting.pop (more : List (Errand E)) (herr : (s.cores c).errands = errand :: rest)
    (hb : s.Unposted b)
    (hcarries : errand.carries = none) (hserves : ∀ e, errand.serves = some e → s.post.queue e = [])
    (hmore : ∀ x ∈ more, x.Quiet) : s.Posting c (b.goto c (s.cores c).main (more ++ rest)) := by
  rw [← hb.cores]
  refine .move hb.cores hb.endpoints ?_ (fun x hx p hr ↦ ?_) fun x hx p live hr ↦
    .inl (hb.log x hx (by rw [hr]; simp))
  · rw [post_setCore, hb.post, courier_resume hb.cores,
      load_eq_zero fun x hx ↦ (hmore x hx).carries, load_eq_zero fun x hx ↦ (hmore x hx).tells,
      load_eq_zero fun x hx ↦ (hmore x hx).serves]
    refine .rest ?_ ?_ (fun e he ↦ ?_) ?_
    · rw [courier_errand herr, hcarries]
      rfl
    · rw [courier_errand herr]
      simp only [zero_add]
      exact Multiset.le_add_left _ _
    · rw [courier_errand herr] at he
      rcases Multiset.mem_add.mp he with he | he
      · exact .inr (hserves e (by simpa using he))
      · exact .inl (by simpa using he)
    · rw [courier_errand herr]
  · rcases List.mem_append.mp hx with hx | hx
    · rw [(hmore x hx).receiver] at hr
      cases hr
    · exact receives_rest herr hx hr

end

section Trades

variable {w : EndpointWaiter} {o : Onward E} {message : Message} {parcel : Parcel}

theorem Submits.courier (h : s.Submits c e message w o) :
    s.post.couriers c = o.courier ∧ (∀ parcel, (o.done parcel).carries = o.parked.carries) ∧
      o.refused.carries = o.parked.carries ∧ o.refused.sends = o.parked.sends := by
  refine ⟨?_, ?_⟩
  · cases h with
    | task herr => simp [courier_errand herr, courier, errand, carries,
        tells, serves]
    | call herr hmain => simp [post, Core.courier, courier, herr, hmain,
        Main.carries, Main.sends]
  · cases h <;> exact ⟨fun _ ↦ rfl, rfl, rfl⟩

theorem Asks.courier (h : s.Asks c e w o) :
    (∃ serving, s.post.couriers c = { o.courier with serving := serving } ∧
      ∀ x ∈ serving, x = e ∨ x ∈ o.courier.serving) ∧
      (∀ parcel, (o.done parcel).sends = o.parked.sends) ∧ o.refused.carries = o.parked.carries ∧
      o.refused.sends = o.parked.sends := by
  refine ⟨?_, by cases h <;> exact ⟨fun _ ↦ rfl, rfl, rfl⟩⟩
  cases h with
  | @task _ rest herr =>
    refine ⟨load serves rest, ?_, fun x hx ↦ .inr hx⟩
    simp [courier_errand herr, courier, errand, carries, tells,
      serves]
  | @displaced _ rest herr =>
    refine ⟨{e} + load serves rest, ?_, fun x hx ↦ ?_⟩
    · simp [courier_errand herr, courier, errand, carries, tells,
        serves]
    · exact (Multiset.mem_add.mp hx).imp_left Multiset.mem_singleton.mp
  | call herr hmain =>
    refine ⟨0, ?_, fun x hx ↦ absurd hx (Multiset.notMem_zero x)⟩
    simp [post, Core.courier, courier, herr, hmain, Main.carries, Main.sends]

variable [DecidableEq E]

theorem Posting.delivered (hreal : (s.endpoints e).receiver? ≠ some .none)
    (hsubmits : s.Submits c e message w o) (hslot : s.endpoints e = .receiverWaiting r)
    (hentries : slot.entries = [(⟨s.nextId, message⟩, .none)]) (hrecv : slot.receiver? = none)
    (htask : ∀ waker, r = .task waker → o.parked = (s.cores c).main) :
    s.Posting c ((s.setEndpoint e slot).accept.goto c (o.done ⟨s.nextId, message⟩)
      (receiverErrands e r ++ o.behind)) := by
  obtain ⟨hcourier, hdone, -⟩ := hsubmits.courier
  have hempty : s.post.queue e = [] := by simp [post, hslot, queued]
  have hqueued : queued slot = s.post.queue e ++ [s.nextId] := by simp [hempty, queued, hentries]
  refine .accept s.post.left rfl rfl hrecv (post_accept slot hqueued) le_rfl ?_ ?_ ?_ ?_
    (fun x hx p hr ↦ ?_) fun x hx hr ↦ mem_log_accept hx hr
  · rw [hcourier]
    simp [Core.courier, courier, hdone]
  · rw [hcourier]
    simp [Core.courier, courier]
  · rw [hcourier]
    simp [Core.courier, courier]
  · rw [hcourier]
    cases hsubmits with
    | task => exact .inl rfl
    | call herr hmain =>
      refine .inr ⟨rfl, .inr ⟨hempty, ?_⟩⟩
      cases r with
      | process q => exact Multiset.mem_singleton_self e
      | task waker => cases (htask waker rfl).trans hmain
      | none => exact absurd (by rw [hslot]; rfl) hreal
  · rcases List.mem_append.mp hx with hx | hx
    · exact receives_waiting hslot (receiver_receiverErrands hx hr)
    · exact .inr ⟨c, x, hsubmits.mem_errands hx, hr⟩

theorem Posting.displaced {waker : ℕ} (herr : (s.cores c).errands = [])
    (hmain : (s.cores c).main = .trySend e message pid f)
    (hslot : s.endpoints e = .receiverWaiting (.task waker))
    (hentries : slot.entries = [(⟨s.nextId, message⟩, .none)]) (hrecv : slot.receiver? = none) :
    s.Posting c (((s.setEndpoint e slot).accept.record (.displacedTask s.nextId)).goto c
      (.sendReturn s.nextId f) []) := by
  have hcourier := (Submits.call herr hmain).courier.1
  have hempty : s.post.queue e = [] := by simp [post, hslot, queued]
  have hqueued : queued slot = s.post.queue e ++ [s.nextId] := by simp [hempty, queued, hentries]
  refine .accept (s.post.next ::ₘ s.post.left) rfl rfl hrecv ?_ (Multiset.le_cons_self _ _)
    (by rw [hcourier]; rfl) (by rw [hcourier]; rfl) (by rw [hcourier]; exact Multiset.zero_le _)
    (.inr ⟨rfl, .inl (Multiset.mem_cons_self _ _)⟩) (fun x hx ↦ absurd hx List.not_mem_nil)
    fun x hx hr ↦ ?_
  · have hleft : ((s.setEndpoint e slot).accept.record (.displacedTask s.nextId)).post =
        { (s.setEndpoint e slot).accept.post with left := s.post.next ::ₘ s.post.left } := rfl
    exact hleft.trans (by rw [post_accept slot hqueued])
  · rcases List.mem_cons.mp hx with rfl | hx
    · exact absurd rfl hr
    · exact mem_log_accept hx hr

theorem Posting.enqueued (hsubmits : s.Submits c e message w o)
    (hentries : slot.entries = (s.endpoints e).entries ++ [(⟨s.nextId, message⟩, w)])
    (hrecv : slot.receiver? = none) :
    s.Posting c ((s.setEndpoint e slot).accept.goto c o.parked o.behind) := by
  have hcourier := hsubmits.courier.1
  have hqueued : queued slot = s.post.queue e ++ [s.nextId] := by simp [post, queued, hentries]
  refine .accept s.post.left rfl rfl hrecv (post_accept slot hqueued) le_rfl (by rw [hcourier]; rfl)
    (by rw [hcourier]; rfl) (by rw [hcourier]; rfl) (.inl (by rw [hcourier]; rfl))
    (fun x hx p hr ↦ .inr ⟨c, x, hsubmits.mem_errands hx, hr⟩) fun x hx hr ↦ mem_log_accept hx hr

theorem Posting.taken {sender : EndpointWaiter} (hasks : s.Asks c e w o)
    (hentries : (s.endpoints e).entries = (parcel, sender) :: slot.entries)
    (hrecv : slot.receiver? = none) :
    s.Posting c (((s.setEndpoint e slot).record (o.note parcel)).goto c (o.done parcel)
      (senderErrands sender parcel.id ++ o.hands parcel ++ o.behind)) := by
  obtain ⟨⟨serving, hcourier, hserving⟩, hsends, -⟩ := hasks.courier
  have hqueue : s.post.queue e = parcel.id :: queued slot := by simp [post, queued, hentries]
  have htells : load tells (o.hands parcel) = 0 := by cases hasks <;> rfl
  have hpost : ((s.setEndpoint e slot).record (o.note parcel)).post =
      { (s.setEndpoint e slot).post with
        handed := ((s.setEndpoint e slot).record (o.note parcel)).post.handed } := by
    cases hasks <;> rfl
  refine .exchange rfl rfl ?_ (by rw [hrecv]; simp) (by rw [hrecv]; simp) (fun x hx p hr ↦ ?_)
    fun x hx p live hr ↦ ?_
  · rw [post_setCore, hpost, post_setEndpoint]
    refine .take hqueue ?_ (fun x hx ↦ ?_) (fun x hx ↦ ?_) (by rw [hcourier]; exact hsends parcel)
    · rw [hcourier]
      cases hasks with
      | task => exact .inr ⟨by simp [Core.courier, courier, errand], rfl⟩
      | displaced => exact .inl ⟨by simp [Core.courier, courier, errand, load_cons,
          carries], rfl⟩
      | call => exact .inl ⟨by simp [Core.courier, courier, Main.carries], rfl⟩
    · rw [hcourier]
      change x ∈ load tells _ at hx
      rw [load_append, load_append, htells, add_zero] at hx
      exact (Multiset.mem_add.mp hx).imp_left mem_load_tells_senderErrands
    · rw [hcourier] at hx
      refine (hserving x hx).imp_right fun hx ↦ ?_
      change x ∈ load serves _
      rw [load_append]
      exact Multiset.mem_add.mpr (.inr hx)
  · rcases List.mem_append.mp hx with hx | hx
    · rcases List.mem_append.mp hx with hx | hx
      · cases (receiver_senderErrands hx).symm.trans hr
      · cases hasks with
        | displaced herr =>
          rw [List.mem_singleton.mp hx] at hr
          cases hr
          exact receives_errand herr rfl
        | _ => cases hx
    · exact .inr ⟨c, x, hasks.mem_errands hx, hr⟩
  · rcases List.mem_cons.mp hx with rfl | hx
    · cases hasks with
      | task => cases hr
      | displaced herr =>
        cases hr
        exact .inr ⟨rfl, .inl (receives_errand herr rfl)⟩
      | call herr hmain =>
        cases hr
        exact .inr ⟨rfl, .inr (by rw [hmain]; rfl)⟩
    · exact .inl hx

theorem Posting.registered (hasks : s.Asks c e w o) (hslot : s.endpoints e = .empty) :
    s.Posting c ((s.setEndpoint e (.receiverWaiting w)).goto c o.parked o.behind) := by
  obtain ⟨⟨serving, hcourier, hserving⟩, -⟩ := hasks.courier
  have hempty : s.post.queue e = [] := by simp [post, hslot, queued]
  refine .exchange rfl rfl ?_ ?_ (fun p hp ↦ ?_)
    (fun x hx p hr ↦ .inr ⟨c, x, hasks.mem_errands hx, hr⟩) fun x hx p live hr ↦ .inl hx
  · rw [post_setCore, post_setEndpoint,
      show queued (.receiverWaiting w) = s.post.queue e from hempty.symm, update_eq_self]
    refine .rest (by rw [hcourier]; rfl) (by rw [hcourier]; rfl) (fun x hx ↦ ?_) (by rw [hcourier]; rfl)
    rw [hcourier] at hx
    rcases hserving x hx with rfl | hx
    · exact .inr hempty
    · exact .inl hx
  · cases hasks <;> simp
  · cases hasks with
    | task => cases hp
    | displaced herr =>
      cases hp
      exact .inl (receives_errand herr rfl)
    | call herr hmain =>
      cases hp
      exact .inr ⟨by rw [hmain]; rfl, rfl⟩

theorem Posting.closed (herr : (s.cores c).errands = .takeWaitingReceiver e :: rest)
    (hslot : s.endpoints e = .receiverWaiting (.process pid)) :
    s.Posting c ((s.setEndpoint e .empty).goto c (s.cores c).main (.peerClosed pid :: rest)) := by
  refine .exchange rfl rfl ?_ (by simp) (fun p hp ↦ by cases hp) (fun x hx p hr ↦ ?_)
    fun x hx p live hr ↦ .inl hx
  · have hempty : queued (.empty : EndpointSlot) = s.post.queue e := by simp [post, hslot, queued]
    rw [post_setCore, post_setEndpoint, hempty, update_eq_self]
    have hcourier : s.post.couriers c =
        Core.courier
          { s.cores c with main := (s.cores c).main, errands := .peerClosed pid :: rest } := by
      simp [courier_errand herr, Core.courier, load_cons, carries, tells, serves]
    exact .rest (by rw [hcourier]; rfl) (by rw [hcourier]; rfl)
      (fun x hx ↦ .inl (by rw [hcourier] at hx; exact hx)) (by rw [hcourier]; rfl)
  · rcases List.mem_cons.mp hx with rfl | hx
    · cases hr
    · exact receives_rest herr hx hr

theorem Posting.refused (hcarried : (o.refused.carries.toList : Multiset ℕ) +
      load carries o.behind = (s.post.couriers c).carried)
    (htelling : load tells o.behind = (s.post.couriers c).telling)
    (hserving : ∀ x ∈ (s.post.couriers c).serving, x ∈ load serves o.behind ∨ s.post.queue x = [])
    (hsends : o.refused.sends = (s.post.couriers c).sending)
    (hbehind : ∀ x ∈ o.behind, x ∈ (s.cores c).errands) :
    s.Posting c (s.goto c o.refused o.behind) := by
  refine .move rfl rfl ?_ (fun x hx p hr ↦ .inr ⟨c, x, hbehind x hx, hr⟩) fun x hx p live hr ↦ .inl hx
  rw [post_setCore]
  exact .rest hcarried htelling.le hserving hsends

theorem Posting.trade (hreal : ∀ e, (s.endpoints e).receiver? ≠ some .none) (h : s.Trade c s') :
    s.Posting c s' := by
  cases h with
  | delivered hsubmits _ hslot hentries hrecv htask =>
    exact .delivered (hreal _) hsubmits hslot hentries hrecv htask
  | displaced herr hmain _ hslot hentries hrecv => exact .displaced herr hmain hslot hentries hrecv
  | enqueued hsubmits _ hentries hrecv => exact .enqueued hsubmits hentries hrecv
  | @refused e message w o hsubmits =>
    obtain ⟨hcourier, -, hcarries, hsends⟩ := hsubmits.courier
    exact .refused (by rw [hcourier, hcarries]; rfl) (by rw [hcourier]; rfl)
      (fun x hx ↦ .inl (by rwa [hcourier] at hx)) (by rw [hcourier, hsends]; rfl)
      fun x hx ↦ hsubmits.mem_errands hx
  | taken hasks _ hentries hrecv => exact .taken hasks hentries hrecv
  | registered hasks _ hslot => exact .registered hasks hslot
  | @unregistered e w r o hasks _ hslot =>
    obtain ⟨⟨serving, hcourier, hserving⟩, -, hcarries, hsends⟩ :=
      hasks.courier
    refine .refused (by rw [hcourier, hcarries]; rfl) (by rw [hcourier]; rfl) (fun x hx ↦ ?_)
      (by rw [hcourier, hsends]; rfl) fun x hx ↦ hasks.mem_errands hx
    rw [hcourier] at hx
    rcases hserving x hx with rfl | hx
    · exact .inr (by simp [post, hslot, queued])
    · exact .inl hx
  | closed herr hslot => exact .closed herr hslot
  | nobody herr =>
    exact .pop [] herr (.withSched s s.sched) rfl (fun e he ↦ by cases he) fun _ hx ↦ by cases hx

end Trades

theorem free_of_main {m : Main E} (herr : (s.cores c).errands = []) (hmain : (s.cores c).main = m)
    (hcarries : m.carries = none) (hsends : m.sends = none) : (s.cores c).Free :=
  ⟨hmain ▸ hcarries, hmain ▸ hsends, by rw [herr]; simp⟩

theorem Yields.unposted {m : Main E} (h : s.Yields c m b) :
    s.Unposted b ∧ m.carries = none ∧ m.sends = none := by
  cases h <;> exact ⟨⟨rfl, rfl, rfl, fun _ hx _ ↦ hx⟩, rfl, rfl⟩

variable [DecidableEq E]

theorem Posting.wakeSender (herr : (s.cores c).errands = .wakeSender pid id :: rest)
    (hs : ((s.wakeBlockedProcess pid .sendCompleted).record (.completed id)).resume c [] rest =
      .next s') : s.Posting c s' := by
  cases hs
  refine .move rfl rfl ?_ (fun x hx p hr ↦ receives_rest herr hx hr) fun x hx p live hr ↦ ?_
  · have hpost : ((s.wakeBlockedProcess pid .sendCompleted).record (.completed id)).post =
        { s.post with completed := id ::ₘ s.post.completed } := rfl
    rw [post_setCore, hpost, courier_resume (b := (s.wakeBlockedProcess pid _).record _) (s := s) rfl]
    refine .complete ?_ ?_ (.inl ?_) (.inr ⟨?_, ?_⟩)
    · rw [courier_errand herr]
      simp [carries]
    · rw [courier_errand herr]
      simp only [load_nil, zero_add]
      exact Multiset.le_add_left _ _
    · rw [courier_errand herr]
      exact Multiset.mem_add.mpr (.inl (Multiset.mem_singleton_self id))
    · rw [courier_errand herr]
    · rw [courier_errand herr]
      simp [serves]
  · rcases List.mem_cons.mp hx with rfl | hx
    · cases hr
    · exact .inl hx

theorem Posting.handOver {parcel : Parcel}
    (herr : (s.cores c).errands = .handOver pid parcel :: rest)
    (hs : ((s.wakeBlockedProcess pid (recvCompleted parcel.message)).record
      (.handed parcel.id pid (s.isLive pid))).resume c [] rest = .next s') : s.Posting c s' := by
  cases hs
  refine .move rfl rfl ?_ (fun x hx p hr ↦ receives_rest herr hx hr) fun x hx p live hr ↦ ?_
  · have hpost : ((s.wakeBlockedProcess pid (recvCompleted parcel.message)).record
        (.handed parcel.id pid (s.isLive pid))).post =
          { s.post with handed := parcel.id ::ₘ s.post.handed } := rfl
    rw [post_setCore, hpost, courier_resume (b := (s.wakeBlockedProcess pid _).record _) (s := s) rfl]
    refine .hand ?_ ?_ ?_ ?_
    · rw [courier_errand herr]
      simp [carries]
    · rw [courier_errand herr]
      simp [tells]
    · rw [courier_errand herr]
      simp [serves]
    · rw [courier_errand herr]
  · rcases List.mem_cons.mp hx with rfl | hx
    · cases hr
      exact .inr ⟨rfl, .inl (receives_errand herr rfl)⟩
    · exact .inl hx

theorem Posting.stay {m m' : Main E} (herr : (s.cores c).errands = [])
    (hmain : (s.cores c).main = m) (hstay : s.Stay c m m') : s.Posting c (s.goto c m' []) := by
  cases hstay <;>
    exact .goto (free_of_main herr hmain rfl rfl) (.withSched s s.sched) rfl rfl (by simp)

theorem Posting.yield {m : Main E} {sched : Inner E} (herr : (s.cores c).errands = [])
    (hmain : (s.cores c).main = m) (hyields : s.Yields c m b) (hcarries : core.main.carries = none)
    (hsends : core.main.sends = none) (hkeeping : ∀ x ∈ core.errands, x.housekeeping = true) :
    s.Posting c ((b.withSched sched).setCore c core) := by
  obtain ⟨hb, hold⟩ := hyields.unposted
  exact .silent (free_of_main herr hmain hold.1 hold.2) ⟨hb.cores, hb.post, hb.endpoints, hb.log⟩
    ⟨hcarries, hsends, quiet_of_housekeeping hkeeping⟩

theorem next_posting {a : Action E} (hreal : ∀ e, (s.endpoints e).receiver? ≠ some .none)
    (hs : s.next a = some s') : s.Posting a.core s' := by
  have hnone : ∀ x ∈ ([] : List (Errand E)), x.Quiet := fun _ hx ↦ absurd hx List.not_mem_nil
  have hsame : s.Unposted s := .withSched s s.sched
  cases next_turn hs with
  | tasks herr hmore =>
    refine .pop _ herr hsame rfl (fun e he ↦ by cases he) fun x hx ↦ ?_
    rcases hmore with rfl | ⟨e, message, waker, rfl⟩ | ⟨e, waker, rfl⟩
    · cases hx
    all_goals
      simp only [List.mem_cons, List.not_mem_nil, or_false] at hx
      rcases hx with rfl | rfl <;> exact ⟨rfl, rfl, rfl, rfl⟩
  | pollSend _ _ htrade | pollRecv _ _ htrade | wakeReceiver _ _ htrade
  | takeWaitingReceiver _ _ htrade | trySend _ _ _ htrade | tryRecv _ _ _ htrade =>
    exact .trade hreal htrade
  | wake herr hwakes =>
    cases hwakes with
    | sender =>
      split
      · exact .wakeSender herr rfl
      · exact .pop [] herr (.withSched s _) rfl (fun e he ↦ by cases he) hnone
    | receiver => exact .handOver herr rfl
    | orphan => exact .pop [] herr (.withSched s _) rfl (fun e he ↦ by cases he) hnone
  | orphans herr =>
    refine .pop _ herr hsame rfl (fun e he ↦ by cases he) fun x hx ↦ ?_
    obtain ⟨e, -, rfl⟩ := List.mem_map.mp hx
    exact ⟨rfl, rfl, rfl, rfl⟩
  | dropBox herr | clearStackBusy herr =>
    exact .pop [] herr ⟨rfl, rfl, rfl, fun _ hx _ ↦ hx⟩ rfl (fun e he ↦ by cases he) hnone
  | stay herr hmain hstay => exact .stay herr hmain hstay
  | bootDone herr hmain =>
    exact .silent (free_of_main herr hmain rfl rfl) hsame ⟨rfl, rfl, quiet_runReadyTasks⟩
  | bootSpawn herr hmain => exact .bootSpawn (free_of_main herr hmain rfl rfl)
  | @trap f _ kind herr hmain =>
    obtain ⟨hcarries, hsends⟩ := trapMain_free (E := E) (f := f) kind
    exact .silent (free_of_main herr hmain rfl rfl) hsame ⟨hcarries, hsends, hnone⟩
  | leave herr hmain => exact .silent (free_of_main herr hmain rfl rfl) hsame ⟨rfl, rfl, hnone⟩
  | @record call _ f P herr hmain =>
    obtain ⟨hcarries, hsends⟩ := callOn_free (f := f) P call
    exact .goto (free_of_main herr hmain rfl rfl) (unposted_recordResolve _ _ call) hcarries hsends
      hnone
  | sendReturn herr hmain => exact .sendReturn herr hmain
  | recvReturn herr hmain => exact .recvReturn herr hmain
  | bootAllocate herr hmain | allocate herr hmain | release herr hmain | start herr hmain
  | collect herr hmain =>
    exact .goto (free_of_main herr hmain rfl rfl) (.withSched s _) rfl rfl hnone
  | ignoreIpi herr hmain | load herr hmain | request herr hmain | withdraw herr hmain
  | mark herr hmain =>
    exact .goto (free_of_main herr hmain rfl rfl) ⟨rfl, rfl, rfl, fun _ hx _ ↦ hx⟩ rfl rfl hnone
  | spawn herr hmain | grant herr hmain =>
    exact .leave (free_of_main herr hmain rfl rfl) (.record (.withSched s _) rfl rfl rfl rfl)
  | @spawnFail P _ _ herr hmain =>
    exact .goto (free_of_main herr hmain rfl rfl) hsame rfl rfl
      (quiet_of_housekeeping (housekeeping_drops [P]))
  | kill herr hmain =>
    exact .goto (free_of_main herr hmain rfl rfl) (.withSched s _) rfl rfl (quiet_dying _ _)
  | exit herr hmain =>
    exact .goto (free_of_main herr hmain rfl rfl) (.withSched s _) rfl rfl (quiet_dying _ [])
  | dispatch herr hmain hyields _ _ hkeeping | abandon herr hmain hyields _ hkeeping =>
    exact .yield herr hmain hyields rfl rfl hkeeping
  | resumeTick herr hmain =>
    exact .goto (free_of_main herr hmain rfl rfl) (.withSched s _) rfl rfl quiet_runReadyTasks
  | rest herr hmain _ hnew hkeeping =>
    refine .goto (free_of_main herr hmain rfl rfl) (.withSched s _) ?_ ?_
      (quiet_of_housekeeping hkeeping)
    · rcases hnew with rfl | rfl <;> rfl
    · rcases hnew with rfl | rfl <;> rfl

end Mail

end State

end Tarnos.Kernel
