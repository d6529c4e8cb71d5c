import Tarnos.Kernel.Consistency
import Tarnos.Task.Steady

namespace Tarnos.Kernel

open Abi Arch Kcore Tarnos.Task Function Inner Errand

variable {E : Type} {sched : Inner E} {joined : List Pid} {m : Main E} {t : Table E}

namespace Main

/-- The process whose stack the core has marked busy and which it will terminate next. -/
def marked : Main E → Option Pid
  | .finalize pid _ => some pid
  | _ => none

def booting : Main E → Bool
  | .boot _ | .bootSpawn _ _ _ => true
  | _ => false

def leaving : Main E → Bool
  | .leave _ => true
  | _ => false

structure Light (m : Main E) : Prop where
  boxes : m.boxes = []
  outgoing : m.outgoing = none
  marked : m.marked = none

end Main

def Errand.box : Errand E → Option (Process E)
  | .dropBox process => some process
  | _ => none

def Errand.clears : Errand E → Option (Fin maxProcesses)
  | .clearStackBusy i => some i
  | _ => none

structure Errand.Light (errand : Errand E) : Prop where
  box : errand.box = none
  clears : errand.clears = none

variable {errand : Errand E}

theorem Errand.light_iff : errand.Light ↔ errand.box = none ∧ errand.clears = none :=
  ⟨fun h ↦ ⟨h.box, h.clears⟩, fun h ↦ ⟨h.1, h.2⟩⟩

namespace State

/-- Whether the next step of core `c` takes a process from the queue if there is one. -/
def switches (s : State E) (c : CoreId) : Bool :=
  match (s.cores c).errands, (s.cores c).main with
  | [], .onTimerTick _ | [], .blockCurrent _ | [], .switchNext _ _ | [], .idle _ => true
  | [], .onRescheduleIpi _ =>
    s.evictRequest c ≠ 0 && (s.sched.current c).map Pid.raw = some (s.evictRequest c)
  | [], .waitForChild target caller _ => s.sched.waitOutcome target caller = .mustBlock
  | _, _ => false

/-- `b` is `s` once core `c` has let go of its process under the scheduler lock; `outgoing` is the
slot whose busy mark it has to clear. -/
structure Release (s b : State E) (c : CoreId) (outgoing : Option (Fin maxProcesses)) : Prop where
  cores : b.cores = s.cores
  spaces : b.spaces = s.spaces
  steady : s.sched.table.Steady b.sched.table
  sound : b.sched.table.Sound
  current : b.sched.current = update s.sched.current c none
  marked : (s.cores c).main.marked = none
  leaving : (s.cores c).main.leaving = false
  booting : (s.cores c).main.booting = false
  busy : (outgoing = (s.cores c).main.outgoing ∧ b.stackBusy = s.stackBusy) ∨
    ((s.cores c).main.outgoing = none ∧ ∃ p i P, s.sched.current c = some p ∧ p.slot = some i ∧
      outgoing = some i ∧ b.stackBusy = update s.stackBusy i true ∧
      b.sched.table.view p = .occupied P ∧ P.state = .running)

section

variable {s b : State E} {c : CoreId} {outgoing : Option (Fin maxProcesses)} {p : Pid}
  {P : Process E} {rest : List Pid}

theorem Release.front_ready (h : s.Release b c outgoing) (hqueue : b.sched.queue = p :: rest)
    (hP : b.sched.view p = .occupied P) : P.state = .ready := by
  have hmem : p ∈ b.sched.table.queue := by
    rw [table_queue, hqueue]
    exact List.mem_cons_self
  obtain ⟨P', hP', hready⟩ := (h.sound.queued p).mp hmem
  rw [show b.sched.table.view p = .occupied P from hP] at hP'
  cases hP'
  exact hready

theorem Release.dispatch_steady (h : s.Release b c outgoing) (hqueue : b.sched.queue = p :: rest)
    (hP : b.sched.view p = .occupied P) : b.sched.table.Steady (b.sched.table.dispatch c p P) :=
  .dispatch hP (h.front_ready hqueue hP)

end

/-- Everything a step of core `c` can do to processes, address spaces, stacks and busy marks. -/
inductive Effect [DecidableEq E] (s : State E) (c : CoreId) : State E → Prop
  | errand {errand : Errand E} {rest more : List (Errand E)} {b : State E}
      (herr : (s.cores c).errands = errand :: rest) (hcores : b.cores = s.cores)
      (hsteady : s.sched.table.Steady b.sched.table) (hcurrent : b.sched.current = s.sched.current)
      (hspaces : b.spaces = errand.box.elim s.spaces fun P ↦ s.spaces.erase P.addressSpace)
      (hbusy : b.stackBusy = errand.clears.elim s.stackBusy fun i ↦ update s.stackBusy i false)
      (hmore : ∀ e ∈ more, e.Light) (hlast : errand.clears ≠ none → more = []) :
      Effect s c (b.goto c (s.cores c).main (more ++ rest))
  | light {m : Main E} {errands : List (Errand E)} {b : State E}
      (herr : (s.cores c).errands = []) (hold : (s.cores c).main.Light) (hnew : m.Light)
      (hstay : (s.cores c).main.leaving = false) (hattached : m.attached = (s.cores c).main.attached)
      (hbooting : m.booting = (s.cores c).main.booting) (hcores : b.cores = s.cores)
      (hsteady : s.sched.table.Steady b.sched.table) (hcurrent : b.sched.current = s.sched.current)
      (hspaces : b.spaces = s.spaces) (hbusy : b.stackBusy = s.stackBusy)
      (herrands : ∀ e ∈ errands, e.Light) : Effect s c (b.goto c m errands)
  | trap {f : TrapFrame} {m : Main E} (herr : (s.cores c).errands = [])
      (hmain : (s.cores c).main = .user f) (hnew : m.Light) (hattached : m.attached = true)
      (hbooting : m.booting = false) :
      Effect s c (s.setCore c { s.cores c with main := m, errands := [], stack := (s.cores c).rsp0 })
  | leave {f : TrapFrame} (herr : (s.cores c).errands = []) (hmain : (s.cores c).main = .leave f) :
      Effect s c (s.setCore c { s.cores c with main := .user f, errands := [], stack := none })
  | bootDone (herr : (s.cores c).errands = []) (hmain : (s.cores c).main = .boot []) :
      Effect s c (s.setCore c
        { s.cores c with main := .idle false, errands := [.runReadyTasks], cr3 := .idle })
  | reserve {i : Fin maxProcesses} {m : Main E} (herr : (s.cores c).errands = [])
      (hfree : s.sched.freeSlot s.stackBusy = some i)
      (hwrap : (s.sched.generations i).toNat + 1 < 2 ^ 32) (hold : (s.cores c).main.Light)
      (hnew : m.Light) (hstay : (s.cores c).main.leaving = false)
      (hattached : m.attached = (s.cores c).main.attached)
      (hbooting : m.booting = (s.cores c).main.booting) :
      Effect s c ((s.withSched (s.sched.allocatePid s.stackBusy).2).goto c m [])
  | load {caller child : Pid} {f : TrapFrame} {frame : ℕ} {P : Process E}
      (herr : (s.cores c).errands = []) (hmain : (s.cores c).main = .fromElf caller child f)
      (hfresh : frame ∉ s.spaces) (hP : P.addressSpace = frame) :
      Effect s c (({ s with spaces := frame :: s.spaces }).goto c (.spawnSuspended P f) [])
  | spawn {P : Process E} {f g : TrapFrame} {b : State E} (herr : (s.cores c).errands = [])
      (hmain : (s.cores c).main = .spawnSuspended P f) (hcores : b.cores = s.cores)
      (hreserved : s.sched.view P.pid = .reserved) (hsuspended : P.state = .suspended)
      (hparent : P.parent = s.sched.current c)
      (htable : b.sched.table = s.sched.table.set P.pid (.occupied P)) (hspaces : b.spaces = s.spaces)
      (hbusy : b.stackBusy = s.stackBusy) : Effect s c (b.goto c (.leave g) [])
  | spawnFail {P : Process E} {f g : TrapFrame} (herr : (s.cores c).errands = [])
      (hmain : (s.cores c).main = .spawnSuspended P f) :
      Effect s c (s.goto c (.leave g) [.dropBox P])
  | bootSpawn {pid : Pid} {boot : BootProcess E} {rest : List (BootProcess E)} {frame : ℕ}
      {P : Process E} {b : State E} (herr : (s.cores c).errands = [])
      (hmain : (s.cores c).main = .bootSpawn pid boot rest) (hfresh : frame ∉ s.spaces)
      (hP : P.addressSpace = frame) (hstate : P.state = .ready) (hparent : P.parent = none)
      (hreserved : s.sched.view pid = .reserved) (hcores : b.cores = s.cores)
      (htable : b.sched.table = (s.sched.table.set pid (.occupied P)).enqueue pid)
      (hspaces : b.spaces = frame :: s.spaces) (hbusy : b.stackBusy = s.stackBusy) :
      Effect s c (b.goto c (.boot rest) [])
  | mark {pid : Pid} {status : ExitStatus} {i : Fin maxProcesses} (herr : (s.cores c).errands = [])
      (hmain : (s.cores c).main = .markStackBusy pid status) (hslot : pid.slot = some i)
      (hc : s.sched.current c = some pid) :
      Effect s c (({ s with stackBusy := update s.stackBusy i true }).goto c (.finalize pid status) [])
  | exit {p : Pid} {P : Process E} {status : ExitStatus} {errands : List (Errand E)} {b : State E}
      (herr : (s.cores c).errands = []) (hmain : (s.cores c).main = .finalize p status)
      (hc : s.sched.current c = some p) (hP : s.sched.view p = .occupied P)
      (hcores : b.cores = s.cores) (htable : b.sched.table = s.sched.table.finalize p P status)
      (hspaces : b.spaces = s.spaces) (hbusy : b.stackBusy = s.stackBusy)
      (herrands : ∀ e ∈ errands, e.Light) :
      Effect s c (b.goto c (.switchNext p.slot (s.sched.orphanBoxes p ++ [P])) errands)
  | kill {target q : Pid} {T : Process E} {f g : TrapFrame} {b : State E}
      {dying : List (CapabilitySlot (KernelObjectRef E))} (herr : (s.cores c).errands = [])
      (hmain : (s.cores c).main = .killScan target f) (hT : s.sched.view target = .occupied T)
      (hc : s.sched.current c = some q) (hcur : ∀ d, s.sched.current d ≠ some target)
      (hcores : b.cores = s.cores) (htable : b.sched.table = s.sched.table.finalize target T .killed)
      (hspaces : b.spaces = s.spaces) (hbusy : b.stackBusy = s.stackBusy) :
      Effect s c (b.goto c (.leave g) (.wakeOrphanedReceivers dying ::
        (s.sched.orphanBoxes target ++ [T]).map .dropBox))
  | dispatch {p : Pid} {P : Process E} {b : State E} {sched : Inner E} {rest : List Pid}
      {outgoing : Option (Fin maxProcesses)} {mid : List (Errand E)}
      (herr : (s.cores c).errands = []) (hrelease : s.Release b c outgoing)
      (hqueue : b.sched.queue = p :: rest) (hP : b.sched.view p = .occupied P) (hpid : P.pid = p)
      (htable : sched.table = b.sched.table.dispatch c p P)
      (hfront : s.switches c = true ∧ s.sched.queue.head? = some p ∨ s.sched.current c = some p)
      (hmid : ∀ e ∈ mid, e.Light) :
      Effect s c ((b.withSched sched).dispatch c { P with state := .running }
        ((s.cores c).main.boxes.map .dropBox ++ mid ++ outgoingErrands outgoing))
  | abandon {b : State E} {sched : Inner E} {outgoing : Option (Fin maxProcesses)}
      {mid : List (Errand E)} (herr : (s.cores c).errands = []) (hrelease : s.Release b c outgoing)
      (htable : sched.table = b.sched.table) (hmid : ∀ e ∈ mid, e.Light) :
      Effect s c ((b.withSched sched).abandon c
        (outgoingErrands outgoing ++ (s.cores c).main.boxes.map .dropBox ++ mid))

section Release

variable {s b s' : State E} {c : CoreId} {strict : Prop} {p : Pid} {P P' : Process E}
  {f : TrapFrame}

theorem steady_letGo (hc : t.current c = some p) (hP : t.view p = .occupied P)
    (hspace : P'.addressSpace = P.addressSpace) (hstate : P'.state ≠ .suspended) :
    t.Steady (t.letGo c p P' joined) := by
  have hset := Table.Steady.set hP P' hspace (fun h ↦ absurd h hstate) fun _ ↦ .inr ⟨c, hc⟩
  exact hset.trans (.of_view rfl rfl fun d q hd ↦ by
    rw [show (t.letGo c p P' joined).current d = update t.current c none d from rfl,
      update_apply] at hd
    split at hd
    · cases hd
    · exact hd)

theorem head_of_joined {queue : List Pid} (hjoined : joined = [] ∨ joined = [p]) {q : Pid}
    (hq : (queue ++ joined).head? = some q) : queue.head? = some q ∨ p = q := by
  rcases hjoined with rfl | rfl
  · rw [List.append_nil] at hq
    exact .inl hq
  · cases queue with
    | nil => exact .inr (Option.some.inj hq)
    | cons a rest => exact .inl hq

theorem syscallDispatch_light (f : TrapFrame) :
    (syscallDispatch f : Main E).Light ∧ (syscallDispatch f : Main E).booting = false := by
  refine syscallDispatch_induction (motive := fun m ↦ m.Light ∧ m.booting = false) f ?_ ?_ ?_ ?_
  · exact ⟨⟨rfl, rfl, rfl⟩, rfl⟩
  · exact fun _ ↦ ⟨⟨rfl, rfl, rfl⟩, rfl⟩
  · exact fun _ ↦ ⟨⟨rfl, rfl, rfl⟩, rfl⟩
  · exact fun _ ↦ ⟨⟨rfl, rfl, rfl⟩, rfl⟩

theorem orLeave_light {α : Type} (result : Except SyscallError α) (k : α → Main E)
    (hk : ∀ a, (k a).Light ∧ (k a).booting = false) :
    (orLeave f result k).Light ∧ (orLeave f result k).booting = false := by
  cases result with
  | error e => exact ⟨⟨rfl, rfl, rfl⟩, rfl⟩
  | ok a => exact hk a

theorem recordResolve_spaces (process : Process E) (call : Call) :
    (s.recordResolve process f call).spaces = s.spaces ∧
      (s.recordResolve process f call).stackBusy = s.stackBusy := by
  unfold recordResolve
  split <;> exact ⟨rfl, rfl⟩

theorem callWrites_addressSpace (call : Call) (process : Process E) :
    (callWrites call process).addressSpace = process.addressSpace := by
  cases call <;> rfl

theorem senderErrands_light (sender : EndpointWaiter) (id : ℕ) :
    ∀ e ∈ (senderErrands sender id : List (Errand E)), e.Light := by
  cases sender <;> simp [senderErrands, box, clears, light_iff]

theorem receiverErrands_light (e : E) (receiver : EndpointWaiter) :
    ∀ errand ∈ receiverErrands e receiver, errand.Light := by
  cases receiver <;> simp [receiverErrands, box, clears, light_iff]

theorem steady_setCurrent (t : Table E) (c : CoreId) : t.Steady (t.setCurrent c none) := by
  refine .of_view rfl rfl fun d q hd ↦ ?_
  rw [Table.setCurrent_current] at hd
  split at hd
  · cases hd
  · exact hd

theorem Yields.switches (hyields : s.Yields c m b) (herr : (s.cores c).errands = [])
    (hmain : (s.cores c).main = m) : s.switches c = true := by
  unfold State.switches
  rw [herr, hmain]
  cases hyields with
  | wait hwait => simp [hwait]
  | evict hraw hne => simp [hraw, hne]
  | _ => rfl

section

variable [DecidableEq E]

theorem Effect.moves {m' : Main E} {errands : List (Errand E)}
    (herr : (s.cores c).errands = []) (hmain : (s.cores c).main = m) (htable : b.sched.table = t)
    (hsteady : s.sched.table.Steady t)
    (hkept : (b.cores, b.spaces, b.stackBusy, t.current) =
      (s.cores, s.spaces, s.stackBusy, s.sched.current))
    (hlight : (m.boxes, m.outgoing, m.marked, m.leaving, m'.boxes, m'.outgoing, m'.marked,
      m'.attached, m'.booting) = ([], none, none, false, [], none, none, m.attached, m.booting))
    (herrands : ∀ e ∈ errands, e.Light) : s.Effect c (b.goto c m' errands) := by
  subst hmain htable
  simp only [Prod.mk.injEq] at hkept hlight
  obtain ⟨hcores, hspaces, hbusy, hcurrent⟩ := hkept
  obtain ⟨hbox, hout, hmark, hstay, hbox', hout', hmark', hattached, hbooting⟩ := hlight
  exact .light herr ⟨hbox, hout, hmark⟩ ⟨hbox', hout', hmark'⟩ hstay hattached hbooting hcores
    hsteady hcurrent hspaces hbusy herrands

theorem Effect.allocate {m' : Main E} (herr : (s.cores c).errands = [])
    (hmain : (s.cores c).main = m)
    (hwrap : ∀ i, s.sched.freeSlot s.stackBusy = some i → (s.sched.generations i).toNat + 1 < 2 ^ 32)
    (hold : m.Light ∧ m.leaving = false) (hnew : m'.Light)
    (hattached : m'.attached = m.attached) (hbooting : m'.booting = m.booting) :
    s.Effect c ((s.withSched (s.sched.allocatePid s.stackBusy).2).goto c m' []) := by
  subst hmain
  cases hfree : s.sched.freeSlot s.stackBusy with
  | none =>
    rw [allocatePid_full hfree]
    exact .light (b := s.withSched s.sched) herr hold.1 hnew hold.2 hattached hbooting rfl (.refl _)
      rfl rfl rfl (by simp)
  | some i => exact .reserve herr hfree (hwrap i hfree) hold.1 hnew hold.2 hattached hbooting

theorem Effect.light_errand {rest more : List (Errand E)}
    (herr : (s.cores c).errands = errand :: rest) (hlight : errand.Light)
    (hs : b.resume c more rest = .next s') (hcores : b.cores = s.cores)
    (hsteady : s.sched.table.Steady b.sched.table) (hcurrent : b.sched.current = s.sched.current)
    (hspaces : b.spaces = s.spaces) (hbusy : b.stackBusy = s.stackBusy)
    (hmore : ∀ e ∈ more, e.Light) : s.Effect c s' := by
  cases hs
  rw [hcores]
  exact .errand herr hcores hsteady hcurrent (by rw [hlight.box]; exact hspaces)
    (by rw [hlight.clears]; exact hbusy) hmore fun hne ↦ absurd hlight.clears hne

end

theorem trapMain_light (kind : Trap) (f : TrapFrame) :
    (trapMain kind f : Main E).Light ∧ (trapMain kind f : Main E).booting = false := by
  cases kind with
  | syscall => exact syscallDispatch_light f
  | _ => exact ⟨⟨rfl, rfl, rfl⟩, rfl⟩

/-- Core `c` lets go of its process `p` in a table `t` that differs from the one of `s` in records
only. -/
theorem Release.of_letGo (hmain : (s.cores c).main = m)
    (hm : m.Light ∧ m.leaving = false ∧ m.booting = false) (hsteady : s.sched.table.Steady t)
    (hqueue : t.queue = s.sched.queue) (hcurrent : t.current = s.sched.current)
    (hc : s.sched.current c = some p) (hP : t.view p = .occupied P)
    (htable : sched.table.setCurrent c none = t.letGo c p P' joined)
    (hspace : P'.addressSpace = P.addressSpace) (hstate : P'.state ≠ .suspended)
    (hjoined : joined = [] ∨ joined = [p]) (hsound : (sched.table.setCurrent c none).Sound) :
    s.Release (s.withSched (sched.setCurrent c none)) c none ∧ ∀ q, sched.queue.head? = some q →
      s.sched.queue.head? = some q ∨ s.sched.current c = some q := by
  subst hmain
  refine ⟨⟨rfl, rfl, ?_, hsound, ?_, hm.1.marked, hm.2.1, hm.2.2, .inl ⟨hm.1.outgoing.symm, rfl⟩⟩,
    fun q hq ↦ ?_⟩
  · change s.sched.table.Steady (sched.table.setCurrent c none)
    rw [htable]
    exact hsteady.trans (steady_letGo (hcurrent ▸ hc) hP hspace hstate)
  · change (sched.table.setCurrent c none).current = _
    rw [htable, ← hcurrent]
    rfl
  · rw [show sched.queue = t.queue ++ joined from congrArg Table.queue htable, hqueue] at hq
    rcases head_of_joined hjoined hq with hfront | rfl
    · exact .inl hfront
    · exact .inr hc

theorem Release.detached (hmain : (s.cores c).main = m) (hmarked : m.marked = none)
    (hleaving : m.leaving = false) (hbooting : m.booting = false)
    (hsound : (s.sched.table.setCurrent c none).Sound) :
    s.Release (s.withSched (s.sched.setCurrent c none)) c m.outgoing := by
  subst hmain
  exact ⟨rfl, rfl, steady_setCurrent _ c, hsound, rfl, hmarked, hleaving, hbooting, .inl ⟨rfl, rfl⟩⟩

section

variable [DecidableEq E]

theorem callOn_light (process : Process E) (call : Call) :
    (callOn process f call).Light ∧ (callOn process f call).booting = false := by
  cases call with
  | send | recv | grant | sbrk | blockRead | fileRead =>
    exact orLeave_light _ _ fun _ ↦ ⟨⟨rfl, rfl, rfl⟩, rfl⟩
  | _ => exact ⟨⟨rfl, rfl, rfl⟩, rfl⟩

theorem Effect.trade (h : s.Trade c s') : s.Effect c s' := by
  have hpasses {x : Errand E} {m rest : List (Errand E)} {b : State E}
      (herr : (s.cores c).errands = x :: rest) (hx : x.Light)
      (hb : (b.cores, b.sched, b.spaces, b.stackBusy) = (s.cores, s.sched, s.spaces, s.stackBusy))
      (hmore : ∀ y ∈ m, y.Light) : s.Effect c (b.goto c (s.cores c).main (m ++ rest)) := by
    simp only [Prod.mk.injEq] at hb
    obtain ⟨hcores, hsched, hspaces, hbusy⟩ := hb
    exact .light_errand herr hx (by rw [resume, hcores]) hcores (hsched ▸ .refl _) (by rw [hsched])
      hspaces hbusy hmore
  cases h with
  | closed herr => exact hpasses (m := [_]) herr ⟨rfl, rfl⟩ rfl (by simp [light_iff, box, clears])
  | nobody herr => exact hpasses (m := []) herr ⟨rfl, rfl⟩ rfl (by simp)
  | displaced herr hmain => exact .moves herr hmain rfl (.refl _) rfl rfl (by simp)
  | delivered hsubmits =>
    cases hsubmits with
    | task herr => exact hpasses herr ⟨rfl, rfl⟩ rfl (receiverErrands_light _ _)
    | call herr hmain =>
      exact .moves herr hmain rfl (.refl _) rfl rfl (by simpa using receiverErrands_light _ _)
  | enqueued hsubmits | refused hsubmits =>
    cases hsubmits with
    | task herr => exact hpasses (m := []) herr ⟨rfl, rfl⟩ rfl (by simp)
    | call herr hmain => exact .moves herr hmain rfl (.refl _) rfl rfl (by simp)
  | taken hasks =>
    cases hasks with
    | task herr => exact hpasses herr ⟨rfl, rfl⟩ rfl (by simpa using senderErrands_light _ _)
    | displaced herr =>
      refine hpasses herr ⟨rfl, rfl⟩ rfl (List.forall_mem_append.mpr ⟨senderErrands_light _ _, ?_⟩)
      simp [light_iff, box, clears]
    | call herr hmain =>
      exact .moves herr hmain rfl (.refl _) rfl rfl (by simpa using senderErrands_light _ _)
  | registered hasks | unregistered hasks =>
    cases hasks with
    | task herr | displaced herr => exact hpasses (m := []) herr ⟨rfl, rfl⟩ rfl (by simp)
    | call herr hmain => exact .moves herr hmain rfl (.refl _) rfl rfl (by simp)

theorem Effect.recordCall {call : Call} (herr : (s.cores c).errands = [])
    (hmain : (s.cores c).main = .withProcess call p f) (hocc : s.sched.occupiedMut p = some P) :
    s.Effect c (((s.withSched (s.sched.setProcess p (callWrites call P))).recordResolve P f
      call).goto c (callOn P f call) []) := by
  have hP := occupiedMut_eq_some.mp hocc
  obtain ⟨hcores, -, hsched, -⟩ := recordResolve_fields
    (s := s.withSched (s.sched.setProcess p (callWrites call P))) (f := f) P call
  obtain ⟨hspaces, hbusy⟩ := recordResolve_spaces
    (s := s.withSched (s.sched.setProcess p (callWrites call P))) (f := f) P call
  obtain ⟨-, hstate, -, -, -⟩ := callWrites_fields call P
  obtain ⟨hlight, hbooting⟩ := callOn_light (f := f) P call
  have hattached := (callOn_calm (f := f) P call).1.attached
  have htable := (congrArg table hsched).trans
    (table_setProcess hP (callWrites call P))
  have hsteady := Table.Steady.set (t := s.sched.table) hP (callWrites call P)
    (callWrites_addressSpace call P) (fun h ↦ hstate ▸ h) fun h ↦ .inl (hstate.trans h)
  exact .moves herr hmain htable hsteady (by rw [hcores, hspaces, hbusy]; rfl)
    (by rw [hlight.boxes, hlight.outgoing, hlight.marked, hattached, hbooting]; rfl) (by simp)

end

variable [Fintype E]

/-- Whatever makes core `c` look at the queue, it holds no process by then; who is first in the
queue was so before or is the process it let go of. -/
theorem Inv.releases (h : s.Inv strict) (hmain : (s.cores c).main = m) (hyields : s.Yields c m b) :
    s.Release (b.withSched (b.sched.setCurrent c none)) c (s.vacated c m) ∧
      ∀ q, b.sched.queue.head? = some q →
        s.sched.queue.head? = some q ∨ s.sched.current c = some q := by
  have hsound := h.sound_of_yields hmain hyields
  cases hyields with
  | tick hpre =>
    obtain ⟨p, P, _, hc, hP, hpre', -, htable, -⟩ := h.preempted hmain
    cases hpre.symm.trans hpre'
    exact Release.of_letGo hmain ⟨⟨rfl, rfl, rfl⟩, rfl, rfl⟩ (.refl _) rfl rfl hc hP htable rfl
      (by simp) (.inr rfl) hsound
  | @block f sched hblock =>
    obtain ⟨p, P, _, hc, hP, hblock', -, htable, -⟩ := h.blocked hmain
    cases hblock.symm.trans hblock'
    obtain ⟨-, hspace, -, -, hstate⟩ := blockedRecord_fields P f
    have hfree := (congrArg (Table.setCurrent · c none) htable).trans (Table.letGo_setCurrent ..)
    refine Release.of_letGo hmain ⟨⟨rfl, rfl, rfl⟩, rfl, rfl⟩ (.refl _) rfl rfl hc hP hfree hspace
      hstate ?_ hsound
    unfold joins
    split
    · exact .inr rfl
    · exact .inl rfl
  | @wait target caller f sched hwait hblock =>
    obtain ⟨P, Q, _, hc, hP, hQ, hself, hblock', -, htable, -⟩ := h.waiting hmain hwait
    cases hblock.symm.trans hblock'
    have hcaller : (s.sched.table.set target
        (.occupied { Q with waitWaiter := some caller })).view caller = .occupied P := by
      rw [Table.set_of_ne hself.symm]
      exact hP
    have hfree := (congrArg (Table.setCurrent · c none) htable).trans (Table.letGo_setCurrent ..)
    exact Release.of_letGo hmain ⟨⟨rfl, rfl, rfl⟩, rfl, rfl⟩
      (.set (t := s.sched.table) hQ { Q with waitWaiter := some caller } rfl id .inl) rfl rfl hc
      hcaller hfree rfl (by simp) (.inl rfl)
      hsound
  | @evict f i hraw hne hslot =>
    obtain ⟨p, P, hc, hP, hrun, -⟩ := h.current_of_attached hmain rfl
    rw [hc] at hraw
    have hpid : p.slot = some i := by
      rw [← hslot, ← Option.some.inj hraw]
    refine ⟨⟨rfl, rfl, (steady_setCurrent _ c).trans (steady_setCurrent _ c), hsound, ?_,
      by rw [hmain]; rfl, by rw [hmain]; rfl, by rw [hmain]; rfl,
      .inr ⟨by rw [hmain]; rfl, p, i, P, hc, hpid, hslot, rfl, hP, hrun⟩⟩, fun _ ↦ .inl⟩
    simp [setCurrent, withSched]
  | next => exact ⟨.detached hmain rfl rfl rfl hsound, fun _ ↦ .inl⟩
  | idle => exact ⟨.detached hmain rfl rfl rfl hsound, fun _ ↦ .inl⟩

variable [DecidableEq E]

section

variable (h : s.Inv strict) (herr : (s.cores c).errands = [])

include h herr

theorem Inv.effect_kill {target : Pid} (hmain : (s.cores c).main = .killScan target f)
    (howner : s.sched.owningCore target = none) :
    s.Effect c ((s.withSched (s.sched.finalize target .killed).1).goto c (.leave (f.withRax 0))
      (.wakeOrphanedReceivers (dyingCaps (s.sched.finalize target .killed).2) ::
        (s.sched.finalize target .killed).2.map .dropBox)) := by
  obtain ⟨q, hc, hchild⟩ := h.scene.cores.kills c target (by rw [main_core hmain]; rfl)
  rcases hchild with ⟨T, hT, -⟩ | ⟨status, hT⟩
  · obtain ⟨htable, hdrops, -⟩ :=
      finalize_spec .killed (finalizable h.scene.sound hT)
    rw [hdrops]
    exact .kill (b := s.withSched (s.sched.finalize target .killed).1) herr hmain hT hc
      (owningCore_none howner) rfl htable rfl rfl
  · have hview : s.sched.view target = .zombie q status := hT
    rw [finalize_absent (by simp [hview]) (by simp [hview])]
    exact .moves (b := s.withSched s.sched) herr hmain rfl (.refl _) rfl rfl
      (List.forall_mem_singleton.mpr ⟨rfl, rfl⟩)

theorem Inv.effect_release {child : Pid} {g : TrapFrame}
    (hmain : (s.cores c).main = .releaseReservation child f) :
    s.Effect c ((s.withSched (s.sched.releaseReservation child)).goto c (.leave g) []) := by
  cases hslot : child.slot with
  | none =>
    rw [releaseReservation_full hslot]
    exact .moves (b := s.withSched s.sched) herr hmain rfl (.refl _) rfl rfl (by simp)
  | some i =>
    have hview := (h.reserved hmain rfl hslot).2
    have hdead : ¬ s.sched.table.Live child := by
      rintro ⟨R, hR⟩
      rw [show s.sched.table.view child = .reserved from hview] at hR
      cases hR
    exact .moves (b := s.withSched _) herr hmain (releaseReservation_reserved hview).1
      (.vacate hdead) rfl rfl (by simp)

theorem Inv.effect_spawn {g : TrapFrame} (hmain : (s.cores c).main = .spawnSuspended P f)
    (hspawn : s.sched.spawnSuspended P = .ok sched) :
    s.Effect c (((s.withSched sched).record (.spawned P.pid)).goto c (.leave g) []) := by
  obtain ⟨hparent, hsuspended, -, -⟩ := h.scene.cores.child c P (by rw [main_core hmain]; rfl)
  obtain ⟨-, hview, htable, -⟩ := h.spawned hmain hspawn
  exact .spawn (b := (s.withSched sched).record (.spawned P.pid)) herr hmain rfl hview hsuspended
    hparent htable rfl rfl

theorem Inv.effect_bootSpawn {boot : BootProcess E} {rest : List (BootProcess E)} {entry : UInt64}
    {frame : ℕ} (hmain : (s.cores c).main = .bootSpawn p boot rest) (hfresh : frame ∉ s.spaces)
    (hspawn : s.sched.spawn (boot.process p frame entry) = .ok sched) :
    s.Effect c (({ s with
      sched := sched
      spaces := frame :: s.spaces
      log := boot.seeds.map (fun seed ↦ .seeded p seed.2) ++ s.log } : State E).goto c
        (.boot rest) []) := by
  obtain ⟨-, hview, htable, -⟩ := h.booted hmain hspawn
  exact .bootSpawn (P := boot.process p frame entry) herr hmain hfresh rfl rfl rfl hview rfl htable
    rfl rfl

end

theorem Inv.effect_wake {errand : Errand E} {rest : List (Errand E)} {result : WakeResult}
    {notes : List (Event E)} (h : s.Inv strict) (herr : (s.cores c).errands = errand :: rest)
    (hwakes : errand.Wakes s p result notes) :
    s.Effect c ({ s.wakeBlockedProcess p result with log := notes ++ s.log }.goto c
      (s.cores c).main rest) := by
  obtain ⟨htable, -⟩ := table_wake (s := s.sched) result h.room
  have hlight : errand.Light := by cases hwakes <;> exact ⟨rfl, rfl⟩
  have hcurrent : (s.sched.wakeBlockedProcessLocked p result).current = s.sched.current := by
    rw [← table_current, htable, Table.wake_current, table_current]
  exact .light_errand (b := { s.wakeBlockedProcess p result with log := notes ++ s.log }) herr hlight
    (show State.resume _ _ [] _ = _ from rfl) rfl (htable ▸ .wake _ _ _) hcurrent rfl rfl (by simp)

theorem Inv.effect_start {target caller : Pid} (h : s.Inv strict) (herr : (s.cores c).errands = [])
    (hmain : (s.cores c).main = .startChild target caller f)
    (hstart : s.sched.startChild target caller = .ok sched) :
    s.Effect c ((s.withSched sched).goto c (.leave (f.withRax 0)) []) := by
  obtain ⟨Q, hQ, -, hsuspended, heq⟩ := startChild_ok hstart
  have hne : s.sched.view target ≠ .empty := by rw [hQ]; simp
  have hroom := queue_length_lt h.scene.sound hne
    (h.scene.sound.not_queued hQ (by rw [hsuspended]; simp))
  obtain ⟨htable, -⟩ := table_setProcess_push hQ { Q with state := .ready } hroom
  rw [← heq] at htable
  have hset := Table.Steady.set (t := s.sched.table) hQ { Q with state := .ready } rfl (by simp)
    fun hrun ↦ by rw [hsuspended] at hrun; cases hrun
  exact .moves (b := s.withSched sched) herr hmain htable
    (hset.trans (.of_view rfl rfl fun _ _ h ↦ h)) rfl rfl (by simp)

theorem Inv.effect {a : Action E} (h : s.Inv strict) (hwrap : s.NoWrap a) (hs : s.next a = some s') :
    s.Effect a.core s' := by
  cases next_turn hs with
  | tasks herr hmore =>
    refine .light_errand herr ⟨rfl, rfl⟩ rfl rfl (.refl _) rfl rfl rfl ?_
    rcases hmore with rfl | ⟨_, _, _, rfl⟩ | ⟨_, _, rfl⟩ <;>
      simp [light_iff, box, clears]
  | pollSend _ _ htrade | pollRecv _ _ htrade | wakeReceiver _ _ htrade
  | takeWaitingReceiver _ _ htrade | trySend _ _ _ htrade | tryRecv _ _ _ htrade =>
    exact .trade htrade
  | wake herr hwakes => exact h.effect_wake herr hwakes
  | orphans herr =>
    exact .light_errand herr ⟨rfl, rfl⟩ rfl rfl (.refl _) rfl rfl rfl
      (by simp [light_iff, box, clears])
  | @dropBox P rest herr =>
    rw [← List.nil_append rest]
    exact .errand (b := { s with spaces := s.spaces.erase P.addressSpace }) herr rfl
      (.refl _) rfl rfl rfl (by simp) fun _ ↦ rfl
  | @clearStackBusy i rest herr =>
    rw [← List.nil_append rest]
    exact .errand (b := { s with stackBusy := update s.stackBusy i false }) herr rfl
      (.refl _) rfl rfl rfl (by simp) fun _ ↦ rfl
  | stay herr hmain hstay =>
    cases hstay with
    | exitsNone hnone =>
      obtain ⟨p, P, hc, -⟩ := h.current_of_attached hmain rfl
      rw [hnone] at hc
      cases hc
    | _ => exact .moves herr hmain rfl (.refl _) rfl rfl (by simp)
  | bootDone herr hmain => exact .bootDone herr hmain
  | bootAllocate herr hmain =>
    have hallocates : s.allocates a = true := by simp [allocates, herr, hmain]
    exact .allocate herr hmain (hwrap hallocates) ⟨⟨rfl, rfl, rfl⟩, rfl⟩ ⟨rfl, rfl, rfl⟩ rfl rfl
  | bootSpawn herr hmain hfresh hspawn => exact h.effect_bootSpawn herr hmain hfresh hspawn
  | @trap f _ kind herr hmain =>
    obtain ⟨hlight, hbooting⟩ := trapMain_light (E := E) kind f
    exact .trap herr hmain hlight (trapMain_plain kind f).2 hbooting
  | leave herr hmain => exact .leave herr hmain
  | ignoreIpi herr hmain | request herr hmain | withdraw herr hmain | sendReturn herr hmain
  | recvReturn herr hmain => exact .moves herr hmain rfl (.refl _) rfl rfl (by simp)
  | record herr hmain hP => exact .recordCall herr hmain hP
  | allocate herr hmain =>
    have hallocates := allocates_of_next herr hmain hs
    exact .allocate herr hmain (hwrap hallocates) ⟨⟨rfl, rfl, rfl⟩, rfl⟩ ⟨rfl, rfl, rfl⟩ rfl rfl
  | load herr hmain hfresh => exact .load herr hmain hfresh rfl
  | release herr hmain => exact h.effect_release herr hmain
  | spawn herr hmain hspawn => exact h.effect_spawn herr hmain hspawn
  | spawnFail herr hmain => exact .spawnFail herr hmain
  | @grant _ _ _ _ _ P herr hmain hocc =>
    have hP := occupiedMut_eq_some.mp hocc
    exact .moves (b := (s.withSched _).record _) herr hmain (table_setProcess hP _)
      (.set (P := P) hP _ rfl id .inl) rfl rfl (by simp)
  | start herr hmain hstart => exact h.effect_start herr hmain hstart
  | @collect target _ _ _ herr hmain hwait =>
    obtain ⟨hz, htable, -⟩ := waitForChild_done hwait
    have hdead : ¬ s.sched.table.Live target := by
      rintro ⟨Q, hQ⟩
      rw [table_view, hz] at hQ
      cases hQ
    exact .moves (b := s.withSched _) herr hmain htable (.vacate hdead) rfl rfl (by simp)
  | kill herr hmain howner => exact h.effect_kill herr hmain howner
  | mark herr hmain hslot => exact .mark herr hmain hslot (h.current_of_caller hmain rfl)
  | @exit pid status herr hmain =>
    have hc := h.current_of_caller hmain rfl
    obtain ⟨P, hP, -⟩ := h.scene.sound.running a.core pid hc
    obtain ⟨htable, hdrops, -⟩ :=
      finalize_spec status (finalizable h.scene.sound hP)
    rw [hdrops]
    exact .exit (b := s.withSched (s.sched.finalize pid status).1) herr hmain hc hP rfl htable rfl rfl
      (by simp [light_iff, box, clears])
  | @dispatch _ b _ _ _ _ _ herr hmain hyields hpop hswitch _ htidy =>
    subst hmain
    obtain ⟨mid, hmid, rfl⟩ := htidy
    obtain ⟨hrelease, hfront⟩ := h.releases rfl hyields
    obtain ⟨P₀, rest, hq, hP₀, rfl, hpid, hdisp, -⟩ := table_dispatch hpop hswitch
    refine .dispatch (b := b.withSched (b.sched.setCurrent a.core none)) herr hrelease hq hP₀ hpid
      (hdisp.trans (dispatch_released _ _ _))
      ((hfront _ (by rw [hq]; rfl)).imp_left fun hfirst ↦ ⟨hyields.switches herr rfl, hfirst⟩)
      fun e he ↦ ?_
    rw [hmid e he]
    exact ⟨rfl, rfl⟩
  | @abandon _ b _ _ herr hmain hyields hpop _ htidy =>
    subst hmain htidy
    exact .abandon (b := b.withSched (b.sched.setCurrent a.core none)) herr
      (h.releases rfl hyields).1 (h.yields_pop_none rfl hyields hpop).1
      (by simp [light_iff, box, clears])
  | resumeTick herr hmain hpre hpop => exact absurd hpop (h.preempted_pop hmain hpre)
  | @rest _ _ popped errands herr hmain hpop hnew _ htasks =>
    have htable := (table_pop_none hpop).1
    have htidy : ∀ e ∈ errands, e.Light := fun e he ↦ by
      rw [htasks e he]
      exact ⟨rfl, rfl⟩
    rcases hnew with rfl | rfl <;>
      exact .moves (b := s.withSched popped) herr hmain htable (.refl _) rfl rfl htidy

end Release

end State

end Tarnos.Kernel
