import Tarnos.Kernel.Scene
import Tarnos.Kernel.Turn
import Tarnos.Task.Kept

namespace Tarnos.Kernel

open Abi Arch Kcore Tarnos.Task Function Inner Main

variable {E : Type}
  {slot : CapabilitySlot (KernelObjectRef E)} {log : List (Event E)} {pid : Pid} {f : TrapFrame}

def Event.ofMessage : Event E → Bool
  | .seeded _ _ | .spawned _ | .resolved _ _ | .granted _ _ _ => false
  | _ => true

/-- Why the process that now has this pid may hold a slot, read off the log: it was seeded, or its
parent granted the slot after looking up one that covers it and that the parent held by the same
rules. A new process starts with nothing. -/
inductive Derived : List (Event E) → Pid → CapabilitySlot (KernelObjectRef E) → Prop
  | seeded {log : List (Event E)} {pid : Pid} {slot : CapabilitySlot (KernelObjectRef E)} :
      Derived (.seeded pid slot :: log) pid slot
  | granted {between before : List (Event E)} {granter target : Pid}
      {held slot : CapabilitySlot (KernelObjectRef E)} (hheld : Derived before granter held)
      (hobject : slot.object = held.object) (hrights : held.rights.contains slot.rights = true) :
      Derived (.granted granter target slot :: (between ++ .resolved granter held :: before))
        target slot
  | later {log : List (Event E)} {event : Event E} {pid : Pid}
      {slot : CapabilitySlot (KernelObjectRef E)} (h : Derived log pid slot)
      (hevent : event ≠ .spawned pid) : Derived (event :: log) pid slot

theorem Derived.root
    (h : Derived log pid slot) : ∃ boot rights, .seeded boot ⟨slot.object, rights⟩ ∈ log ∧
      rights.contains slot.rights = true := by
  induction h with
  | @seeded log pid slot => exact ⟨pid, slot.rights, List.mem_cons_self, Rights.contains_refl _⟩
  | @granted between before granter target held slot hheld hobject hrights ih =>
    obtain ⟨boot, rights, hmem, hcontains⟩ := ih
    rw [hobject]
    refine ⟨boot, rights, ?_, Rights.contains_trans hcontains hrights⟩
    exact List.mem_cons_of_mem _ (List.mem_append_right _ (List.mem_cons_of_mem _ hmem))
  | later _ _ ih =>
    obtain ⟨boot, rights, hmem, hcontains⟩ := ih
    exact ⟨boot, rights, List.mem_cons_of_mem _ hmem, hcontains⟩

theorem Derived.append {log new : List (Event E)} (h : Derived log pid slot)
    (hnew : .spawned pid ∉ new) : Derived (new ++ log) pid slot := by
  induction new with
  | nil => exact h
  | cons event new ih =>
    refine .later (ih fun hmem ↦ hnew (List.mem_cons_of_mem _ hmem)) ?_
    rintro rfl
    exact hnew List.mem_cons_self

/-- The log says that `granter` looked up a slot it held and that covers `slot`. -/
def Resolved (log : List (Event E)) (granter : Pid) (slot : CapabilitySlot (KernelObjectRef E)) :
    Prop :=
  ∃ between before held, log = between ++ .resolved granter held :: before ∧
    Derived before granter held ∧ slot.object = held.object ∧
    held.rights.contains slot.rights = true

theorem Resolved.append {granter : Pid} (h : Resolved log granter slot)
    (new : List (Event E)) : Resolved (new ++ log) granter slot := by
  obtain ⟨between, before, held, rfl, hheld⟩ := h
  exact ⟨new ++ between, before, held, by simp, hheld⟩

theorem Resolved.derived {granter : Pid} (h : Resolved log granter slot) (target : Pid) :
    Derived (.granted granter target slot :: log) target slot := by
  obtain ⟨between, before, held, rfl, hheld, hobject, hrights⟩ := h
  exact .granted hheld hobject hrights

namespace Main

def grants : Main E → Option (Pid × CapabilitySlot (KernelObjectRef E))
  | .grant _ _ slot caller _ => some (caller, slot)
  | _ => none

structure Bare (m : Main E) : Prop where
  grants : m.grants = none
  reserves : m.reserves = none
  child : m.child = none

end Main

namespace State

def Allocating (s : State E) (c : CoreId) : Prop :=
  (s.cores c).errands = [] ∧ ((∃ boot rest, (s.cores c).main = .boot (boot :: rest)) ∨
    ∃ caller f, (s.cores c).main = .allocatePid caller f)

/-- What a step of core `c` does to the capabilities of all processes. -/
inductive Custody [DecidableEq E] (s : State E) (c : CoreId) (s' : State E) : Prop
  | rest (new : List (Event E)) (hkept : s.sched.Kept s'.sched) (hlog : s'.log = new ++ s.log)
      (hnew : ∀ x ∈ new, x.ofMessage = true)
      (hmain : (s'.cores c).main = (s.cores c).main ∨ (s'.cores c).main.Bare)
  | reserve {i : Fin maxProcesses} (hfree : s.sched.freeSlot s.stackBusy = some i)
      (hsched : s'.sched = (s.sched.allocatePid s.stackBusy).2) (hlog : s'.log = s.log)
      (hgrants : (s'.cores c).main.grants = none) (hchild : (s'.cores c).main.child = none)
      (hreserves : (s'.cores c).main.reserves = some (s.sched.freshPid i)) (hcalls : s.Allocating c)
  | load (hsched : s'.sched = s.sched) (hlog : s'.log = s.log)
      (hgrants : (s'.cores c).main.grants = none)
      (hreserves : (s'.cores c).main.reserves = (s.cores c).main.reserves)
      (hchild : ∀ P, (s'.cores c).main.child = some P → P.capTable = CapTable.new ∧
        P.state = .suspended)
  | release {child : Pid} (hold : (s.cores c).main.reserves = unplaced child)
      (hsched : s'.sched = s.sched.releaseReservation child) (hlog : s'.log = s.log)
      (hmain : (s'.cores c).main.Bare)
  | resolve {pid : Pid} {P : Process E} {held : CapabilitySlot (KernelObjectRef E)}
      (slot : CapabilitySlot (KernelObjectRef E))
      (hP : s.sched.occupiedMut pid = some P) (hheld : held ∈ P.capTable.iter)
      (hobject : slot.object = held.object) (hrights : held.rights.contains slot.rights = true)
      (hsched : s'.sched = s.sched) (hlog : s'.log = .resolved P.pid held :: s.log)
      (hgrants : (s'.cores c).main.grants = some (P.pid, slot))
      (hreserves : (s'.cores c).main.reserves = none) (hchild : (s'.cores c).main.child = none)
  | grant {target caller : Pid} {dest : CapIndex} {slot : CapabilitySlot (KernelObjectRef E)}
      {P : Process E} (hold : (s.cores c).main.grants = some (caller, slot))
      (hP : s.sched.occupiedMut target = some P) (hparent : P.parent = some caller)
      (hstate : P.state = .suspended)
      (hsched : s'.sched = s.sched.setProcess target { P with capTable := P.capTable.insert dest slot })
      (hlog : s'.log = .granted caller target slot :: s.log) (hmain : (s'.cores c).main.Bare)
  | spawn {P : Process E} {i : Fin maxProcesses} (hold : (s.cores c).main.child = some P)
      (hreserves : (s.cores c).main.reserves = some P.pid) (hslot : P.pid.slot = some i)
      (hsched : s'.sched = s.sched.setSlot i (.occupied P))
      (hlog : s'.log = .spawned P.pid :: s.log) (hmain : (s'.cores c).main.Bare)
  | seed {pid : Pid} {boot : BootProcess E} {frame : ℕ} {entry : UInt64} {i : Fin maxProcesses}
      (hreserves : (s.cores c).main.reserves = some pid) (hslot : pid.slot = some i)
      (hsched : s'.sched = (s.sched.setSlot i (.occupied (boot.process pid frame entry))).push pid)
      (hlog : s'.log = boot.seeds.map (fun seed ↦ .seeded pid seed.2) ++ s.log)
      (hmain : (s'.cores c).main.Bare)

section Turns

variable {s b s' : State E} {c : CoreId} {m m' : Main E}

theorem bare_leave (f : TrapFrame) : (leave f : Main E).Bare := ⟨rfl, rfl, rfl⟩

theorem bare_trapMain (kind : Trap) (f : TrapFrame) : (trapMain kind f : Main E).Bare := by
  cases kind with
  | syscall =>
    exact syscallDispatch_induction (motive := fun m ↦ m.Bare) f ⟨rfl, rfl, rfl⟩
      (fun _ ↦ ⟨rfl, rfl, rfl⟩) (fun _ ↦ ⟨rfl, rfl, rfl⟩) fun _ ↦ ⟨rfl, rfl, rfl⟩
  | _ => exact ⟨rfl, rfl, rfl⟩

theorem callWrites_became (call : Call) (P : Process E) : P.Became (callWrites call P) := by
  cases call <;> exact ⟨rfl, rfl, .inl rfl, id⟩

theorem resolveGrant_ok {P : Process E}
    {held : CapabilitySlot (KernelObjectRef E)} (h : resolveGrant P f = .ok held) :
    held ∈ P.capTable.iter ∧
      held.rights.contains (Rights.fromBitsTruncate f.r10.toUInt8) = true := by
  unfold resolveGrant at h
  split at h
  · cases h
  · rename_i slot hget
    split at h
    · rename_i hrights
      cases h
      exact ⟨CapTable.get_mem hget, hrights⟩
    · cases h

theorem Yields.kept {b : State E} (h : s.Yields c m b) : s.sched.Kept b.sched ∧ b.log = s.log := by
  cases h with
  | tick hpre => exact ⟨.preemptCurrent hpre, rfl⟩
  | block hblock => exact ⟨.blockCurrentProcessLocked hblock, rfl⟩
  | wait _ hblock =>
    exact ⟨(Inner.Kept.waitForChild _ _).trans (.blockCurrentProcessLocked hblock), rfl⟩
  | evict => exact ⟨.of_processes rfl rfl, rfl⟩
  | next | idle => exact ⟨.refl _, rfl⟩

theorem wakes_ofMessage {errand : Errand E} {result : WakeResult}
    {notes : List (Event E)} (h : errand.Wakes s pid result notes) :
    ∀ x ∈ notes, x.ofMessage = true := by
  cases h with
  | sender => split <;> simp [Event.ofMessage]
  | receiver => simp [Event.ofMessage]
  | orphan => simp

theorem bare_orLeave {α : Type} {result : Except SyscallError α} {k : α → Main E}
    (hk : ∀ a, (k a).Bare) : (orLeave f result k).Bare := by
  cases result with
  | error e => exact bare_leave _
  | ok a => exact hk a

variable [DecidableEq E]

theorem callOn_cases (P : Process E) (f : TrapFrame) (call : Call) :
    ((callOn P f call).Bare ∧ ∀ t : State E, t.recordResolve P f call = t) ∨
    ∃ held, call = .grant ∧ resolveGrant P f = .ok held := by
  have hother : ∀ t : State E, call ≠ .grant → t.recordResolve P f call = t := by
    intro t hcall
    unfold recordResolve
    split
    · exact absurd rfl hcall
    · rfl
  cases call with
  | grant =>
    cases hresolve : resolveGrant P f with
    | error e =>
      refine .inl ⟨?_, fun t ↦ ?_⟩
      · simp only [callOn, hresolve, orLeave]
        exact bare_leave _
      · simp only [recordResolve, hresolve]
    | ok held => exact .inr ⟨held, rfl, rfl⟩
  | send | recv | sbrk | blockRead | fileRead =>
    exact .inl ⟨bare_orLeave fun _ ↦ ⟨rfl, rfl, rfl⟩, fun t ↦ hother t (by simp)⟩
  | spawn | processStart | wait | kill | setHeapEnd oldEnd newEnd =>
    exact .inl ⟨⟨rfl, rfl, rfl⟩, fun t ↦ hother t (by simp)⟩

theorem Custody.record {call : Call} {P : Process E} (hP : s.sched.occupiedMut pid = some P) :
    s.Custody c (((s.withSched (s.sched.setProcess pid (callWrites call P))).recordResolve P f
      call).goto c (callOn P f call) []) := by
  have hview := occupiedMut_eq_some.mp hP
  rcases callOn_cases P f call with ⟨hbare, hrecord⟩ | ⟨held, rfl, hresolve⟩
  · rw [hrecord]
    refine .rest [] ?_ rfl (by simp) (.inr ?_)
    · exact Inner.Kept.setProcess hview rfl rfl (callWrites_became call P)
    · simpa [goto, setCore] using hbare
  · obtain ⟨hheld, hrights⟩ := resolveGrant_ok hresolve
    have hmain : callOn P f .grant = .grant ⟨f.rdi⟩ ⟨f.rdx.toUInt32⟩
        ⟨held.object, Rights.fromBitsTruncate f.r10.toUInt8⟩ P.pid f := by
      simp only [callOn, hresolve, orLeave]
    have hrecord : (s.withSched (s.sched.setProcess pid (callWrites .grant P))).recordResolve P f
        .grant = (s.withSched s.sched).record (.resolved P.pid held) := by
      simp only [recordResolve, hresolve, callWrites, setProcess_self hview]
    rw [hrecord, hmain]
    refine .resolve ⟨held.object, Rights.fromBitsTruncate f.r10.toUInt8⟩ hP hheld rfl hrights rfl rfl
      ?_ ?_ ?_ <;> simp [goto, setCore, grants, reserves, child]

theorem Custody.quiet (new : List (Event E)) {core : Core E} (hkept : s.sched.Kept b.sched)
    (hlog : b.log = new ++ s.log) (hnew : ∀ x ∈ new, x.ofMessage = true)
    (hmain : core.main = (s.cores c).main ∨ core.main.Bare) : s.Custody c (b.setCore c core) :=
  .rest new hkept hlog hnew (by rwa [setCore_self])

theorem Custody.exchange (new : List (Event E)) {core : Core E} (hsched : b.sched = s.sched)
    (hlog : b.log = new ++ s.log) (hnew : ∀ x ∈ new, x.ofMessage = true)
    (hmain : core.main = (s.cores c).main ∨ core.main.Bare) : s.Custody c (b.setCore c core) :=
  .quiet new (hsched ▸ .refl s.sched) hlog hnew hmain

theorem Custody.trade (h : s.Trade c s') : s.Custody c s' := by
  have hmain : (s'.cores c).main = (s.cores c).main ∨ (s'.cores c).main.Bare :=
    h.main (motive := fun m ↦ m = (s.cores c).main ∨ m.Bare) (.inl rfl) (fun _ ↦ .inr ⟨rfl, rfl, rfl⟩)
      (fun _ _ _ _ _ _ ↦ .inr ⟨rfl, rfl, rfl⟩) (fun _ ↦ .inr ⟨rfl, rfl, rfl⟩)
      fun _ ↦ .inr (bare_leave _)
  cases h <;> rw [goto_main] at hmain
  case delivered | enqueued =>
    exact .exchange [.accepted s.nextId] rfl rfl (by simp [Event.ofMessage]) hmain
  case displaced =>
    exact .exchange [.displacedTask s.nextId, .accepted s.nextId] rfl rfl (by simp [Event.ofMessage])
      hmain
  case taken hasks _ _ _ _ =>
    refine .exchange [_] rfl rfl (fun x hx ↦ ?_) hmain
    rw [List.mem_singleton.mp hx]
    cases hasks <;> rfl
  all_goals exact .exchange [] rfl rfl (by simp) hmain

theorem Stay.custody (hmain : (s.cores c).main = m) (h : s.Stay c m m') :
    s.Custody c (s.goto c m' []) := by
  by_cases hbare : m'.Bare
  · exact .exchange [] rfl rfl (by simp) (.inr hbare)
  · cases h with
    | noImage =>
      refine .load rfl rfl ?_ ?_ ?_ <;>
        simp [goto, setCore, grants, reserves, child, hmain]
    | _ => exact absurd ⟨rfl, rfl, rfl⟩ hbare

theorem unplaced_eq {i : Fin maxProcesses} (h : pid.slot = some i) : unplaced pid = some pid := by
  simp [unplaced, h]

theorem unplaced_full {g : UInt32} : unplaced (Pid.new maxProcesses g) = none := by
  simp [unplaced, Pid.slot_new_full]

theorem Custody.allocate (hcalls : s.Allocating c) (hgrants : m.grants = none) (hchild : m.child = none)
    (hreserves : m.reserves = unplaced (s.sched.allocatePid s.stackBusy).1) :
    s.Custody c ((s.withSched (s.sched.allocatePid s.stackBusy).2).goto c m []) := by
  cases hfree : s.sched.freeSlot s.stackBusy with
  | none =>
    rw [allocatePid_full hfree] at hreserves ⊢
    refine .quiet [] (.refl _) rfl (by simp) (.inr ⟨hgrants, ?_, hchild⟩)
    rw [hreserves, unplaced_full]
  | some i =>
    rw [allocatePid_fst hfree, unplaced_eq (s.sched.freshPid_slot i)] at hreserves
    refine .reserve hfree rfl rfl ?_ ?_ ?_ hcalls <;> simpa [goto, setCore]

theorem Turn.custody (h : s.Turn c s') : s.Custody c s' := by
  cases h with
  | tasks | orphans | dropBox | clearStackBusy =>
    exact .exchange [] rfl rfl (by simp) (.inl rfl)
  | pollSend _ _ htrade | pollRecv _ _ htrade | wakeReceiver _ _ htrade
  | takeWaitingReceiver _ _ htrade | trySend _ _ _ htrade | tryRecv _ _ _ htrade =>
    exact .trade htrade
  | wake _ hwakes => exact .quiet _ (.wake _ _) rfl (wakes_ofMessage hwakes) (.inl rfl)
  | stay _ hmain hstay => exact hstay.custody hmain
  | bootDone | leave | request | withdraw | mark =>
    exact .exchange [] rfl rfl (by simp) (.inr ⟨rfl, rfl, rfl⟩)
  | bootAllocate herr hmain => exact .allocate ⟨herr, .inl ⟨_, _, hmain⟩⟩ rfl rfl rfl
  | allocate herr hmain => exact .allocate ⟨herr, .inr ⟨_, _, hmain⟩⟩ rfl rfl rfl
  | @bootSpawn pid boot rest entry frame sched _ hmain _ hspawn =>
    unfold Inner.spawn at hspawn
    split at hspawn
    · cases hspawn
    · rename_i i hslot
      cases hspawn
      refine .seed ?_ hslot (show _ =
        (s.sched.setSlot i (.occupied (boot.process pid frame entry))).push pid from rfl) rfl ?_
      · rw [hmain]
        exact unplaced_eq hslot
      · rw [goto_main]
        exact ⟨rfl, rfl, rfl⟩
  | trap => exact .exchange [] rfl rfl (by simp) (.inr (bare_trapMain _ _))
  | ignoreIpi | spawnFail => exact .exchange [] rfl rfl (by simp) (.inr (bare_leave _))
  | record _ _ hP => exact .record hP
  | sendReturn =>
    exact .exchange [.completed _] rfl rfl (by simp [Event.ofMessage]) (.inr (bare_leave _))
  | recvReturn =>
    exact .exchange [.handed _ _ _] rfl rfl (by simp [Event.ofMessage]) (.inr (bare_leave _))
  | load _ hmain =>
    refine .load rfl rfl ?_ ?_ ?_
    · simp [goto, setCore, grants]
    · simp [goto, setCore, hmain, reserves, Process.new]
    · intro P hP
      rw [goto_main] at hP
      cases hP
      exact ⟨rfl, rfl⟩
  | release _ hmain =>
    refine .release ?_ rfl rfl ?_
    · rw [hmain]
      rfl
    · rw [goto_main]
      exact bare_leave _
  | spawn _ hmain hspawn =>
    unfold Inner.spawnSuspended at hspawn
    split at hspawn
    · cases hspawn
    · rename_i i hslot
      cases hspawn
      refine .spawn ?_ ?_ hslot rfl rfl ?_
      · rw [hmain]
        rfl
      · rw [hmain]
        exact unplaced_eq hslot
      · rw [goto_main]
        exact bare_leave _
  | grant _ hmain hP hparent hstate =>
    refine .grant ?_ hP hparent hstate rfl rfl ?_
    · rw [hmain]
      rfl
    · rw [goto_main]
      exact bare_leave _
  | start _ _ hstart => exact .quiet [] (.startChild hstart) rfl (by simp) (.inr (bare_leave _))
  | collect => exact .quiet [] (.waitForChild _ _) rfl (by simp) (.inr (bare_leave _))
  | kill => exact .quiet [] (.finalize _ _) rfl (by simp) (.inr (bare_leave _))
  | exit => exact .quiet [] (.finalize _ _) rfl (by simp) (.inr ⟨rfl, rfl, rfl⟩)
  | dispatch _ _ hyields hpop hswitch =>
    refine .quiet [] ?_ hyields.kept.2 (by simp) (.inr (bare_leave _))
    exact (hyields.kept.1.trans (.pop hpop)).trans (.switchTo hswitch)
  | abandon _ _ hyields hpop =>
    refine .quiet [] ?_ hyields.kept.2 (by simp) (.inr ⟨rfl, rfl, rfl⟩)
    exact hyields.kept.1.trans (.pop hpop)
  | resumeTick _ _ hpre hpop =>
    refine .quiet [] ?_ rfl (by simp) (.inr (bare_leave _))
    exact (Inner.Kept.preemptCurrent hpre).trans (.pop hpop)
  | rest _ _ hpop hnew =>
    refine .quiet [] (.pop hpop) rfl (by simp) (.inr ?_)
    rcases hnew with rfl | rfl <;> exact ⟨rfl, rfl, rfl⟩

end Turns

end State

end Tarnos.Kernel
