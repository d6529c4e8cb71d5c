import Tarnos.Kernel.Records

namespace Tarnos.Kernel

open Abi Arch Kcore Tarnos.Task Foundation.Transition Function Inner

variable {E : Type} {ends : UInt64 × UInt64}

def InHeap (address : UInt64) : Prop :=
  userHeapStart.toNat ≤ address.toNat ∧
    address.toNat ≤ userHeapStart.toNat + userHeapMaxSize.toNat

def Main.heapEnds : Main E → Option (UInt64 × UInt64)
  | .growHeap oldEnd newEnd _ | .withCurrent (.setHeapEnd oldEnd newEnd) _
  | .withProcess (.setHeapEnd oldEnd newEnd) _ _ => some (oldEnd, newEnd)
  | _ => none

theorem inHeap_start : InHeap userHeapStart := by
  unfold InHeap
  exact ⟨le_rfl, Nat.le_add_right _ _⟩

/-- The checks keep the break in its range. The subtraction does not wrap because the old break is
in it. -/
theorem InHeap.heapEnds {P : Process E} {f : TrapFrame}
    (h : InHeap P.heapEnd) (hends : heapEnds P f = .ok ends) : InHeap ends.1 ∧ InHeap ends.2 := by
  unfold Kernel.heapEnds at hends
  split_ifs at hends with hneg hover hmax
  cases hends
  obtain ⟨hlow, hhigh⟩ := h
  have hsum : (P.heapEnd + f.rdi).toNat = P.heapEnd.toNat + f.rdi.toNat := by
    rw [UInt64.toNat_add]
    exact Nat.mod_eq_of_lt (not_le.mp hover)
  have hle : userHeapStart ≤ P.heapEnd + f.rdi := by
    rw [UInt64.le_iff_toNat_le, hsum]
    omega
  have hsub : (P.heapEnd + f.rdi - userHeapStart).toNat ≤ userHeapMaxSize.toNat :=
    UInt64.le_iff_toNat_le.mp (UInt64.not_lt.mp hmax)
  rw [UInt64.toNat_sub_of_le _ _ hle] at hsub
  rw [UInt64.le_iff_toNat_le] at hle
  have hnew : (P.heapEnd + f.rdi).toNat ≤ userHeapStart.toNat + userHeapMaxSize.toNat := by omega
  exact ⟨⟨hlow, hhigh⟩, hle, hnew⟩

namespace State

structure BreaksInHeap (s : State E) : Prop where
  stored : ∀ i P, s.sched.processes i = .occupied P → InHeap P.heapEnd
  child : ∀ c P, (s.cores c).main.child = some P → InHeap P.heapEnd
  ends : ∀ c ends, (s.cores c).main.heapEnds = some ends → InHeap ends.1 ∧ InHeap ends.2

def KeepsBreak (P P' : Process E) : Prop := InHeap P.heapEnd → InHeap P'.heapEnd

theorem KeepsBreak.allows : Process.Allows (E := E) KeepsBreak fun _ ↦ True :=
  ⟨fun _ ↦ id, fun _ _ _ h h' hP ↦ h' (h hP), fun _ _ _ ↦ id, fun _ _ ↦ id, fun _ _ ↦ id,
    fun _ ↦ id, fun _ _ _ ↦ id, fun _ _ ↦ id⟩

section Steps

variable {s s' : State E} {a : Action E} {c : CoreId}

theorem syscallDispatch_heapEnds (f : TrapFrame) :
    (syscallDispatch f : Main E).heapEnds = none := by
  simp only [syscallDispatch, apply_ite Main.heapEnds]
  simp only [Main.heapEnds, ite_self]

theorem BreaksInHeap.init (config : BootConfig E) : (State.init config).BreaksInHeap := by
  refine ⟨fun i P hP ↦ ?_, fun c P hP ↦ ?_, fun c ends hends ↦ ?_⟩
  · cases hP
  · simp only [State.init] at hP
    split_ifs at hP <;> cases hP
  · simp only [State.init] at hends
    split_ifs at hends <;> cases hends

variable [DecidableEq E]

theorem callOn_heapEnds {P : Process E} {f : TrapFrame} {call : Call}
    (h : (callOn P f call).heapEnds = some ends) : call = .sbrk ∧ heapEnds P f = .ok ends := by
  have hleave : ∀ {α : Type} (check : Except SyscallError α) (k : α → Main E),
      (∀ a, (k a).heapEnds = none) → (orLeave f check k).heapEnds = none := by
    intro α check k hk
    cases check with
    | error e => rfl
    | ok a => exact hk a
  cases call with
  | sbrk =>
    refine ⟨rfl, ?_⟩
    simp only [callOn] at h
    generalize heapEnds P f = check at h ⊢
    cases check with
    | error e => cases h
    | ok pair => exact congrArg Except.ok (Option.some.inj h)
  | send | recv | grant | blockRead | fileRead => cases (hleave _ _ fun _ ↦ rfl).symm.trans h
  | spawn | processStart | wait | kill | setHeapEnd _ _ => cases h

theorem Turn.heapEnds (hturn : s.Turn c s') (hends : (s'.cores c).main.heapEnds = some ends) :
    (s.cores c).main.heapEnds = some ends ∨
      ∃ pid f P, s.sched.occupiedMut pid = some P ∧ (s.cores c).main = .withProcess .sbrk pid f ∧
        Kernel.heapEnds P f = .ok ends := by
  by_cases herr' : (s.cores c).errands ≠ []
  · rw [hturn.main_of_errands herr'] at hends
    exact .inl hends
  push Not at herr'
  cases hturn with
  | tasks herr _ | wake herr _ | orphans herr | dropBox herr | clearStackBusy herr | pollSend herr _
  | pollRecv herr _ | wakeReceiver herr _ | takeWaitingReceiver herr _ => cases herr'.symm.trans herr
  | stay _ hmain hstay =>
    rw [goto_main] at hends
    cases hstay with
    | @caller call f pid _ =>
      cases call with
      | setHeapEnd oldEnd newEnd => exact .inl (by rw [hmain]; exact hends)
      | _ => cases hends
    | heapMapped => exact .inl (by rw [hmain]; exact hends)
    | _ => cases hends
  | @trap f g kind _ _ _ =>
    rw [setCore_self] at hends
    cases kind with
    | syscall => cases (syscallDispatch_heapEnds f).symm.trans hends
    | timer | ipi | fault => cases hends
  | record _ hmain hP =>
    rw [goto_main] at hends
    obtain ⟨rfl, hok⟩ := callOn_heapEnds hends
    exact .inr ⟨_, _, _, hP, hmain, hok⟩
  | trySend _ hmain _ htrade | tryRecv _ hmain _ htrade =>
    refine absurd hends (htrade.main (motive := fun m ↦ m.heapEnds ≠ _) ?_ nofun nofun nofun nofun)
    rw [hmain]
    nofun
  | dispatch _ _ _ _ _ _ | abandon _ _ _ _ _ =>
    simp [State.dispatch, State.abandon, Main.heapEnds] at hends
  | bootDone _ _ | leave _ _ =>
    rw [setCore_self] at hends
    cases hends
  | rest _ _ _ hnew _ =>
    rw [goto_main] at hends
    rcases hnew with rfl | rfl <;> cases hends
  | _ =>
    rw [goto_main] at hends
    cases hends

theorem BreaksInHeap.next_stored (h : s.BreaksInHeap) (hs : s.next a = some s')
    {i : Fin maxProcesses} {P' : Process E} (hP' : s'.sched.processes i = .occupied P') :
    InHeap P'.heapEnd := by
  have hcalls : ∀ call pid f P, (s.cores a.core).main = .withProcess call pid f →
      s.sched.occupiedMut pid = some P → KeepsBreak P (callWrites call P) := by
    intro call pid f P hmain _
    cases call with
    | setHeapEnd oldEnd newEnd =>
      exact fun _ ↦ (h.ends a.core (oldEnd, newEnd) (by rw [hmain]; rfl)).2
    | _ => exact id
  cases next_descent KeepsBreak.allows (fun _ _ ↦ trivial) hcalls (fun _ _ _ ↦ id) hs hP' with
  | kept hP hkeeps => exact hkeeps (h.stored i _ hP)
  | spawned hmain => exact h.child a.core P' (by rw [hmain]; rfl)
  | booted _ _ _ hnew =>
    rw [hnew]
    exact inHeap_start

theorem BreaksInHeap.next (h : s.BreaksInHeap) (hs : s.next a = some s') : s'.BreaksInHeap := by
  refine ⟨fun i P' hP' ↦ h.next_stored hs hP', fun d P hP ↦ ?_, fun d ends hends ↦ ?_⟩
  · by_cases hd : d = a.core
    · subst hd
      rcases (next_turn hs).child hP with ⟨-, hsame⟩ | ⟨herr, caller, child, f, hmain⟩
      · exact h.child a.core P (hsame ▸ hP)
      · obtain ⟨-, entry, frame, -, rfl⟩ := child_of_load hs herr hmain hP
        exact inHeap_start
    · rw [(next_turn hs).others hd] at hP
      exact h.child d P hP
  · by_cases hd : d = a.core
    · subst hd
      rcases (next_turn hs).heapEnds hends with hold | ⟨pid, f, P, hP, -, hok⟩
      · exact h.ends a.core ends hold
      · have hview := occupiedMut_eq_some.mp hP
        obtain ⟨i, -, rfl, -⟩ := slot_of_eq hview
        exact (h.stored i P (by rw [← view_pidAt, hview])).heapEnds hok
    · rw [(next_turn hs).others hd] at hends
      exact h.ends d ends hends

theorem breaksInHeap_of_reach {config : BootConfig E}
    (h : Reach next (fun _ _ ↦ True) (init config) s) : s.BreaksInHeap :=
  h.invariant (I := fun t : State E ↦ t.BreaksInHeap) (BreaksInHeap.init config)
    fun _ _ _ ht _ hs ↦ ht.next hs

end Steps

end State

end Tarnos.Kernel
