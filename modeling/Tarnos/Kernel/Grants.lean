import Tarnos.Kernel.Wrap
import Tarnos.Memory.Phys

namespace Tarnos.Kernel

open Abi Arch Kcore Tarnos.Task Foundation.Transition Function Inner

variable {E : Type} {target caller : Pid} {dest : CapIndex}
  {slot : CapabilitySlot (KernelObjectRef E)} {child : Process E}

namespace Main

def granting : Main E → Option TrapFrame
  | .withCurrent .grant f | .withProcess .grant _ f | .grant _ _ _ _ f => some f
  | _ => none

def grantWrite : Main E → Option (Pid × CapIndex × Pid)
  | .grant target dest _ caller _ => some (target, dest, caller)
  | _ => none

end Main

namespace State

variable {s s' : State E} {c : CoreId} {f : TrapFrame} {choice : Choice E}
  {heap : Foundation.Heap Memory.heapSize} {slotSize : ℕ}

/-- The heap has room for the slot that the core's step writes, if it writes one. -/
def heapServes (heap : Foundation.Heap Memory.heapSize) (slotSize : ℕ) (s : State E) (c : CoreId) :
    Bool :=
  match (s.cores c).main.grantWrite with
  | none => true
  | some (target, dest, caller) =>
    match s.sched.occupiedMut target with
    | none => true
    | some child =>
      child.parent ≠ some caller ∨ child.state ≠ .suspended ∨
        (heap.reserve [] slotSize child.capTable.capacity (dest.index.toNat + 1)).isSome

/-- A step of a core that has no errands, with `slotSize` bytes to a slot of a table. A failed
allocation panics. -/
def stepOn [DecidableEq E] (heap : Foundation.Heap Memory.heapSize) (slotSize : ℕ) (s : State E)
    (c : CoreId) (choice : Choice E) : Outcome (State E) :=
  if s.heapServes heap slotSize c then s.step c choice else .panic .outOfMemory

/-- What a step of `sys_grant` may do: go on, fail with every table as it was, or succeed with a
vector of the child that the kernel heap can hold. -/
inductive GrantFits (slotSize : ℕ) (s : State E) (c : CoreId) (f : TrapFrame) (s' : State E) : Prop
  | goesOn (hsched : s'.sched = s.sched) (hmain : (s'.cores c).main.granting = some f)
  | fails (e : SyscallError) (hsched : s'.sched = s.sched)
      (hmain : (s'.cores c).main = .leave (f.withRax e.toRax))
  | succeeds {target caller : Pid} {dest : CapIndex} {child : Process E}
      (hwrite : (s.cores c).main.grantWrite = some (target, dest, caller))
      (hchild : s'.sched.occupiedMut target = some child)
      (hfits : slotSize * child.capTable.capacity ≤ Memory.heapSize)
      (hmain : (s'.cores c).main = .leave (f.withRax 0))

/-- If the step would write the child's table: its vector lies in the heap and has room for the
index, or the heap gives a larger one beside it. -/
def GrantRoom (heap : Foundation.Heap Memory.heapSize) (slotSize : ℕ) (s : State E) (c : CoreId) :
    Prop :=
  ∀ target dest caller child, (s.cores c).main.grantWrite = some (target, dest, caller) →
    s.sched.occupiedMut target = some child → child.parent = some caller →
    child.state = .suspended →
    slotSize * child.capTable.capacity ≤ Memory.heapSize ∧
      (dest.index.toNat < child.capTable.capacity ∨
        heap.gives [slotSize * child.capTable.capacity]
          (slotSize * Foundation.Heap.grown child.capTable.capacity (dest.index.toNat + 1)) = true)

theorem heapServes_of_refused
    (hrefused : ∀ target dest caller child, (s.cores c).main.grantWrite = some (target, dest, caller) →
      s.sched.occupiedMut target = some child →
      ¬ (child.parent = some caller ∧ child.state = .suspended)) :
    s.heapServes heap slotSize c = true := by
  unfold heapServes
  split
  · rfl
  · rename_i target dest caller hwrite
    split
    · rfl
    · rename_i child hchild
      have hnot := hrefused target dest caller child hwrite hchild
      rw [decide_eq_true_iff]
      tauto

theorem heapServes_iff (heap : Foundation.Heap Memory.heapSize) (slotSize : ℕ)
    (hwrite : (s.cores c).main.grantWrite = some (target, dest, caller))
    (hchild : s.sched.occupiedMut target = some child) (hparent : child.parent = some caller)
    (hstate : child.state = .suspended) :
    s.heapServes heap slotSize c = true ↔ dest.index.toNat < child.capTable.capacity ∨
      heap.gives [slotSize * child.capTable.capacity]
        (slotSize * Foundation.Heap.grown child.capTable.capacity (dest.index.toNat + 1)) = true := by
  simp only [heapServes, hwrite, hchild, hparent, hstate, ne_eq, not_true_eq_false, false_or,
    decide_eq_true_eq, Foundation.Heap.isSome_reserve, Nat.succ_le_iff]

theorem grown_fits {table : CapTable (KernelObjectRef E)}
    (hfits : slotSize * table.capacity ≤ Memory.heapSize)
    (hroom : dest.index.toNat < table.capacity ∨ heap.gives [slotSize * table.capacity]
      (slotSize * Foundation.Heap.grown table.capacity (dest.index.toNat + 1)) = true) :
    slotSize * table.capacityFor dest ≤ Memory.heapSize := by
  unfold CapTable.capacityFor
  split
  · exact hfits
  · rename_i hlarge
    have hbound := heap.bounded _ _ (hroom.resolve_left hlarge)
    omega

theorem step_grant [DecidableEq E] (choice : Choice E) (herr : (s.cores c).errands = [])
    (hmain : (s.cores c).main = .grant target dest slot caller f)
    (hchild : s.sched.occupiedMut target = some child) (hparent : child.parent = some caller)
    (hstate : child.state = .suspended) :
    ∃ s', s.step c choice = .next s' ∧ (s'.cores c).main = .leave (f.withRax 0) ∧
      ∃ written, s'.sched.occupiedMut target = some written ∧
        written.capTable.capacity = child.capTable.capacityFor dest := by
  have hnot : ¬ (child.parent ≠ some caller ∨ child.state ≠ .suspended) := by
    rintro (hother | hother)
    · exact hother hparent
    · exact hother hstate
  unfold step
  simp only [herr, hmain, mainStep, grant, hchild, if_neg hnot]
  refine ⟨_, rfl, goto_main, { child with capTable := child.capTable.insert dest slot }, ?_, rfl⟩
  apply occupiedMut_eq_some.mpr
  exact (view_setProcess (occupiedMut_eq_some.mp hchild) _ target).trans (if_pos rfl)

theorem grantFits_of_written (slotSize : ℕ) {written : Process E}
    (hwrite : (s.cores c).main.grantWrite = some (target, dest, caller))
    (hmain : (s'.cores c).main = .leave (f.withRax 0))
    (hwritten : s'.sched.occupiedMut target = some written)
    (hcapacity : written.capTable.capacity = child.capTable.capacityFor dest) :
    GrantFits slotSize s c f s' ↔
      slotSize * child.capTable.capacityFor dest ≤ Memory.heapSize := by
  constructor
  · intro h
    cases h with
    | goesOn _ hgoes =>
      rw [hmain] at hgoes
      cases hgoes
    | fails e _ hfails =>
      rw [hmain] at hfails
      have hrax : (f.withRax 0).rax = (f.withRax e.toRax).rax := by
        rw [Main.leave.inj hfails]
      exact absurd hrax.symm e.toRax_ne_zero
    | succeeds hwrite' hchild hfits _ =>
      rw [hwrite] at hwrite'
      cases hwrite'
      rw [hwritten] at hchild
      cases hchild
      rwa [← hcapacity]
  · intro hroom
    rw [← hcapacity] at hroom
    exact .succeeds hwrite hwritten hroom hmain

section Grant

variable [DecidableEq E]

theorem grantFits_of_withCurrent (slotSize : ℕ) (herr : (s.cores c).errands = [])
    (hmain : (s.cores c).main = .withCurrent .grant f) :
    ∃ s', s.step c choice = .next s' ∧ GrantFits slotSize s c f s' := by
  unfold step
  simp only [herr, hmain, mainStep, withCurrent]
  cases s.sched.current c with
  | none => exact ⟨_, rfl, .fails _ rfl goto_main⟩
  | some pid => exact ⟨_, rfl, .goesOn rfl (by rw [goto_main]; rfl)⟩

theorem grantFits_of_withProcess {pid : Pid} (slotSize : ℕ) (herr : (s.cores c).errands = [])
    (hmain : (s.cores c).main = .withProcess .grant pid f) :
    ∃ s', s.step c choice = .next s' ∧ GrantFits slotSize s c f s' := by
  unfold step
  simp only [herr, hmain, mainStep, withProcess]
  cases hprocess : s.sched.occupiedMut pid with
  | none => exact ⟨_, rfl, .fails _ rfl goto_main⟩
  | some process =>
    have hsame : s.sched.setProcess pid (callWrites .grant process) = s.sched :=
      setProcess_self (occupiedMut_eq_some.mp hprocess)
    dsimp only
    rw [hsame]
    refine ⟨_, rfl, ?_⟩
    cases hresolve : resolveGrant process f with
    | error e =>
      refine .fails e ?_ ?_
      · simp only [recordResolve, hresolve]
        rfl
      · rw [goto_main]
        simp only [callOn, orLeave, hresolve]
    | ok slot =>
      refine .goesOn ?_ ?_
      · simp only [recordResolve, hresolve]
        rfl
      · rw [goto_main]
        simp only [callOn, orLeave, hresolve, Main.granting]

theorem grantFits_of_grant (slotSize : ℕ) (herr : (s.cores c).errands = [])
    (hmain : (s.cores c).main = .grant target dest slot caller f)
    (hrefused : ∀ child, s.sched.occupiedMut target = some child →
      ¬ (child.parent = some caller ∧ child.state = .suspended)) :
    ∃ s', s.step c choice = .next s' ∧ GrantFits slotSize s c f s' := by
  unfold step
  simp only [herr, hmain, mainStep, grant]
  cases hchild : s.sched.occupiedMut target with
  | none => exact ⟨_, rfl, .fails _ rfl goto_main⟩
  | some child =>
    have hnot := not_and_or.mp (hrefused child hchild)
    dsimp only
    rw [if_pos hnot]
    exact ⟨_, rfl, .fails _ rfl goto_main⟩

/-- A step of a `sys_grant` is taken and does what it may exactly if the heap has room for the table
that it writes. -/
theorem grant_fits_iff (heap : Foundation.Heap Memory.heapSize) (slotSize : ℕ) (s : State E)
    (c : CoreId) (f : TrapFrame) (choice : Choice E) (herr : (s.cores c).errands = [])
    (hgranting : (s.cores c).main.granting = some f) :
    (∃ s', s.stepOn heap slotSize c choice = .next s' ∧ GrantFits slotSize s c f s') ↔
      GrantRoom heap slotSize s c := by
  have hquiet (hrefused : ∀ target dest caller child,
      (s.cores c).main.grantWrite = some (target, dest, caller) →
      s.sched.occupiedMut target = some child →
      ¬ (child.parent = some caller ∧ child.state = .suspended))
      (hstep : ∃ s', s.step c choice = .next s' ∧ GrantFits slotSize s c f s') :
      (∃ s', s.stepOn heap slotSize c choice = .next s' ∧ GrantFits slotSize s c f s') ↔
        GrantRoom heap slotSize s c := by
    rw [stepOn, if_pos (heapServes_of_refused hrefused)]
    exact iff_of_true hstep fun target dest caller child hwrite hchild hparent hstate ↦
      absurd ⟨hparent, hstate⟩ (hrefused target dest caller child hwrite hchild)
  unfold Main.granting at hgranting
  split at hgranting
  · rename_i f' hmain
    cases hgranting
    exact hquiet (fun _ _ _ _ hwrite ↦ by rw [hmain] at hwrite; cases hwrite)
      (grantFits_of_withCurrent slotSize herr hmain)
  · rename_i pid f' hmain
    cases hgranting
    exact hquiet (fun _ _ _ _ hwrite ↦ by rw [hmain] at hwrite; cases hwrite)
      (grantFits_of_withProcess slotSize herr hmain)
  · rename_i target dest slot caller f' hmain
    cases hgranting
    have hwrite : (s.cores c).main.grantWrite = some (target, dest, caller) := by
      rw [hmain]
      rfl
    by_cases hchild : ∃ child, s.sched.occupiedMut target = some child ∧
        child.parent = some caller ∧ child.state = .suspended
    · obtain ⟨child, hchild, hparent, hstate⟩ := hchild
      obtain ⟨s', hstep, hleave, written, hwritten, hcapacity⟩ :=
        step_grant choice herr hmain hchild hparent hstate
      have hfits := grantFits_of_written slotSize hwrite hleave hwritten hcapacity
      have hserves := heapServes_iff heap slotSize hwrite hchild hparent hstate
      constructor
      · rintro ⟨t, ht, hgrant⟩ target' dest' caller' child' hwrite' hchild' - -
        cases hwrite.symm.trans hwrite'
        cases hchild.symm.trans hchild'
        unfold stepOn at ht
        split at ht
        · rename_i hroom
          obtain rfl : s' = t := Outcome.next.inj (hstep.symm.trans ht)
          have hle := (le_max_left _ _).trans (child.capTable.le_capacityFor dest)
          exact ⟨(Nat.mul_le_mul_left _ hle).trans (hfits.mp hgrant), hserves.mp hroom⟩
        · cases ht
      · intro hroom
        obtain ⟨hheld, hgives⟩ := hroom target dest caller child hwrite hchild hparent hstate
        refine ⟨s', ?_, hfits.mpr (grown_fits hheld hgives)⟩
        rw [stepOn, if_pos (hserves.mpr hgives), hstep]
    · have hrefused : ∀ child, s.sched.occupiedMut target = some child →
          ¬ (child.parent = some caller ∧ child.state = .suspended) :=
        fun child hfound hmay ↦ hchild ⟨child, hfound, hmay⟩
      refine hquiet (fun _ _ _ child hwrite' hfound ↦ ?_)
        (grantFits_of_grant slotSize herr hmain hrefused)
      cases hwrite.symm.trans hwrite'
      exact hrefused child hfound
  · cases hgranting

end Grant

def grantAt (dest : UInt64) : List (Action Unit) :=
  bootSolo ++ spawnOn 0 1 ++
    [⟨0, .trap .syscall
      { userFrame with rax := sysGrant, rdi := twin.raw, rdx := dest, r10 := 2 }⟩] ++ advance 0 2

def grantFrame (dest : UInt64) : TrapFrame :=
  { userFrame with rax := sysGrant, rdi := twin.raw, rdx := dest, r10 := 2 }

def Grants (dest : UInt64) (s : State Unit) : Prop :=
  (s.cores 0).errands = [] ∧ (s.cores 0).main.granting = some (grantFrame dest) ∧
    (s.cores 0).main.grantWrite = some (twin, ⟨dest.toUInt32⟩, Pid.new 0 1) ∧
    (s.sched.occupiedMut twin).map (fun child ↦
      (child.parent, child.state, child.capTable.capacity)) =
      some (some (Pid.new 0 1), .suspended, 0)

instance (dest : UInt64) (s : State Unit) : Decidable (Grants dest s) :=
  inferInstanceAs (Decidable (_ ∧ _ ∧ _ ∧ _))

theorem grant_fits_first : ∃ s s', Reach next (fun _ _ ↦ True) (init soloEndpoint) s ∧
    s.stepOn (.unshared Memory.heapSize) 24 0 .go = .next s' ∧
      GrantFits 24 s 0 (grantFrame 0) s' := by
  obtain ⟨s, hreach, herr, hgranting, hwrite, hchild⟩ : ∃ s,
      Reach next (fun _ _ ↦ True) (init soloEndpoint) s ∧ Grants 0 s :=
    exists_of_run (grantAt 0) (by decide +kernel) fun _ _ h ↦ h
  obtain ⟨s', hstep⟩ :=
    (grant_fits_iff (.unshared Memory.heapSize) 24 s 0 (grantFrame 0) .go herr hgranting).mpr (by
      intro target dest caller child hwrite' hfound _ _
      cases hwrite.symm.trans hwrite'
      rw [hfound, Option.map_some, Option.some.injEq, Prod.mk.injEq, Prod.mk.injEq] at hchild
      rw [hchild.2.2]
      exact ⟨by decide, .inr (by decide +kernel)⟩)
  exact ⟨s, s', hreach, hstep⟩

theorem grant_exhausts_heap : ∃ s, Reach next (fun _ _ ↦ True) (init soloEndpoint) s ∧
    Grants 0xFFFFFFFF s ∧
    ∀ heap slotSize, 1 ≤ slotSize → s.stepOn heap slotSize 0 .go = .panic .outOfMemory := by
  refine exists_of_run (grantAt 0xFFFFFFFF) (by decide +kernel) fun s _
    (hgrants : Grants 0xFFFFFFFF s) ↦ ⟨hgrants, ?_⟩
  intro heap slotSize hsize
  obtain ⟨-, -, hwrite, hfound⟩ := hgrants
  obtain ⟨child, hchild, hfields⟩ := Option.map_eq_some_iff.mp hfound
  simp only [Prod.mk.injEq] at hfields
  obtain ⟨hparent, hstate, hcapacity⟩ := hfields
  rw [stepOn, if_neg]
  rw [heapServes_iff heap slotSize hwrite hchild hparent hstate, hcapacity]
  rintro (hless | hgives)
  · exact Nat.not_lt_zero _ hless
  · have hbound := heap.bounded _ _ hgives
    have hdest : Foundation.Heap.grown 0 ((0xFFFFFFFF : UInt64).toUInt32.toNat + 1) = 4294967296 := by
      decide
    have hsmall : Memory.heapSize < 4294967296 := by decide
    rw [hdest] at hbound
    have hscale := Nat.mul_le_mul_right 4294967296 hsize
    omega

end State

end Tarnos.Kernel
