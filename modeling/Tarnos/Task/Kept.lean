import Tarnos.Task.Operations

namespace Tarnos.Task

open Abi Arch Kcore Function

variable {E : Type} {f : TrapFrame}

/-- `P'` is what became of `P`: the same process with the same capabilities. It may have lost its
parent, and it is suspended only if it was. -/
structure Process.Became (P P' : Process E) : Prop where
  pid : P'.pid = P.pid
  capTable : P'.capTable = P.capTable
  parent : P'.parent = P.parent ∨ P'.parent = none
  suspended : P'.state = .suspended → P.state = .suspended

theorem Process.Became.refl (P : Process E) : P.Became P := ⟨rfl, rfl, .inl rfl, id⟩

theorem Process.Became.trans {P P' P'' : Process E} (h : P.Became P') (h' : P'.Became P'') :
    P.Became P'' := by
  refine ⟨h'.pid.trans h.pid, h'.capTable.trans h.capTable, ?_, fun hs ↦ h.suspended (h'.suspended hs)⟩
  rcases h'.parent with hsame | hnone
  · rcases h.parent with hsame' | hnone'
    · exact .inl (hsame.trans hsame')
    · exact .inr (hsame.trans hnone')
  · exact .inr hnone

/-- `R` allows every change that the scheduler makes to a record; the frames it saves satisfy
`frames`. -/
structure Process.Allows (R : Process E → Process E → Prop) (frames : TrapFrame → Prop) : Prop where
  refl : ∀ P, R P P
  trans : ∀ P P' P'', R P P' → R P' P'' → R P P''
  state : ∀ P (state : ProcessState), state ≠ .suspended → R P { P with state := state }
  pending : ∀ P pending, R P { P with pendingWake := pending }
  waiter : ∀ P waiter, R P { P with waitWaiter := waiter }
  orphan : ∀ P, R P { P with parent := none }
  save : ∀ P f, frames f → R P { P with trapFrame := f }
  wake : ∀ P result, R P (applyWakeResult P result)

theorem Process.Became.allows : Process.Allows (E := E) Process.Became fun _ ↦ True :=
  ⟨.refl, fun _ _ _ h h' ↦ h.trans h', fun _ _ hstate ↦ ⟨rfl, rfl, .inl rfl, fun hs ↦ absurd hs hstate⟩,
    fun _ _ ↦ ⟨rfl, rfl, .inl rfl, id⟩, fun _ _ ↦ ⟨rfl, rfl, .inl rfl, id⟩,
    fun _ ↦ ⟨rfl, rfl, .inr rfl, id⟩, fun _ _ _ ↦ ⟨rfl, rfl, .inl rfl, id⟩,
    fun _ _ ↦ ⟨rfl, rfl, .inl rfl, fun hs ↦ by cases hs⟩⟩

namespace Inner

variable {s t u : Inner E} {p : Pid} {i : Fin maxProcesses} {P P' : Process E} {c : CoreId}

/-- Every process of `t` was in `s`, in the same slot, changed as `R` allows, and the reservations
of `s` stand. -/
structure Evolves (R : Process E → Process E → Prop) (s t : Inner E) : Prop where
  generations : t.generations = s.generations
  occupied : ∀ i P', t.processes i = .occupied P' → ∃ P, s.processes i = .occupied P ∧ R P P'
  reserved : ∀ i, s.processes i = .reserved → t.processes i = .reserved

namespace Evolves

variable {R : Process E → Process E → Prop} {frames : TrapFrame → Prop}

section

variable (hR : Process.Allows R frames)

include hR

theorem of_processes (h : t.processes = s.processes) (hgen : t.generations = s.generations) :
    s.Evolves R t := by
  refine ⟨hgen, fun i P' hP' ↦ ?_, fun i hi ↦ by rw [h, hi]⟩
  rw [h] at hP'
  exact ⟨P', hP', hR.refl P'⟩

theorem refl (s : Inner E) : s.Evolves R s := of_processes hR rfl rfl

theorem trans (h : s.Evolves R t) (h' : t.Evolves R u) : s.Evolves R u := by
  refine ⟨h'.generations.trans h.generations, fun i P'' hP'' ↦ ?_,
    fun i hi ↦ h'.reserved i (h.reserved i hi)⟩
  obtain ⟨P', hP', hchange'⟩ := h'.occupied i P'' hP''
  obtain ⟨P, hP, hchange⟩ := h.occupied i P' hP'
  exact ⟨P, hP, hR.trans _ _ _ hchange hchange'⟩

theorem rewrite (hP : s.processes i = .occupied P)
    (ht : t.processes = update s.processes i (.occupied P')) (hgen : t.generations = s.generations)
    (h : R P P') : s.Evolves R t := by
  refine ⟨hgen, fun j Q' hQ' ↦ ?_, fun j hj ↦ ?_⟩
  · rw [ht] at hQ'
    by_cases hj : j = i
    · subst hj
      rw [update_self, Slot.occupied.injEq] at hQ'
      exact ⟨P, hP, hQ' ▸ h⟩
    · rw [update_of_ne hj] at hQ'
      exact ⟨Q', hQ', hR.refl Q'⟩
  · rw [ht, update_of_ne, hj]
    rintro rfl
    rw [hP] at hj
    cases hj

theorem vacate (slot : Slot E) (h : ∀ P, slot ≠ .occupied P) (hold : s.processes i ≠ .reserved)
    (ht : t.processes = update s.processes i slot) (hgen : t.generations = s.generations) :
    s.Evolves R t := by
  refine ⟨hgen, fun j Q' hQ' ↦ ?_, fun j hj ↦ ?_⟩
  · rw [ht] at hQ'
    by_cases hj : j = i
    · subst hj
      rw [update_self] at hQ'
      exact absurd hQ' (h Q')
    · rw [update_of_ne hj] at hQ'
      exact ⟨Q', hQ', hR.refl Q'⟩
  · rw [ht, update_of_ne, hj]
    rintro rfl
    exact hold hj

theorem setProcess (hP : s.view p = .occupied P) (ht : t.processes = (s.setProcess p P').processes)
    (hgen : t.generations = (s.setProcess p P').generations) (h : R P P') : s.Evolves R t := by
  obtain ⟨i, rfl, heq⟩ := setProcess_eq hP P'
  rw [heq] at ht hgen
  exact rewrite hR (by rw [← view_pidAt, hP]) ht hgen h

theorem startChild {target caller : Pid} (h : s.startChild target caller = .ok t) :
    s.Evolves R t := by
  obtain ⟨P, hP, -, hstate, rfl⟩ := startChild_ok h
  exact setProcess hR hP rfl rfl (hR.state P .ready (by simp))

theorem wake (p : Pid) (result : WakeResult) :
    s.Evolves R (s.wakeBlockedProcessLocked p result) := by
  rcases s.wakeBlockedProcessLocked_cases p result with
    ⟨-, heq⟩ | ⟨P, hP, -, heq⟩ | ⟨P, hP, -, heq⟩
  · rw [heq]
    exact refl hR s
  · rw [heq]
    exact setProcess hR hP rfl rfl (hR.pending P _)
  · rw [heq]
    exact setProcess hR hP rfl rfl (hR.wake P result)

theorem preemptCurrent (hf : frames f) (h : s.preemptCurrent c f = .ok t) : s.Evolves R t := by
  unfold Inner.preemptCurrent at h
  split at h
  · cases h
    exact refl hR s
  · split at h
    · cases h
    · split at h
      · rename_i P hP
        cases h
        exact rewrite hR hP rfl rfl
          (hR.trans _ _ _ (hR.save P f hf) (hR.state _ .ready (by simp)))
      · cases h
        exact refl hR s

theorem blockCurrentProcessLocked (hf : frames f) (h : s.blockCurrentProcessLocked c f = .ok t) :
    s.Evolves R t := by
  unfold Inner.blockCurrentProcessLocked at h
  split at h
  · cases h
    exact refl hR s
  · split at h
    · cases h
    · split at h
      · rename_i P hP
        have hblocked : R P { P with trapFrame := f, state := .blocked } :=
          hR.trans _ _ _ (hR.save P f hf) (hR.state _ .blocked (by simp))
        split at h
        · cases h
          exact rewrite hR hP rfl rfl hblocked
        · cases h
          exact rewrite hR hP rfl rfl
            (hR.trans _ _ _ (hR.trans _ _ _ hblocked (hR.pending _ none)) (hR.wake _ _))
      · cases h
        exact of_processes hR rfl rfl

theorem waitForChild (target caller : Pid) : s.Evolves R (s.waitForChild target caller) := by
  unfold Inner.waitForChild
  split
  · rename_i status i hwait hslot
    refine vacate hR (i := i) .empty (by simp) ?_ rfl rfl
    intro hreserved
    simp [waitOutcome, hslot, hreserved] at hwait
  · split
    · rename_i P hP
      exact rewrite hR hP rfl rfl (hR.waiter P _)
    · exact refl hR s
  · exact refl hR s

theorem switchTo (h : s.switchTo c p = .ok (P, t)) : s.Evolves R t := by
  obtain ⟨P₀, hP₀, rfl, -, -, rfl⟩ := switchTo_ok h
  refine trans hR (of_processes hR rfl rfl : s.Evolves R (s.setCurrent c (some p))) ?_
  exact setProcess hR hP₀ rfl rfl (hR.state P₀ .running (by simp))

theorem pop {popped : Inner E} {front : Option Pid} (h : s.pop = (front, popped)) :
    s.Evolves R popped := by
  cases h
  exact of_processes hR rfl rfl

theorem notifyParent (h : s.processes i = .empty) (P : Process E) (status : ExitStatus) :
    s.Evolves R (s.notifyParent i P status) := by
  unfold Inner.notifyParent
  split
  · exact wake hR _ _
  · split
    · exact vacate hR (.zombie _ _) (by simp) (by simp [h]) rfl rfl
    · exact refl hR s

theorem reapSlot {take : Pid → ExitStatus → Finalizing E → Finalizing E}
    (htake : ∀ pid status (acc : Finalizing E), acc.1.Evolves R (take pid status acc).1)
    (exiting : Pid) (acc : Finalizing E) (i : Fin maxProcesses) :
    acc.1.Evolves R (reapSlot take exiting acc i).1 := by
  unfold Inner.reapSlot
  split
  · rename_i C hC
    split
    · split
      · exact htake _ _ _
      · exact rewrite hR hC rfl rfl (hR.orphan C)
    · exact refl hR _
  · rename_i hzombie
    split
    · exact vacate hR .empty (by simp) (by simp [hzombie]) rfl rfl
    · exact refl hR _
  · exact refl hR _

theorem reapChildrenOf {take : Pid → ExitStatus → Finalizing E → Finalizing E}
    (htake : ∀ pid status (acc : Finalizing E), acc.1.Evolves R (take pid status acc).1)
    (exiting : Pid) (acc : Finalizing E) : acc.1.Evolves R (reapChildrenOf take exiting acc).1 := by
  unfold Inner.reapChildrenOf
  generalize List.finRange maxProcesses = indices
  induction indices generalizing acc with
  | nil => exact refl hR _
  | cons i rest ih =>
    rw [List.foldl_cons]
    exact trans hR (Evolves.reapSlot hR htake exiting acc i) (ih _)

theorem taken (h : s.processes i = .occupied P) (pid : Pid) (status : ExitStatus) :
    s.Evolves R ((((s.setSlot i .empty).removeFromReadyQueue pid).clearCurrent pid).notifyParent
      i P status) := by
  generalize htaken : ((s.setSlot i .empty).removeFromReadyQueue pid).clearCurrent pid = taken
  have hvacated : s.Evolves R taken := by
    subst htaken
    exact vacate hR (i := i) .empty (by simp) (by simp [h]) rfl rfl
  have hempty : taken.processes i = .empty := by
    subst htaken
    exact update_self ..
  exact trans hR hvacated (notifyParent hR hempty P status)

theorem takeAndFinalizeSlot (fuel : ℕ) (pid : Pid) (status : ExitStatus) (acc : Finalizing E) :
    acc.1.Evolves R (takeAndFinalizeSlot fuel pid status acc).1 := by
  induction fuel generalizing pid status acc with
  | zero => exact refl hR _
  | succ fuel ih =>
    unfold Inner.takeAndFinalizeSlot
    split
    · exact refl hR _
    · split
      · rename_i hP
        dsimp only
        exact trans hR (taken hR hP pid status) (Evolves.reapChildrenOf hR ih pid (_, acc.2))
      · exact refl hR _

theorem finalize (p : Pid) (status : ExitStatus) : s.Evolves R (s.finalize p status).1 :=
  takeAndFinalizeSlot hR finalizeFuel p status (s, [])

end

end Evolves

/-- Every process of `t` was in `s`, in the same slot, and the reservations of `s` stand. -/
structure Kept (s t : Inner E) : Prop where
  generations : t.generations = s.generations
  occupied : ∀ i P', t.processes i = .occupied P' → ∃ P, s.processes i = .occupied P ∧ P.Became P'
  reserved : ∀ i, s.processes i = .reserved → t.processes i = .reserved

theorem Evolves.kept (h : s.Evolves Process.Became t) : s.Kept t :=
  ⟨h.generations, h.occupied, h.reserved⟩

namespace Kept

theorem evolves (h : s.Kept t) : s.Evolves Process.Became t :=
  ⟨h.generations, h.occupied, h.reserved⟩

theorem of_processes (h : t.processes = s.processes) (hgen : t.generations = s.generations) :
    s.Kept t :=
  (Evolves.of_processes Process.Became.allows h hgen).kept

theorem view (h : s.Kept t) (hP' : t.view p = .occupied P') :
    ∃ P, s.view p = .occupied P ∧ P.Became P' := by
  obtain ⟨i, rfl⟩ := exists_pidAt (s := t) (p := p) (by rw [hP']; simp)
  rw [view_pidAt] at hP'
  obtain ⟨P, hP, hbecame⟩ := h.occupied i P' hP'
  refine ⟨P, ?_, hbecame⟩
  rw [show t.pidAt i = s.pidAt i by rw [pidAt, pidAt, h.generations], view_pidAt, hP]

theorem view_reserved (h : s.Kept t) (hp : s.view p = .reserved) : t.view p = .reserved := by
  obtain ⟨i, rfl⟩ := exists_pidAt (s := s) (p := p) (by rw [hp]; simp)
  rw [view_pidAt] at hp
  rw [show s.pidAt i = t.pidAt i by rw [pidAt, pidAt, h.generations], view_pidAt, h.reserved i hp]

theorem refl (s : Inner E) : s.Kept s := of_processes rfl rfl

theorem trans (h : s.Kept t) (h' : t.Kept u) : s.Kept u :=
  (h.evolves.trans Process.Became.allows h'.evolves).kept

theorem setProcess (hP : s.view p = .occupied P)
    (ht : t.processes = (s.setProcess p P').processes)
    (hgen : t.generations = (s.setProcess p P').generations) (h : P.Became P') : s.Kept t :=
  (Evolves.setProcess Process.Became.allows hP ht hgen h).kept

theorem startChild {target caller : Pid} (h : s.startChild target caller = .ok t) : s.Kept t :=
  (Evolves.startChild Process.Became.allows h).kept

theorem wake (p : Pid) (result : WakeResult) : s.Kept (s.wakeBlockedProcessLocked p result) :=
  (Evolves.wake Process.Became.allows p result).kept

theorem preemptCurrent (h : s.preemptCurrent c f = .ok t) : s.Kept t :=
  (Evolves.preemptCurrent Process.Became.allows trivial h).kept

theorem blockCurrentProcessLocked (h : s.blockCurrentProcessLocked c f = .ok t) : s.Kept t :=
  (Evolves.blockCurrentProcessLocked Process.Became.allows trivial h).kept

theorem waitForChild (target caller : Pid) : s.Kept (s.waitForChild target caller) :=
  (Evolves.waitForChild Process.Became.allows target caller).kept

theorem switchTo (h : s.switchTo c p = .ok (P, t)) : s.Kept t :=
  (Evolves.switchTo Process.Became.allows h).kept

theorem pop {popped : Inner E} {front : Option Pid} (h : s.pop = (front, popped)) : s.Kept popped :=
  (Evolves.pop Process.Became.allows h).kept

theorem finalize (p : Pid) (status : ExitStatus) : s.Kept (s.finalize p status).1 :=
  (Evolves.finalize Process.Became.allows p status).kept

end Kept

end Inner

end Tarnos.Task
