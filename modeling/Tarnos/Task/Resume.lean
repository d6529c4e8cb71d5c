import Tarnos.Task.Kept

namespace Tarnos.Task

open Abi Arch Kcore Function

variable {E : Type} {f : TrapFrame}

/-- A frame that passes the assertions of `switch_to`. -/
structure Resumable (f : TrapFrame) : Prop where
  cs : f.cs = userCodeSelector
  rip : f.rip < Inner.userAddressLimit
  ss : f.ss = userDataSelector
  rsp : f.rsp < Inner.userAddressLimit

theorem frameAssertions_eq_ok : Inner.frameAssertions f = .ok () ↔ Resumable f := by
  unfold Inner.frameAssertions
  constructor
  · intro h
    split at h
    · cases h
    · rename_i hcs
      split at h
      · cases h
      · rename_i hrip
        split at h
        · cases h
        · rename_i hss
          split at h
          · cases h
          · rename_i hrsp
            exact ⟨not_not.mp hcs, not_not.mp hrip, not_not.mp hss, not_not.mp hrsp⟩
  · rintro ⟨hcs, hrip, hss, hrsp⟩
    simp [hcs, hrip, hss, hrsp]

theorem Resumable.initialUserFrame {entry : UInt64} (h : entry < Inner.userAddressLimit) :
    Resumable (TrapFrame.initialUserFrame entry userStackTop) :=
  ⟨rfl, h, rfl, show userStackTop < Inner.userAddressLimit by decide⟩

theorem Resumable.applyTo (h : Resumable f) (result : WakeResult) :
    Resumable (result.applyTo f) := by
  cases result <;> exact ⟨h.cs, h.rip, h.ss, h.rsp⟩

def Process.Steady (P P' : Process E) : Prop := Resumable P.trapFrame → Resumable P'.trapFrame

theorem Process.Steady.allows : Process.Allows (E := E) Process.Steady Resumable :=
  ⟨fun _ ↦ id, fun _ _ _ h h' hP ↦ h' (h hP), fun _ _ _ ↦ id, fun _ _ ↦ id, fun _ _ ↦ id, fun _ ↦ id,
    fun _ _ hf _ ↦ hf, fun _ result hP ↦ hP.applyTo result⟩

def Panic.ofFrame : Panic → Bool
  | .frameCs | .frameRip | .frameSs | .frameRsp => true
  | _ => false

theorem frameAssertions_error {reason : Panic} (h : Inner.frameAssertions f = .error reason) :
    ¬ Resumable f := by
  intro hf
  rw [frameAssertions_eq_ok.mpr hf] at h
  cases h

namespace Inner

variable {s t : Inner E} {p : Pid} {i : Fin maxProcesses} {P : Process E} {c : CoreId}

def Ready (s : Inner E) : Prop := ∀ i P, s.processes i = .occupied P → Resumable P.trapFrame

theorem Ready.evolves (h : s.Ready) (ht : s.Evolves Process.Steady t) : t.Ready := by
  intro i P' hP'
  obtain ⟨P, hP, hsteady⟩ := ht.occupied i P' hP'
  exact hsteady (h i P hP)

/-- `switch_to` does not stop at a frame. -/
theorem Ready.switchTo {reason : Panic} (h : s.Ready) (hs : s.switchTo c p = .error reason) :
    reason.ofFrame = false := by
  unfold Inner.switchTo at hs
  split at hs
  · cases hs
    rfl
  · split at hs
    · cases hs
      rfl
    · rename_i i _
      split at hs
      · cases hs
        rfl
      · split at hs
        · rename_i P hP
          split at hs
          · cases hs
            rfl
          · split at hs
            · rename_i panic hpanic
              exact absurd (h i P hP) (frameAssertions_error hpanic)
            · cases hs
        · cases hs
          rfl

end Inner

end Tarnos.Task
