import Tarnos.Abi
import Tarnos.Foundation.Heap

namespace Tarnos.Kcore

open Abi Foundation

variable {T : Type*} {index : CapIndex}

structure CapabilitySlot (T : Type*) where
  object : T
  rights : Rights
  deriving DecidableEq, Repr

/-- A process's capabilities, by index, in a vector with room for `capacity` of them; a gap is a
`none`. -/
structure CapTable (T : Type*) where
  slots : List (Option (CapabilitySlot T))
  capacity : ℕ
  length_le : slots.length ≤ capacity
  deriving DecidableEq, Repr

variable {slot : CapabilitySlot T} {table : CapTable T}

namespace CapTable

def new : CapTable T := ⟨[], 0, Nat.le_refl 0⟩

section

variable (table : CapTable T) (index : CapIndex)

/-- The capacity of the vector once it has a slot at `index`. -/
def capacityFor : ℕ :=
  if index.index.toNat < table.capacity then table.capacity
  else Heap.grown table.capacity (index.index.toNat + 1)

theorem le_capacityFor : max table.capacity (index.index.toNat + 1) ≤ table.capacityFor index := by
  rw [capacityFor, Heap.grown]
  split <;> omega

def insert (slot : CapabilitySlot T) : CapTable T where
  slots := (table.slots ++ List.replicate (index.index.toNat + 1 - table.slots.length) none).set
    index.index.toNat (some slot)
  capacity := table.capacityFor index
  length_le := by
    have hle := table.le_capacityFor index
    have hlength := table.length_le
    rw [List.length_set, List.length_append, List.length_replicate]
    omega

def get : Except SyscallError (CapabilitySlot T) :=
  match (table.slots[index.index.toNat]?).join with
  | some slot => .ok slot
  | none => .error .badCapability

def lookup (required : Rights) : Except SyscallError (CapabilitySlot T) :=
  match table.get index with
  | .error e => .error e
  | .ok slot => if slot.rights.contains required then .ok slot else .error .permissionDenied

end

def iter (table : CapTable T) : List (CapabilitySlot T) :=
  table.slots.filterMap id

theorem mem_iter : slot ∈ table.iter ↔ some slot ∈ table.slots := by
  simp [iter]

theorem get_mem (h : table.get index = .ok slot) : slot ∈ table.iter := by
  unfold get at h
  split at h
  · rename_i found hfound
    cases h
    exact mem_iter.mpr (List.mem_of_getElem? (Option.join_eq_some_iff.mp hfound))
  · cases h

theorem lookup_mem {required : Rights} (h : table.lookup index required = .ok slot) :
    slot ∈ table.iter ∧ slot.rights.contains required = true := by
  unfold lookup at h
  split at h
  · cases h
  · rename_i found hfound
    split at h
    · rename_i hrights
      cases h
      exact ⟨get_mem hfound, hrights⟩
    · cases h

theorem mem_iter_insert {other : CapabilitySlot T} (h : other ∈ (table.insert index slot).iter) :
    other = slot ∨ other ∈ table.iter := by
  rw [mem_iter, insert] at h
  rcases List.mem_or_eq_of_mem_set h with hold | hnew
  · rcases List.mem_append.mp hold with hold | hpad
    · exact .inr (mem_iter.mpr hold)
    · simp at hpad
  · exact .inl (Option.some.inj hnew)

end CapTable

end Tarnos.Kcore
