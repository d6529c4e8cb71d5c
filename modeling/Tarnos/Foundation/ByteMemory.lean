import Tarnos.Foundation.Bytes

namespace Tarnos.Foundation

abbrev ByteMemory := ℕ → UInt8

namespace ByteMemory

variable {ram ram' : ByteMemory} {addr addr' len : ℕ} {bytes : List UInt8}

def slice (ram : ByteMemory) (addr len : ℕ) : List UInt8 :=
  (List.range len).map fun i ↦ ram (addr + i)

def load (ram : ByteMemory) (addr len : ℕ) : ℕ := leNat (ram.slice addr len)

def store (ram : ByteMemory) (addr : ℕ) (bytes : List UInt8) : ByteMemory := fun a ↦
  if addr ≤ a then bytes[a - addr]?.getD (ram a) else ram a

theorem length_slice (ram : ByteMemory) (addr len : ℕ) : (ram.slice addr len).length = len := by
  rw [slice, List.length_map, List.length_range]

theorem slice_congr (h : ∀ i < len, ram' (addr + i) = ram (addr + i)) :
    ram'.slice addr len = ram.slice addr len :=
  List.map_congr_left fun i hi ↦ h i (List.mem_range.mp hi)

theorem store_of_lt {a : ℕ} (h : a < addr) : ram.store addr bytes a = ram a :=
  if_neg (Nat.not_le.mpr h)

theorem store_of_ge {a : ℕ} (h : addr + bytes.length ≤ a) : ram.store addr bytes a = ram a := by
  rw [store, if_pos (by omega), List.getElem?_eq_none (by omega), Option.getD_none]

theorem slice_store (ram : ByteMemory) (addr : ℕ) (bytes : List UInt8) :
    (ram.store addr bytes).slice addr bytes.length = bytes := by
  apply List.ext_getElem
  · exact length_slice ..
  · intro i hi hi'
    simp only [slice, List.getElem_map, List.getElem_range, store]
    rw [if_pos (Nat.le_add_right _ _), Nat.add_sub_cancel_left, List.getElem?_eq_getElem hi',
      Option.getD_some]

theorem store_apart (h : addr + bytes.length ≤ addr' ∨ addr' + len ≤ addr) :
    ∀ i < len, ram.store addr bytes (addr' + i) = ram (addr' + i) := by
  intro i hi
  rcases h with h | h
  · exact store_of_ge (by omega)
  · exact store_of_lt (by omega)

end ByteMemory

end Tarnos.Foundation
