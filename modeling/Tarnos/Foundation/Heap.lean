import Mathlib.Algebra.Ring.Nat

namespace Tarnos.Foundation

/-- Whether an allocator over `size` bytes gives `n` more to code that holds the blocks `live`. What
others hold decides it too, so nothing else is said of it. -/
structure Heap (size : ℕ) where
  gives : List ℕ → ℕ → Bool
  bounded : ∀ live n, gives live n = true → live.sum + n ≤ size

namespace Heap

variable {size : ℕ}

def unshared (size : ℕ) : Heap size :=
  ⟨fun live n ↦ live.sum + n ≤ size, fun _ _ h ↦ of_decide_eq_true h⟩

variable (heap : Heap size) (live : List ℕ)

/-- A buffer of `n` bytes; none is asked for if it is empty. -/
def buffer (n : ℕ) : Bool := n == 0 || heap.gives live n

/-- The capacity a vector takes to hold `required` elements, of 2 to 1024 bytes each. -/
def grown (capacity required : ℕ) : ℕ := max 4 (max (2 * capacity) required)

/-- A vector makes room for `required` elements of `bytes` bytes. It holds its buffer until it has
the new one. -/
def reserve (bytes capacity required : ℕ) : Option ℕ :=
  if required ≤ capacity then some capacity
  else if heap.gives (bytes * capacity :: live) (bytes * grown capacity required) then
    some (grown capacity required)
  else none

/-- The capacity of a new vector after `count` pushes. -/
def pushes (bytes : ℕ) : ℕ → Option ℕ
  | 0 => some 0
  | count + 1 =>
    (pushes bytes count).bind fun capacity ↦ heap.reserve live bytes capacity (count + 1)

variable {heap live}

theorem isSome_reserve {bytes capacity required : ℕ} :
    (heap.reserve live bytes capacity required).isSome = true ↔ required ≤ capacity ∨
      heap.gives (bytes * capacity :: live) (bytes * grown capacity required) = true := by
  rw [reserve]
  split
  · simp [*]
  · split <;> simp [*]

theorem eq_zero_or_le {n : ℕ} (h : heap.buffer live n = true) : n = 0 ∨ live.sum + n ≤ size :=
  ((Bool.or_eq_true _ _).mp h).imp beq_iff_eq.mp (heap.bounded live n)

end Heap

end Tarnos.Foundation
