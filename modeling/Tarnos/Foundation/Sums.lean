import Mathlib.Algebra.BigOperators.Group.Finset.Basic
import Mathlib.Algebra.BigOperators.Ring.Finset

namespace Tarnos.Foundation.Sums

open Function

variable {ι α : Type*} [Fintype ι] [DecidableEq ι]

theorem sum_comp_update (g : α → ℕ) (f : ι → α) (i : ι) (a : α) :
    ∑ j, g (update f i a j) + g (f i) = ∑ j, g (f j) + g a := by
  have hrest : ∑ j ∈ Finset.univ.erase i, g (update f i a j) =
      ∑ j ∈ Finset.univ.erase i, g (f j) := by
    refine Finset.sum_congr rfl fun j hj ↦ ?_
    rw [update_of_ne (Finset.ne_of_mem_erase hj)]
  have hnew := Finset.add_sum_erase Finset.univ (fun j ↦ g (update f i a j)) (Finset.mem_univ i)
  have hold := Finset.add_sum_erase Finset.univ (fun j ↦ g (f j)) (Finset.mem_univ i)
  simp only [update_self] at hnew
  omega

end Tarnos.Foundation.Sums
