import Mathlib.Data.Fintype.BigOperators
import Mathlib.Data.List.FinRange
import Tarnos.Foundation.Sums

/-!
# A pool of slots and the values that live in them

Each value owns one slot of the pool. It is placed at an index, later taken out by somebody, and
dropped by them in the order in which they took it out; only the drop gives the slot back.
-/

namespace Tarnos.Foundation

open Function

structure Pool (ι κ : Type) (n : ℕ) where
  used : Fin n → Bool
  placed : ι → Option (Fin n)
  waiting : κ → List (Fin n)

namespace Pool

variable {ι κ : Type} {n : ℕ} {x y : Pool ι κ n} {i : ι} {k : Fin n}

def empty : Pool ι κ n := ⟨fun _ ↦ false, fun _ ↦ none, fun _ ↦ []⟩

def alloc (x : Pool ι κ n) : Option (Fin n) := (List.finRange n).find? fun k ↦ !x.used k

def drop [DecidableEq κ] (x : Pool ι κ n) (c : κ) : Pool ι κ n :=
  match x.waiting c with
  | [] => x
  | k :: rest => { x with used := update x.used k false, waiting := update x.waiting c rest }

theorem used_of_alloc (h : x.alloc = some k) : x.used k = false := by
  have hfound := List.find?_some h
  simpa using hfound

theorem sum_count (slots : List (Fin n)) : ∑ k, slots.count k = slots.length := by
  induction slots with
  | nil => simp
  | cons l slots ih =>
    simp only [List.count_cons, Finset.sum_add_distrib, ih, List.length_cons, beq_iff_eq,
      Finset.sum_ite_eq, Finset.mem_univ, if_true]

theorem sum_placed (p : Option (Fin n)) :
    ∑ k, (if p = some k then 1 else 0) = if p.isSome then 1 else 0 := by
  cases p with
  | none | some l => simp

section Owners

variable [Fintype ι] [Fintype κ]

def holders (x : Pool ι κ n) (k : Fin n) : ℕ :=
  ∑ i, (if x.placed i = some k then 1 else 0) + ∑ c, (x.waiting c).count k

def size (x : Pool ι κ n) : ℕ :=
  ∑ i, (if (x.placed i).isSome then 1 else 0) + ∑ c, (x.waiting c).length

def Exact (x : Pool ι κ n) : Prop := ∀ k, x.holders k = if x.used k then 1 else 0

theorem Exact.empty : (Pool.empty : Pool ι κ n).Exact := by
  intro k
  simp [holders, Pool.empty]

theorem Exact.single (h : x.Exact) (k : Fin n) : x.holders k ≤ 1 := by
  rw [h k]
  split <;> omega

theorem Exact.drop [DecidableEq κ] (h : x.Exact) (c : κ) : (x.drop c).Exact := by
  unfold Pool.drop
  split
  · exact h
  · rename_i k rest hwaiting
    intro l
    have hsum := Sums.sum_comp_update (fun slots : List (Fin n) ↦ slots.count l) x.waiting c rest
    have hold := h l
    rw [hwaiting, List.count_cons] at hsum
    unfold holders at hold ⊢
    by_cases hkl : k = l
    · subst hkl
      simp only [beq_self_eq_true, if_true, update_self, Bool.false_eq_true, if_false] at hsum ⊢
      split at hold <;> omega
    · have hbeq : (k == l) = false := by simpa using hkl
      simp only [hbeq, Bool.false_eq_true, if_false, update_of_ne (Ne.symm hkl)] at hsum ⊢
      omega

theorem sum_holders (x : Pool ι κ n) : ∑ k, x.holders k = x.size := by
  have hwaiting : ∑ k, ∑ c, (x.waiting c).count k = ∑ c, ∑ k, (x.waiting c).count k :=
    Finset.sum_comm
  unfold holders size
  rw [Finset.sum_add_distrib, Finset.sum_comm, hwaiting]
  simp only [sum_placed, sum_count]

theorem Exact.size_eq (h : x.Exact) : x.size = (Finset.univ.filter fun k ↦ x.used k = true).card := by
  rw [← sum_holders, Finset.card_filter]
  exact Finset.sum_congr rfl fun k _ ↦ h k

theorem Exact.alloc_eq_none_iff (h : x.Exact) : x.alloc = none ↔ n ≤ x.size := by
  have hall : x.alloc = none ↔ ∀ k, x.used k = true := by
    simp [alloc, List.find?_eq_none]
  have hle : (Finset.univ.filter fun k ↦ x.used k = true).card ≤ n := by
    simpa using Finset.card_filter_le (Finset.univ : Finset (Fin n)) fun k ↦ x.used k = true
  rw [hall, h.size_eq]
  constructor
  · intro hused
    simp [hused]
  · intro hn k
    have hcard : (Finset.univ.filter fun k ↦ x.used k = true).card =
        (Finset.univ : Finset (Fin n)).card := by
      simp only [Finset.card_univ, Fintype.card_fin]
      omega
    have hfull := Finset.card_filter_eq_iff.mp hcard
    exact hfull k (Finset.mem_univ k)

end Owners

variable [DecidableEq ι]

def place (x : Pool ι κ n) (i : ι) : Option (Pool ι κ n) :=
  x.alloc.map fun k ↦
    { x with used := update x.used k true, placed := update x.placed i (some k) }

def vacate (f : ι → Option (Fin n)) (indices : List ι) (i : ι) : Option (Fin n) :=
  if i ∈ indices then none else f i

def take [DecidableEq κ] (x : Pool ι κ n) (c : κ) (indices : List ι) : Pool ι κ n :=
  { x with
    placed := vacate x.placed indices
    waiting := update x.waiting c (x.waiting c ++ indices.filterMap x.placed) }

theorem place_eq_some (h : x.place i = some y) :
    ∃ k, x.alloc = some k ∧
      y = { x with used := update x.used k true, placed := update x.placed i (some k) } := by
  obtain ⟨k, hk, rfl⟩ := Option.map_eq_some_iff.mp h
  exact ⟨k, hk, rfl⟩

theorem vacate_cons (f : ι → Option (Fin n)) (j : ι) (rest : List ι) :
    vacate f (j :: rest) = update (vacate f rest) j none := by
  funext i
  by_cases hij : i = j
  · subst hij
    simp [vacate]
  · simp [vacate, hij]

theorem take_nil [DecidableEq κ] (x : Pool ι κ n) (c : κ) : x.take c [] = x := by
  have hvacate : vacate x.placed [] = x.placed := by
    funext i
    simp [vacate]
  simp [Pool.take, hvacate]

variable [Fintype ι]

theorem count_vacate {indices : List ι} (hnodup : indices.Nodup) (f : ι → Option (Fin n))
    (k : Fin n) :
    (indices.filterMap f).count k + ∑ i, (if vacate f indices i = some k then 1 else 0) =
      ∑ i, if f i = some k then 1 else 0 := by
  induction indices with
  | nil => simp [vacate]
  | cons j rest ih =>
    obtain ⟨hj, hrest⟩ := List.nodup_cons.mp hnodup
    have hsum := Sums.sum_comp_update (fun p ↦ if p = some k then 1 else 0) (vacate f rest) j none
    have hfj : vacate f rest j = f j := if_neg hj
    have hih := ih hrest
    rw [hfj] at hsum
    rw [vacate_cons]
    simp only [reduceCtorEq, if_false] at hsum
    cases hslot : f j with
    | none =>
      rw [List.filterMap_cons_none hslot]
      rw [hslot] at hsum
      simp only [reduceCtorEq, if_false] at hsum
      omega
    | some l =>
      rw [List.filterMap_cons_some hslot, List.count_cons]
      rw [hslot] at hsum
      by_cases hlk : l = k
      · subst hlk
        simp only [if_true, beq_self_eq_true] at hsum ⊢
        omega
      · have hbeq : (l == k) = false := by simpa using hlk
        simp only [Option.some.injEq, hlk, if_false, hbeq, Bool.false_eq_true] at hsum ⊢
        omega

variable [Fintype κ]

theorem Exact.place (h : x.Exact) (hfree : x.placed i = none) (hplace : x.place i = some y) :
    y.Exact := by
  obtain ⟨k, hk, rfl⟩ := place_eq_some hplace
  intro l
  have hsum := Sums.sum_comp_update (fun p ↦ if p = some l then 1 else 0) x.placed i (some k)
  have hold := h l
  simp only [hfree, reduceCtorEq, if_false, Option.some.injEq] at hsum
  unfold holders at hold ⊢
  by_cases hkl : k = l
  · subst hkl
    rw [used_of_alloc hk] at hold
    simp only [update_self, if_true, Bool.false_eq_true, if_false] at hold hsum ⊢
    omega
  · simp only [update_of_ne (Ne.symm hkl), hkl, if_false] at hsum ⊢
    omega

theorem Exact.take [DecidableEq κ] (h : x.Exact) {indices : List ι} (hnodup : indices.Nodup) (c : κ) :
    (x.take c indices).Exact := by
  intro l
  have hsum := Sums.sum_comp_update (fun slots : List (Fin n) ↦ slots.count l) x.waiting c
    (x.waiting c ++ indices.filterMap x.placed)
  have hcount := count_vacate hnodup x.placed l
  have hold := h l
  rw [List.count_append] at hsum
  unfold holders at hold ⊢
  change ∑ i, (if vacate x.placed indices i = some l then 1 else 0) +
    ∑ d, (update x.waiting c (x.waiting c ++ indices.filterMap x.placed) d).count l =
      if x.used l = true then 1 else 0
  omega

end Pool

end Tarnos.Foundation
