import Mathlib.Data.List.Basic
import Mathlib.Data.Nat.ModEq
import Mathlib.Tactic.Common
import Tarnos.Foundation.Transition

namespace Tarnos.Kcore

open Foundation.Transition

variable {α : Type*} {N : ℕ}

/-- A fixed-capacity ring buffer. The occupied cells are the `len` cells from `head` on,
around the end of the buffer, and each of them holds a value. -/
structure RingBuffer (α : Type*) (N : ℕ) where
  buffer : Vector (Option α) N
  head : ℕ
  len : ℕ
  len_le : len ≤ N
  head_lt : 0 < N → head < N
  filled : ∀ i < len, ((buffer[(head + i) % N]?).join).isSome

namespace RingBuffer

def cell (q : RingBuffer α N) (i : ℕ) : Option α :=
  (q.buffer[(q.head + i) % N]?).join

def toList (q : RingBuffer α N) : List α :=
  (List.range q.len).filterMap q.cell

def isEmpty (q : RingBuffer α N) : Bool := q.len == 0

def isFull (q : RingBuffer α N) : Bool := q.len == N

def new : RingBuffer α N where
  buffer := Vector.replicate N none
  head := 0
  len := 0
  len_le := Nat.zero_le N
  head_lt := id
  filled := fun _ h ↦ absurd h (Nat.not_lt_zero _)

theorem offset_injective {head i j : ℕ} (hi : i < N) (hj : j < N)
    (h : (head + i) % N = (head + j) % N) : i = j := by
  have hmod : i ≡ j [MOD N] := Nat.ModEq.add_left_cancel' head h
  rwa [Nat.ModEq, Nat.mod_eq_of_lt hi, Nat.mod_eq_of_lt hj] at hmod

theorem getElem?_set_join (b : Vector (Option α) N) {i j : ℕ} (hi : i < N) (v : Option α) :
    ((b.set i v hi)[j]?).join = if i = j then v else (b[j]?).join := by
  rw [Vector.getElem?_set]
  split
  · simp
  · rfl

def push (q : RingBuffer α N) (value : α) : Bool × RingBuffer α N :=
  if h : q.len = N then (false, q)
  else
    have hlt : q.len < N := lt_of_le_of_ne q.len_le h
    have hidx : (q.head + q.len) % N < N := Nat.mod_lt _ (Nat.zero_lt_of_lt hlt)
    (true,
      { buffer := q.buffer.set ((q.head + q.len) % N) (some value) hidx
        head := q.head
        len := q.len + 1
        len_le := hlt
        head_lt := q.head_lt
        filled := by
          intro i hi
          rw [getElem?_set_join]
          split
          · rfl
          · rename_i hne
            refine q.filled i (lt_of_le_of_ne (Nat.le_of_lt_succ hi) ?_)
            rintro rfl
            exact hne rfl })

def pop (q : RingBuffer α N) : Option α × RingBuffer α N :=
  if h : q.len = 0 then (none, q)
  else
    have hN : 0 < N := lt_of_lt_of_le (Nat.pos_of_ne_zero h) q.len_le
    have hhead : q.head < N := q.head_lt hN
    (q.buffer[q.head],
      { buffer := q.buffer.set q.head none hhead
        head := (q.head + 1) % N
        len := q.len - 1
        len_le := (Nat.sub_le _ _).trans q.len_le
        head_lt := fun _ ↦ Nat.mod_lt _ hN
        filled := by
          intro i hi
          have hle := q.len_le
          have hi' : i + 1 < q.len := by omega
          have hshift : ((q.head + 1) % N + i) % N = (q.head + (i + 1)) % N := by
            rw [Nat.mod_add_mod, Nat.add_assoc, Nat.add_comm 1 i]
          rw [hshift, getElem?_set_join, if_neg]
          · exact q.filled (i + 1) hi'
          · intro heq
            have hzero : (q.head + 0) % N = (q.head + (i + 1)) % N := by
              rw [← heq, Nat.add_zero, Nat.mod_eq_of_lt hhead]
            have h0 := offset_injective hN (lt_of_lt_of_le hi' hle) hzero
            omega })

@[simp] theorem toList_new : (new : RingBuffer α N).toList = [] := rfl

section

variable (q : RingBuffer α N)

theorem cell_isSome {i : ℕ} (h : i < q.len) : (q.cell i).isSome :=
  q.filled i h

theorem length_toList : q.toList.length = q.len := by
  have hcells : ∀ n ≤ q.len, ((List.range n).filterMap q.cell).length = n := by
    intro n hn
    induction n with
    | zero => rfl
    | succ n ih =>
      obtain ⟨v, hv⟩ := Option.isSome_iff_exists.mp (q.cell_isSome hn)
      simp [List.range_succ, List.filterMap_append, hv, ih (Nat.le_of_succ_le hn)]
  exact hcells q.len le_rfl

theorem length_le : q.toList.length ≤ N :=
  q.length_toList ▸ q.len_le

theorem isEmpty_iff : q.isEmpty = true ↔ q.toList = [] := by
  rw [isEmpty, beq_iff_eq, ← q.length_toList, List.length_eq_zero_iff]

theorem push_full (v : α) (h : q.toList.length = N) : q.push v = (false, q) := by
  rw [length_toList] at h
  simp [push, h]

theorem push_cell (v : α) (h : q.len < N) {i : ℕ} (hi : i ≤ q.len) :
    (q.push v).2.cell i = if i = q.len then some v else q.cell i := by
  have hne : q.len ≠ N := Nat.ne_of_lt h
  simp only [push, hne, dite_false, cell, getElem?_set_join]
  by_cases heq : i = q.len
  · simp [heq]
  · rw [if_neg, if_neg heq]
    intro hmod
    exact heq (offset_injective (lt_of_le_of_lt hi h) h hmod.symm)

theorem push_room (v : α) (h : q.toList.length < N) :
    (q.push v).1 = true ∧ (q.push v).2.toList = q.toList ++ [v] := by
  rw [length_toList] at h
  have hne : q.len ≠ N := Nat.ne_of_lt h
  have hlen : (q.push v).2.len = q.len + 1 := by simp [push, hne]
  refine ⟨by simp [push, hne], ?_⟩
  have hold : (List.range q.len).filterMap (q.push v).2.cell = q.toList := by
    refine List.filterMap_congr fun i hi ↦ ?_
    have hi' := List.mem_range.mp hi
    rw [push_cell q v h (Nat.le_of_lt hi'), if_neg (Nat.ne_of_lt hi')]
  have hnew : (q.push v).2.cell q.len = some v := by
    rw [push_cell q v h le_rfl, if_pos rfl]
  rw [toList, hlen, List.range_succ, List.filterMap_append, hold]
  simp [hnew]

theorem pop_nil (h : q.toList = []) : q.pop = (none, q) := by
  have hlen : q.len = 0 := by rw [← q.length_toList, h]; rfl
  simp [pop, hlen]

theorem pop_cell (h : q.len ≠ 0) {i : ℕ} (hi : i + 1 < q.len) :
    q.pop.2.cell i = q.cell (i + 1) := by
  have hle := q.len_le
  have hN : 0 < N := by omega
  have hhead := q.head_lt hN
  have hshift : ((q.head + 1) % N + i) % N = (q.head + (i + 1)) % N := by
    rw [Nat.mod_add_mod, Nat.add_assoc, Nat.add_comm 1 i]
  simp only [pop, h, dite_false, cell, getElem?_set_join, hshift]
  rw [if_neg]
  intro heq
  have hzero : (q.head + 0) % N = (q.head + (i + 1)) % N := by
    rw [← heq, Nat.add_zero, Nat.mod_eq_of_lt hhead]
  have h0 := offset_injective hN (lt_of_lt_of_le hi hle) hzero
  omega

theorem pop_cons {v : α} {rest : List α} (h : q.toList = v :: rest) :
    q.pop.1 = some v ∧ q.pop.2.toList = rest := by
  have hlen : q.len = rest.length + 1 := by rw [← q.length_toList, h]; rfl
  have hne : q.len ≠ 0 := by omega
  have hle := q.len_le
  have hhead := q.head_lt (by omega)
  have hsplit : q.toList = (q.cell 0).toList ++ (List.range (q.len - 1)).filterMap q.pop.2.cell := by
    have hrest : (List.range (q.len - 1)).filterMap q.pop.2.cell =
        ((List.range (q.len - 1)).map Nat.succ).filterMap q.cell := by
      rw [List.filterMap_map]
      refine List.filterMap_congr fun i hi ↦ ?_
      exact q.pop_cell hne (by have := List.mem_range.mp hi; omega)
    have hrange : List.range q.len = 0 :: (List.range (q.len - 1)).map Nat.succ := by
      conv_lhs => rw [show q.len = (q.len - 1) + 1 by omega]
      exact List.range_succ_eq_map
    rw [hrest, toList, hrange, List.filterMap_cons]
    cases q.cell 0 <;> rfl
  have hpop : q.pop.1 = q.cell 0 := by
    simp [pop, hne, cell, Nat.mod_eq_of_lt hhead, Vector.getElem?_eq_getElem hhead]
  have htail : q.pop.2.toList = (List.range (q.len - 1)).filterMap q.pop.2.cell := by
    have hlen' : q.pop.2.len = q.len - 1 := by simp [pop, hne]
    rw [toList, hlen']
  obtain ⟨w, hw⟩ := Option.isSome_iff_exists.mp (q.cell_isSome (Nat.pos_of_ne_zero hne))
  rw [hw, h] at hsplit
  simp only [Option.toList_some, List.cons_append, List.nil_append, List.cons.injEq] at hsplit
  exact ⟨by rw [hpop, hw, hsplit.1], by rw [htail, hsplit.2]⟩

end

inductive Op (α : Type*)
  | push (value : α)
  | pop

inductive Answer (α : Type*)
  | pushed (accepted : Bool)
  | popped (value : Option α)

/-- The fields of a buffer, with nothing known about them. -/
structure Raw (α : Type*) (N : ℕ) where
  buffer : Vector (Option α) N
  head : ℕ
  len : ℕ

def raw (q : RingBuffer α N) : Raw α N := ⟨q.buffer, q.head, q.len⟩

/-- `none` is a panic: a remainder by zero or an index outside the buffer. -/
def Raw.call (q : Raw α N) : Op α → Option (Answer α × Raw α N)
  | .push value =>
    if q.len = N then some (.pushed false, q)
    else if h : N ≠ 0 ∧ (q.head + q.len) % N < N then
      some (.pushed true, ⟨q.buffer.set ((q.head + q.len) % N) (some value) h.2, q.head, q.len + 1⟩)
    else none
  | .pop =>
    if q.len = 0 then some (.popped none, q)
    else if h : q.head < N then
      some (.popped q.buffer[q.head], ⟨q.buffer.set q.head none, (q.head + 1) % N, q.len - 1⟩)
    else none

def callQueue (N : ℕ) (queue : List α) : Op α → Option (Answer α × List α)
  | .push value =>
    if queue.length < N then some (.pushed true, queue ++ [value]) else some (.pushed false, queue)
  | .pop => some (.popped queue.head?, queue.tail)

theorem raw_push (q : RingBuffer α N) (value : α) :
    q.raw.call (.push value) = some (.pushed (q.push value).1, (q.push value).2.raw) := by
  unfold Raw.call push
  by_cases hfull : q.len = N
  · simp [raw, hfull]
  · have hN : N ≠ 0 := by
      have := q.len_le
      omega
    have hidx : (q.head + q.len) % N < N := Nat.mod_lt _ (Nat.pos_of_ne_zero hN)
    simp [raw, hfull, hN, hidx]

theorem raw_pop (q : RingBuffer α N) : q.raw.call .pop = some (.popped q.pop.1, q.pop.2.raw) := by
  unfold Raw.call pop
  by_cases hempty : q.len = 0
  · simp [raw, hempty]
  · have hhead : q.head < N := q.head_lt (Nat.lt_of_lt_of_le (Nat.pos_of_ne_zero hempty) q.len_le)
    simp [raw, hempty, hhead]

theorem raw_call (q : RingBuffer α N) (op : Op α) : ∃ answer, ∃ q' : RingBuffer α N,
    q.raw.call op = some (answer, q'.raw) ∧ callQueue N q.toList op = some (answer, q'.toList) := by
  cases op with
  | push value =>
    refine ⟨_, (q.push value).2, q.raw_push value, ?_⟩
    rw [callQueue]
    split
    · obtain ⟨haccepted, hlist⟩ := q.push_room value ‹_›
      rw [haccepted, hlist]
    · have hfull := q.push_full value (le_antisymm q.length_le (Nat.not_lt.mp ‹_›))
      rw [hfull]
  | pop =>
    refine ⟨_, q.pop.2, q.raw_pop, ?_⟩
    cases hlist : q.toList with
    | nil => rw [q.pop_nil hlist, hlist, callQueue]; rfl
    | cons v rest =>
      obtain ⟨hval, hrest⟩ := q.pop_cons hlist
      rw [hval, hrest, callQueue]
      rfl

theorem raw_calls (N : ℕ) (ops : List (Op α)) : ∃ answers, ∃ q : RingBuffer α N,
    calls Raw.call (new : RingBuffer α N).raw ops = some (answers, q.raw) ∧
      calls (callQueue N) [] ops = some (answers, q.toList) := by
  obtain ⟨answers, _, _, hraw, hqueue, q, rfl, rfl⟩ :=
    calls_simulate (f := Raw.call) (g := callQueue N)
      (R := fun r queue ↦ ∃ q : RingBuffer α N, r = q.raw ∧ queue = q.toList) (by
        rintro _ _ op ⟨q, rfl, rfl⟩
        obtain ⟨answer, q', hraw, hqueue⟩ := q.raw_call op
        exact ⟨answer, q'.raw, q'.toList, hraw, hqueue, q', rfl, rfl⟩)
      ⟨new, rfl, rfl⟩ ops
  exact ⟨answers, q, hraw, hqueue⟩

end RingBuffer

end Tarnos.Kcore
