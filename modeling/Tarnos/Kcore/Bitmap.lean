import Mathlib.Algebra.BigOperators.Fin
import Mathlib.Algebra.Order.BigOperators.Group.Finset
import Mathlib.Data.Finset.Card
import Mathlib.Data.List.OfFn
import Mathlib.Tactic.Common
import Tarnos.Foundation.Transition

namespace Tarnos.Kcore

open Foundation.Transition

variable {W : ℕ}

/-- A set of `W * 64` indices. A set bit means free, so a zeroed bitmap has nothing to give. -/
structure Bitmap (W : ℕ) where
  words : Vector (BitVec 64) W
  /-- One past the highest index ever marked free; no free index lies beyond it. -/
  frameCount : ℕ
  frameCount_le : frameCount ≤ W * 64
  below : ∀ k (hk : k < W) j, words[k].getLsbD j = true → k * 64 + j < frameCount

namespace Bitmap

theorem word_lt {index : ℕ} (h : index < W * 64) : index / 64 < W :=
  Nat.div_lt_of_lt_mul (Nat.mul_comm W 64 ▸ h)

def new : Bitmap W where
  words := Vector.replicate W 0
  frameCount := 0
  frameCount_le := Nat.zero_le _
  below := by
    intro k hk j hj
    simp at hj

def setFree (b : Bitmap W) (index : ℕ) : Bitmap W :=
  if h : index < W * 64 then
    have hword : index / 64 < W := word_lt h
    { words := b.words.set (index / 64) (b.words[index / 64] ||| BitVec.twoPow 64 (index % 64)) hword
      frameCount := if b.frameCount ≤ index then index + 1 else b.frameCount
      frameCount_le := by
        have hcount := b.frameCount_le
        split <;> omega
      below := by
        intro k hk j hj
        have hold : b.words[k].getLsbD j = true → k * 64 + j < b.frameCount := b.below k hk j
        rw [Vector.getElem_set] at hj
        by_cases hkw : index / 64 = k
        · subst hkw
          rw [if_pos rfl, BitVec.getLsbD_or, BitVec.getLsbD_twoPow, Bool.or_eq_true,
            Bool.and_eq_true] at hj
          rcases hj with hj | ⟨-, hj⟩
          · have := hold hj
            split <;> omega
          · have := of_decide_eq_true hj
            split <;> omega
        · rw [if_neg hkw] at hj
          have := hold hj
          split <;> omega }
  else b

def setUsed (b : Bitmap W) (index : ℕ) : Bitmap W :=
  if h : index < W * 64 then
    have hword : index / 64 < W := word_lt h
    { words :=
        b.words.set (index / 64) (b.words[index / 64] &&& ~~~ BitVec.twoPow 64 (index % 64)) hword
      frameCount := b.frameCount
      frameCount_le := b.frameCount_le
      below := by
        intro k hk j hj
        rw [Vector.getElem_set] at hj
        by_cases hkw : index / 64 = k
        · subst hkw
          rw [if_pos rfl, BitVec.getLsbD_and, Bool.and_eq_true] at hj
          exact b.below _ hk j hj.1
        · rw [if_neg hkw] at hj
          exact b.below k hk j hj }
  else b

def freeCount (b : Bitmap W) : ℕ := (b.words.toList.map fun word ↦ word.cpop.toNat).sum

def word (b : Bitmap W) (k : ℕ) : BitVec 64 := b.words[k]?.getD 0

def isFree (b : Bitmap W) (index : ℕ) : Bool :=
  index < W * 64 && b.word (index / 64) &&& BitVec.twoPow 64 (index % 64) != 0

/-- The first word with a free index, searched for up to the bound, which no word of the map
exceeds. -/
def firstWord (b : Bitmap W) : Option ℕ :=
  (List.range ((b.frameCount + 63) / 64)).find? fun k ↦ b.word k != 0

def allocate (b : Bitmap W) : Option ℕ × Bitmap W :=
  match b.firstWord with
  | some k =>
    let index := k * 64 + (b.word k).ctz.toNat
    (some index, b.setUsed index)
  | none => (none, b)

def free (b : Bitmap W) : Finset ℕ := (Finset.range (W * 64)).filter fun i ↦ b.isFree i = true

variable {b : Bitmap W} {i j k : ℕ}

theorem word_eq (hk : k < W) : b.word k = b.words[k] := by
  simp [word, hk]

theorem word_of_le (hk : W ≤ k) : b.word k = 0 := by
  simp [word, Nat.not_lt.mpr hk]

theorem and_twoPow_ne_zero (x : BitVec 64) (hi : i < 64) :
    (x &&& BitVec.twoPow 64 i != 0) = x.getLsbD i := by
  rw [BitVec.and_twoPow]
  cases x.getLsbD i with
  | false => rfl
  | true =>
    have hne : BitVec.twoPow 64 i ≠ 0#64 := by
      intro hzero
      have hset : (BitVec.twoPow 64 i).getLsbD i = true := by simp [hi]
      rw [hzero] at hset
      simp at hset
    simpa using hne

theorem isFree_eq (b : Bitmap W) (i : ℕ) : b.isFree i = (b.word (i / 64)).getLsbD (i % 64) := by
  rw [isFree, and_twoPow_ne_zero _ (Nat.mod_lt _ (by decide))]
  by_cases h : i < W * 64
  · simp [h]
  · rw [word_of_le (Nat.le_div_iff_mul_le (by decide) |>.mpr (Nat.not_lt.mp h))]
    simp

theorem lt_of_isFree (h : b.isFree i = true) : i < W * 64 := by
  by_contra hge
  simp [isFree, hge] at h

theorem mem_free : i ∈ b.free ↔ b.isFree i = true := by
  rw [free, Finset.mem_filter, Finset.mem_range]
  exact ⟨And.right, fun h ↦ ⟨lt_of_isFree h, h⟩⟩

theorem isFree_new (i : ℕ) : (new : Bitmap W).isFree i = false := by
  rw [isFree_eq]
  by_cases hi : i / 64 < W
  · simp [word_eq hi, new]
  · simp [word_of_le (Nat.not_lt.mp hi)]

theorem word_set {words : Vector (BitVec 64) W} (hi : i < W) (v : BitVec 64) :
    (words.set i v hi)[k]?.getD 0 = if i = k then v else words[k]?.getD 0 := by
  rw [Vector.getElem?_set]
  split
  · simp
  · rfl

theorem eq_of_div_mod (hdiv : i / 64 = j / 64) (hmod : i % 64 = j % 64) : i = j := by
  rw [← Nat.div_add_mod i 64, hdiv, hmod, Nat.div_add_mod]

theorem isFree_setFree (b : Bitmap W) (i j : ℕ) :
    (b.setFree i).isFree j = true ↔ b.isFree j = true ∨ i = j ∧ i < W * 64 := by
  unfold setFree
  split
  · rename_i h
    rw [isFree_eq, isFree_eq, word, word_set]
    by_cases hword : i / 64 = j / 64
    · rw [if_pos hword, BitVec.getLsbD_or, BitVec.getLsbD_twoPow, Bool.or_eq_true, Bool.and_eq_true,
        decide_eq_true_iff, decide_eq_true_iff, ← word_eq (word_lt h), hword]
      refine or_congr_right ⟨fun hbit ↦ ⟨eq_of_div_mod hword hbit.2, h⟩, fun heq ↦ ?_⟩
      exact ⟨Nat.mod_lt _ (by decide), congrArg (· % 64) heq.1⟩
    · rw [if_neg hword]
      refine ⟨.inl, ?_⟩
      rintro (hj | ⟨rfl, -⟩)
      · exact hj
      · exact absurd rfl hword
  · rename_i h
    simp [h]

theorem isFree_setUsed (b : Bitmap W) (i j : ℕ) :
    (b.setUsed i).isFree j = true ↔ b.isFree j = true ∧ j ≠ i := by
  unfold setUsed
  split
  · rename_i h
    rw [isFree_eq, isFree_eq, word, word_set]
    by_cases hword : i / 64 = j / 64
    · have hbit : j % 64 < 64 := Nat.mod_lt _ (by decide)
      have hsame : i % 64 = j % 64 ↔ j = i :=
        ⟨fun hmod ↦ (eq_of_div_mod hword hmod).symm, fun heq ↦ by rw [heq]⟩
      rw [if_pos hword, BitVec.getLsbD_and, BitVec.getLsbD_not, BitVec.getLsbD_twoPow,
        Bool.and_eq_true, ← word_eq (word_lt h), hword]
      simp [hbit, hsame, Nat.mod_lt i (show 0 < 64 by decide)]
    · rw [if_neg hword]
      refine ⟨fun hj ↦ ⟨hj, ?_⟩, And.left⟩
      rintro rfl
      exact hword rfl
  · rename_i h
    refine ⟨fun hj ↦ ⟨hj, ?_⟩, And.left⟩
    rintro rfl
    exact h (lt_of_isFree hj)

theorem free_new : (new : Bitmap W).free = ∅ := by
  ext i
  simp [mem_free, isFree_new]

theorem free_setFree (h : i < W * 64) : (b.setFree i).free = insert i b.free := by
  ext j
  rw [mem_free, isFree_setFree, Finset.mem_insert, mem_free, or_comm, eq_comm]
  simp [h]

theorem free_setUsed : (b.setUsed i).free = b.free.erase i := by
  ext j
  rw [mem_free, isFree_setUsed, Finset.mem_erase, mem_free, and_comm]

theorem word_lt_bound (h : b.isFree i = true) : i / 64 < (b.frameCount + 63) / 64 := by
  have hlt := lt_of_isFree h
  rw [isFree_eq, word_eq (word_lt hlt)] at h
  have := b.below _ (word_lt hlt) _ h
  omega

theorem allocate_none (h : b.firstWord = none) : b.free = ∅ := by
  refine Finset.eq_empty_of_forall_notMem fun i hi ↦ ?_
  rw [mem_free] at hi
  have hzero := List.find?_eq_none.mp h (i / 64) (List.mem_range.mpr (word_lt_bound hi))
  rw [isFree_eq, show b.word (i / 64) = 0 by simpa using hzero] at hi
  simp at hi

theorem allocate_some (h : b.firstWord = some k) :
    b.isFree (k * 64 + (b.word k).ctz.toNat) = true ∧
      ∀ i, b.isFree i = true → k * 64 + (b.word k).ctz.toNat ≤ i := by
  obtain ⟨hne, -, hbefore⟩ := List.find?_range_eq_some.mp h
  have hword : b.word k ≠ 0 := by simpa using hne
  have hctz : (b.word k).ctz.toNat < 64 := by
    have := BitVec.ctz_lt_iff_ne_zero.mpr hword
    simpa [BitVec.lt_def] using this
  have hdiv : (k * 64 + (b.word k).ctz.toNat) / 64 = k := by omega
  have hmod : (k * 64 + (b.word k).ctz.toNat) % 64 = (b.word k).ctz.toNat := by omega
  refine ⟨?_, fun i hi ↦ ?_⟩
  · rw [isFree_eq, hdiv, hmod]
    exact BitVec.getLsbD_true_ctz_of_ne_zero hword
  · have hk : k ≤ i / 64 := by
      by_contra hlt
      have hzero := hbefore (i / 64) (Nat.not_le.mp hlt)
      rw [isFree_eq, show b.word (i / 64) = 0 by simpa using hzero] at hi
      simp at hi
    rw [isFree_eq] at hi
    rcases Nat.lt_or_eq_of_le hk with hlt | heq
    · omega
    · rw [← heq] at hi
      have hbit : ¬ i % 64 < (b.word k).ctz.toNat := by
        intro hlow
        rw [BitVec.getLsbD_false_of_lt_ctz hlow] at hi
        cases hi
      omega

theorem allocate_eq_none : b.allocate.1 = none ↔ b.free = ∅ := by
  unfold allocate
  cases h : b.firstWord with
  | none => exact ⟨fun _ ↦ allocate_none h, fun _ ↦ rfl⟩
  | some k =>
    refine ⟨fun hnone ↦ (by cases hnone), fun hempty ↦ ?_⟩
    have hmem := mem_free.mpr (allocate_some h).1
    rw [hempty] at hmem
    exact absurd hmem (Finset.notMem_empty _)

theorem allocate_eq_some {b' : Bitmap W} (h : b.allocate = (some i, b')) :
    i ∈ b.free ∧ (∀ j ∈ b.free, i ≤ j) ∧ b'.free = b.free.erase i := by
  unfold allocate at h
  split at h
  · rename_i k hk
    cases h
    obtain ⟨hfree, hleast⟩ := allocate_some hk
    exact ⟨mem_free.mpr hfree, fun j hj ↦ hleast j (mem_free.mp hj), free_setUsed⟩
  · cases h

theorem allocate_unchanged {b' : Bitmap W} (h : b.allocate = (none, b')) : b' = b := by
  unfold allocate at h
  split at h
  · cases h
  · cases h
    rfl

theorem cpopNatRec_eq_sum {w : ℕ} (x : BitVec w) (n : ℕ) :
    x.cpopNatRec n 0 = ∑ j ∈ Finset.range n, (x.getLsbD j).toNat := by
  induction n with
  | zero => rfl
  | succ n ih =>
    rw [BitVec.cpopNatRec_succ, BitVec.cpopNatRec_eq, ih, Finset.sum_range_succ, Nat.zero_add]

theorem toNat_cpop (x : BitVec 64) : x.cpop.toNat = ∑ j ∈ Finset.range 64, (x.getLsbD j).toNat := by
  have hle := BitVec.cpopNatRec_zero_le x 64
  rw [BitVec.cpop, BitVec.toNat_ofNat, Nat.mod_eq_of_lt (by omega), cpopNatRec_eq_sum]

theorem sum_range_mul (f : ℕ → ℕ) (n m : ℕ) :
    ∑ i ∈ Finset.range (n * m), f i =
      ∑ k ∈ Finset.range n, ∑ j ∈ Finset.range m, f (k * m + j) := by
  induction n with
  | zero => simp
  | succ n ih => rw [Nat.succ_mul, Finset.sum_range_add, ih, Finset.sum_range_succ]

theorem toNat_bit (b : Bitmap W) (k : ℕ) (hj : j < 64) :
    ((b.word k).getLsbD j).toNat = if b.isFree (k * 64 + j) = true then 1 else 0 := by
  rw [isFree_eq, show (k * 64 + j) / 64 = k by omega, show (k * 64 + j) % 64 = j by omega]
  cases (b.word k).getLsbD j <;> rfl

theorem freeCount_eq (b : Bitmap W) : b.freeCount = b.free.card := by
  have hwords : b.freeCount = ∑ k ∈ Finset.range W, (b.word k).cpop.toNat := by
    have hlist : b.words.toList = List.ofFn fun k : Fin W ↦ b.word k := by
      apply List.ext_getElem
      · simp
      · intro k hk hk'
        simp [word_eq (show k < W by simpa using hk)]
    rw [freeCount, hlist, List.map_ofFn, List.sum_ofFn]
    exact Fin.sum_univ_eq_sum_range (fun k ↦ (b.word k).cpop.toNat) W
  calc b.freeCount
      = ∑ k ∈ Finset.range W, ∑ j ∈ Finset.range 64, if b.isFree (k * 64 + j) = true then 1 else 0 := by
        rw [hwords]
        refine Finset.sum_congr rfl fun k _ ↦ ?_
        rw [toNat_cpop]
        exact Finset.sum_congr rfl fun j hj ↦ b.toNat_bit k (Finset.mem_range.mp hj)
    _ = ∑ i ∈ Finset.range (W * 64), if b.isFree i = true then 1 else 0 := by
        rw [sum_range_mul]
    _ = b.free.card := (Finset.card_filter _ _).symm

inductive Op
  | setFree (index : ℕ)
  | setUsed (index : ℕ)
  | allocate

def call (b : Bitmap W) : Op → Option (Option ℕ × Bitmap W)
  | .setFree index => some (none, b.setFree index)
  | .setUsed index => some (none, b.setUsed index)
  | .allocate => some b.allocate

/-- The purpose of a bitmap: a set of indices below `n` that gives up its least element. -/
def callSet (n : ℕ) (set : Finset ℕ) : Op → Option (Option ℕ × Finset ℕ)
  | .setFree index => some (none, if index < n then insert index set else set)
  | .setUsed index => some (none, set.erase index)
  | .allocate =>
    if h : set.Nonempty then some (some (set.min' h), set.erase (set.min' h)) else some (none, set)

theorem setFree_of_le (h : W * 64 ≤ i) : b.setFree i = b := dif_neg (Nat.not_lt.mpr h)

theorem setUsed_of_le (h : W * 64 ≤ i) : b.setUsed i = b := dif_neg (Nat.not_lt.mpr h)

theorem call_free (b : Bitmap W) (op : Op) : ∃ answer b',
    b.call op = some (answer, b') ∧ callSet (W * 64) b.free op = some (answer, b'.free) := by
  cases op with
  | setFree index =>
    refine ⟨none, b.setFree index, rfl, ?_⟩
    rw [callSet]
    split
    · rw [free_setFree ‹_›]
    · rw [setFree_of_le (Nat.not_lt.mp ‹_›)]
  | setUsed index => exact ⟨none, b.setUsed index, rfl, by rw [callSet, free_setUsed]⟩
  | allocate =>
    cases hallocate : b.allocate with
    | mk answer b' =>
      refine ⟨answer, b', congrArg some hallocate, ?_⟩
      rw [callSet]
      cases answer with
      | none =>
        have hempty := allocate_eq_none.mp (congrArg Prod.fst hallocate)
        rw [dif_neg (by rw [hempty]; exact Finset.not_nonempty_empty), allocate_unchanged hallocate]
      | some index =>
        obtain ⟨hmem, hleast, hfree⟩ := allocate_eq_some hallocate
        have hmin : b.free.min' ⟨index, hmem⟩ = index :=
          le_antisymm (Finset.min'_le _ _ hmem) (Finset.le_min' _ _ _ hleast)
        rw [dif_pos ⟨index, hmem⟩, hmin, hfree]

/-- Every sequence of calls on a new bitmap is answered as the set answers it. -/
theorem refines_finite_set (W : ℕ) (ops : List Op) : ∃ answers b set,
    calls call (new : Bitmap W) ops = some (answers, b) ∧
    calls (callSet (W * 64)) ∅ ops = some (answers, set) ∧
    (∀ i, b.isFree i = true ↔ i ∈ set) ∧ b.freeCount = set.card ∧ (∀ i ∈ set, i < W * 64) ∧
    ∀ i, W * 64 ≤ i → b.setFree i = b ∧ b.setUsed i = b := by
  obtain ⟨answers, b, set, hb, hset, rfl⟩ := calls_simulate (f := call) (g := callSet (W * 64))
    (R := fun b set ↦ set = b.free) (by
      rintro b set op rfl
      obtain ⟨answer, b', hcall, hset⟩ := b.call_free op
      exact ⟨answer, b', b'.free, hcall, hset, rfl⟩) (free_new (W := W)).symm ops
  refine ⟨answers, b, b.free, hb, hset, fun i ↦ mem_free.symm, b.freeCount_eq, fun i hi ↦ ?_,
    fun i hi ↦ ⟨setFree_of_le hi, setUsed_of_le hi⟩⟩
  exact lt_of_isFree (mem_free.mp hi)

end Bitmap

/-- The frames that `[base, base + length)` covers entirely, as first and one past the last. The
sum is a machine word. -/
def usableFrameRange (base length frameSize : ℕ) : ℕ × ℕ :=
  ((base + frameSize - 1) / frameSize, (base + length) % 2 ^ 64 / frameSize)

end Tarnos.Kcore
