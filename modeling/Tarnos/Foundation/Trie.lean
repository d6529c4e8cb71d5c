import Mathlib.Algebra.BigOperators.Group.Finset.Basic
import Mathlib.Algebra.Order.BigOperators.Group.Finset
import Mathlib.Algebra.Order.Group.Multiset
import Mathlib.Data.Finset.Card
import Mathlib.Data.Fintype.Basic
import Mathlib.Order.Interval.Finset.Nat
import Mathlib.Tactic.Abel
import Mathlib.Tactic.Common

namespace Tarnos.Foundation

open Function

variable {ι α β σ : Type}

/-- A state from which fresh labels are taken until none is left. -/
structure Supply (α σ : Type) where
  take : σ → Option α × σ
  free : σ → Finset α
  take_none : ∀ {s s'}, take s = (none, s') → free s = ∅ ∧ s' = s
  take_some : ∀ {s s' a}, take s = (some a, s') → (free s).val = a ::ₘ (free s').val

theorem Supply.take_card (S : Supply α σ) {s s' : σ} {a : α} (h : S.take s = (some a, s')) :
    (S.free s).card = (S.free s').card + 1 := by
  have hval := congrArg Multiset.card (S.take_some h)
  rwa [Multiset.card_cons] at hval

/-- A tree of height `n`: its inner nodes branch over `ι`, each node below the root has a label, and
a node at height 0 holds a value. -/
def Trie (ι α β : Type) : ℕ → Type
  | 0 => β
  | n + 1 => ι → Option (α × Trie ι α β n)

inductive InsertError
  | exhausted
  | occupied
  deriving DecidableEq, Repr

namespace Trie

def leaf (b : β) : Trie ι α β 0 := b

def empty (n : ℕ) : Trie ι α β (n + 1) := fun _ ↦ none

def child {n : ℕ} (t : Trie ι α β (n + 1)) : ι → Option (α × Trie ι α β n) := t

def set [DecidableEq ι] {n : ℕ} (t : Trie ι α β (n + 1)) (i : ι) (x : Option (α × Trie ι α β n)) :
    Trie ι α β (n + 1) :=
  update t.child i x

section Child

variable {n : ℕ} {t : Trie ι α β (n + 1)} {i j : ι} {x : Option (α × Trie ι α β n)}

@[simp] theorem child_empty : (empty n : Trie ι α β (n + 1)).child i = none := rfl

variable [DecidableEq ι]

@[simp] theorem child_set_self : (t.set i x).child i = x := update_self ..

theorem child_set_of_ne (h : j ≠ i) : (t.set i x).child j = t.child j := update_of_ne h ..

end Child

/-- The label of the node at height `k` on a path, which gives the branch to take towards each
height. -/
def label : (n : ℕ) → Trie ι α β n → (ℕ → ι) → ℕ → Option α
  | 0, _, _, _ => none
  | n + 1, t, path, k =>
    match t.child (path n) with
    | none => none
    | some (a, sub) => if k = n then some a else label n sub path k

def entry : (n : ℕ) → Trie ι α β (n + 1) → (ℕ → ι) → Option (α × β)
  | 0, t, path => t.child (path 0)
  | n + 1, t, path =>
    match t.child (path (n + 1)) with
    | none => none
    | some (_, sub) => entry n sub path

def labels [Fintype ι] : (n : ℕ) → Trie ι α β n → Multiset α
  | 0, _ => 0
  | n + 1, t => ∑ i, match t.child i with
    | none => 0
    | some (a, sub) => a ::ₘ labels n sub

def missing : (n : ℕ) → Trie ι α β (n + 1) → (ℕ → ι) → ℕ
  | 0, _, _ => 0
  | n + 1, t, path =>
    match t.child (path (n + 1)) with
    | none => n + 1
    | some (_, sub) => missing n sub path

section Lookup

variable {n k : ℕ} {t : Trie ι α β (n + 1)} {path : ℕ → ι} {a : α} {sub : Trie ι α β n}

theorem label_of_none (h : t.child (path n) = none) : label (n + 1) t path k = none := by
  rw [label, h]

theorem label_of_some (h : t.child (path n) = some (a, sub)) :
    label (n + 1) t path k = if k = n then some a else label n sub path k := by
  rw [label, h]

theorem label_congr {n k : ℕ} {t : Trie ι α β (n + 1)} {path q : ℕ → ι}
    (h : ∀ j, k ≤ j → j ≤ n → q j = path j) (hk : k ≤ n) :
    label (n + 1) t q k = label (n + 1) t path k := by
  induction n with
  | zero =>
    rw [label, label, h 0 hk le_rfl]
    cases t.child (path 0) <;> rfl
  | succ n ih =>
    rw [label, label, h (n + 1) hk le_rfl]
    cases t.child (path (n + 1)) with
    | none => rfl
    | some entry =>
      by_cases hkn : k = n + 1
      · simp [hkn]
      · simp only [hkn, if_false]
        exact ih (fun j hkj hj ↦ h j hkj (Nat.le_succ_of_le hj)) (by omega)

theorem entry_of_none {t : Trie ι α β (n + 2)} (h : t.child (path (n + 1)) = none) :
    entry (n + 1) t path = none := by
  rw [entry, h]

theorem entry_of_some {t : Trie ι α β (n + 2)} {sub : Trie ι α β (n + 1)}
    (h : t.child (path (n + 1)) = some (a, sub)) : entry (n + 1) t path = entry n sub path := by
  rw [entry, h]

theorem entry_empty : entry n (empty n : Trie ι α β (n + 1)) path = none := by
  cases n with
  | zero => rfl
  | succ n => exact entry_of_none child_empty

theorem entry_set_of_ne [DecidableEq ι] {i : ι} {x : Option (α × Trie ι α β n)} (h : path n ≠ i) :
    entry n (t.set i x) path = entry n t path := by
  cases n with
  | zero => exact child_set_of_ne h
  | succ n => rw [entry, entry, child_set_of_ne h]

theorem label_zero (n : ℕ) (t : Trie ι α β (n + 1)) (path : ℕ → ι) :
    label (n + 1) t path 0 = (entry n t path).map Prod.fst := by
  induction n with
  | zero =>
    rw [label, entry]
    cases t.child (path 0) with
    | none | some x => rfl
  | succ n ih =>
    cases hchild : t.child (path (n + 1)) with
    | none => rw [label_of_none hchild, entry_of_none hchild, Option.map_none]
    | some x =>
      rw [label_of_some hchild, entry_of_some hchild, if_neg (Nat.succ_ne_zero n).symm]
      exact ih x.2

theorem label_set_self [DecidableEq ι] {i : ι} (h : path n = i) :
    label (n + 1) (t.set i (some (a, sub))) path k = if k = n then some a else label n sub path k :=
  label_of_some (by rw [h, child_set_self])

theorem label_set_of_ne [DecidableEq ι] {i : ι} {x : Option (α × Trie ι α β n)} (h : path n ≠ i) :
    label (n + 1) (t.set i x) path k = label (n + 1) t path k := by
  rw [label, label, child_set_of_ne h]

theorem label_empty : label (n + 1) (empty n : Trie ι α β (n + 1)) path k = none :=
  label_of_none child_empty

theorem missing_of_none {t : Trie ι α β (n + 2)} (h : t.child (path (n + 1)) = none) :
    missing (n + 1) t path = n + 1 := by
  rw [missing, h]

theorem missing_of_some {t : Trie ι α β (n + 2)} {sub : Trie ι α β (n + 1)}
    (h : t.child (path (n + 1)) = some (a, sub)) : missing (n + 1) t path = missing n sub path := by
  rw [missing, h]

theorem missing_eq_card (n : ℕ) (t : Trie ι α β (n + 1)) (path : ℕ → ι) :
    missing n t path = ((Finset.Icc 1 n).filter fun k ↦ (label (n + 1) t path k).isNone).card := by
  induction n with
  | zero => rfl
  | succ n ih =>
    cases hchild : t.child (path (n + 1)) with
    | none =>
      rw [missing_of_none hchild, Finset.filter_true_of_mem, Nat.card_Icc, Nat.add_sub_cancel]
      intro k _
      rw [label_of_none hchild, Option.isNone_none]
    | some entry =>
      obtain ⟨a, sub⟩ := entry
      rw [missing_of_some hchild, ih]
      congr 1
      ext k
      rw [Finset.mem_filter, Finset.mem_filter, Finset.mem_Icc, Finset.mem_Icc, label_of_some hchild]
      by_cases hk : k = n + 1
      · subst hk
        simp
      · rw [if_neg hk]
        exact and_congr_left fun _ ↦ ⟨fun h ↦ ⟨h.1, by omega⟩, fun h ↦ ⟨h.1, by omega⟩⟩

theorem missing_empty : missing n (empty n : Trie ι α β (n + 1)) path = n := by
  cases n with
  | zero => rfl
  | succ n => exact missing_of_none child_empty

end Lookup

section Labels

variable [Fintype ι] {n : ℕ}

def branch : Option (α × Trie ι α β n) → Multiset α
  | none => 0
  | some (a, sub) => a ::ₘ labels n sub

theorem labels_zero (t : Trie ι α β 0) : labels 0 t = 0 := rfl

theorem labels_succ (t : Trie ι α β (n + 1)) : labels (n + 1) t = ∑ i, branch (t.child i) := by
  rw [labels]
  refine Finset.sum_congr rfl fun i _ ↦ ?_
  cases t.child i <;> rfl

theorem mem_labels_succ {t : Trie ι α β (n + 1)} {a : α} :
    a ∈ labels (n + 1) t ↔ ∃ i, a ∈ branch (t.child i) := by
  rw [labels_succ, Multiset.mem_sum]
  simp

theorem branch_le (t : Trie ι α β (n + 1)) (i : ι) : branch (t.child i) ≤ labels (n + 1) t := by
  rw [labels_succ]
  exact Finset.single_le_sum (fun _ _ ↦ Multiset.zero_le _) (Finset.mem_univ i)

theorem branch_unique [DecidableEq α] {t : Trie ι α β (n + 1)} (hnodup : (labels (n + 1) t).Nodup)
    {i j : ι} {a : α} (hi : a ∈ branch (t.child i)) (hj : a ∈ branch (t.child j)) : i = j := by
  classical
  by_contra hne
  have hcount : ∑ k ∈ {i, j}, (branch (t.child k)).count a ≤ 1 := by
    have hle := Multiset.nodup_iff_count_le_one.mp hnodup a
    rw [labels_succ, Multiset.count_sum'] at hle
    exact (Finset.sum_le_sum_of_subset (Finset.subset_univ _)).trans hle
  rw [Finset.sum_pair hne] at hcount
  have hposi := Multiset.count_pos.mpr hi
  have hposj := Multiset.count_pos.mpr hj
  omega

theorem mem_labels {n k : ℕ} {t : Trie ι α β n} {path : ℕ → ι} {a : α}
    (h : label n t path k = some a) : a ∈ labels n t := by
  induction n with
  | zero => cases h
  | succ n ih =>
    refine mem_labels_succ.mpr ⟨path n, ?_⟩
    rw [label] at h
    split at h
    · cases h
    · rename_i node sub hchild
      rw [hchild, branch, Multiset.mem_cons]
      split at h
      · exact .inl (Option.some.inj h).symm
      · exact .inr (ih h)

theorem mem_branch {k : ℕ} {t : Trie ι α β (n + 1)} {path : ℕ → ι} {a : α}
    (h : label (n + 1) t path k = some a) : a ∈ branch (t.child (path n)) := by
  rw [label] at h
  split at h
  · cases h
  · rename_i hchild
    rw [hchild, branch, Multiset.mem_cons]
    split at h
    · exact .inl (Option.some.inj h).symm
    · exact .inr (mem_labels h)

/-- Where no label occurs twice, a value's label tells the path to it. -/
theorem path_unique [DecidableEq α] {t : Trie ι α β n} {path q : ℕ → ι} {a : α}
    (hnodup : (labels n t).Nodup) (h : label n t path 0 = some a) (hq : label n t q 0 = some a) :
    ∀ j < n, path j = q j := by
  induction n with
  | zero => simp
  | succ n ih =>
    have hroot : path n = q n := branch_unique hnodup (mem_branch h) (mem_branch hq)
    have hsub := Multiset.nodup_of_le (branch_le t (path n)) hnodup
    cases hchild : t.child (path n) with
    | none => rw [label_of_none hchild] at h; cases h
    | some x =>
      rw [hchild, branch, Multiset.nodup_cons] at hsub
      rw [label_of_some hchild] at h
      rw [label_of_some (hroot ▸ hchild)] at hq
      intro j hj
      obtain rfl | hne := eq_or_ne j n
      · exact hroot
      · rw [if_neg (by omega)] at h hq
        exact ih hsub.2 h hq j (by omega)

@[simp] theorem labels_empty (n : ℕ) : labels (n + 1) (empty n : Trie ι α β (n + 1)) = 0 := by
  simp [labels]

end Labels

variable [DecidableEq ι] (S : Supply α σ)

/-- Put a value at the end of a path. The inner nodes it lacks are made with fresh labels on the way
down, and they stay if the insertion fails further down. -/
def insert : (n : ℕ) → Trie ι α β (n + 1) → (ℕ → ι) → α → β → σ →
    Except InsertError Unit × Trie ι α β (n + 1) × σ
  | 0, t, path, a, b, s =>
    match t.child (path 0) with
    | some _ => (.error .occupied, t, s)
    | none => (.ok (), t.set (path 0) (some (a, leaf b)), s)
  | n + 1, t, path, a, b, s =>
    match t.child (path (n + 1)) with
    | some (node, sub) =>
      let r := insert n sub path a b s
      (r.1, t.set (path (n + 1)) (some (node, r.2.1)), r.2.2)
    | none =>
      match S.take s with
      | (none, s') => (.error .exhausted, t, s')
      | (some node, s') =>
        let r := insert n (empty n) path a b s'
        (r.1, t.set (path (n + 1)) (some (node, r.2.1)), r.2.2)

/-- How an insertion goes: it fails at once, puts the value into a leaf's table, or goes on in a
subtree that is there or has just been made. -/
theorem insert_cases {motive : (n : ℕ) → Trie ι α β (n + 1) → σ →
      Except InsertError Unit × Trie ι α β (n + 1) × σ → Prop} (path : ℕ → ι) (a : α) (b : β)
    (occupied : ∀ t s x, t.child (path 0) = some x → motive 0 t s (.error .occupied, t, s))
    (leaf : ∀ t s, t.child (path 0) = none →
      motive 0 t s (.ok (), t.set (path 0) (some (a, leaf b)), s))
    (below : ∀ n t s node sub r, t.child (path (n + 1)) = some (node, sub) → motive n sub s r →
      motive (n + 1) t s (r.1, t.set (path (n + 1)) (some (node, r.2.1)), r.2.2))
    (exhausted : ∀ n t s, t.child (path (n + 1)) = none → S.free s = ∅ →
      motive (n + 1) t s (.error .exhausted, t, s))
    (made : ∀ n t s node s' r, t.child (path (n + 1)) = none → S.take s = (some node, s') →
      motive n (empty n) s' r →
      motive (n + 1) t s (r.1, t.set (path (n + 1)) (some (node, r.2.1)), r.2.2))
    (n : ℕ) (t : Trie ι α β (n + 1)) (s : σ) : motive n t s (insert S n t path a b s) := by
  induction n generalizing s with
  | zero =>
    rw [insert]
    split
    · rename_i x hx
      exact occupied t s x hx
    · rename_i hnone
      exact leaf t s hnone
  | succ n ih =>
    rw [insert]
    split
    · rename_i node sub hsub
      exact below n t s node sub _ hsub (ih sub s)
    · rename_i hnone
      split
      · rename_i s' htake
        obtain ⟨hfree, rfl⟩ := S.take_none htake
        exact exhausted n t s' hnone hfree
      · rename_i node s' htake
        exact made n t s node s' _ hnone htake (ih (empty n) s')

section Labels

variable [Fintype ι]

theorem labels_update {n : ℕ} (t : Trie ι α β (n + 1)) (i : ι) (x : Option (α × Trie ι α β n))
    {new : Multiset α} (h : branch x = branch (t.child i) + new) :
    labels (n + 1) (t.set i x) = labels (n + 1) t + new := by
  have hrest : ∑ j ∈ Finset.univ.erase i, branch ((t.set i x).child j) =
      ∑ j ∈ Finset.univ.erase i, branch (t.child j) := by
    refine Finset.sum_congr rfl fun j hj ↦ ?_
    rw [child_set_of_ne (Finset.ne_of_mem_erase hj)]
  rw [labels_succ, labels_succ,
    ← Finset.add_sum_erase Finset.univ (fun j ↦ branch ((t.set i x).child j)) (Finset.mem_univ i),
    ← Finset.add_sum_erase Finset.univ (fun j ↦ branch (t.child j)) (Finset.mem_univ i), hrest,
    child_set_self, h]
  abel

theorem labels_insert (n : ℕ) (t : Trie ι α β (n + 1)) (path : ℕ → ι) (a : α) (b : β) (s : σ) :
    ∃ new, (S.free s).val = new + (S.free (insert S n t path a b s).2.2).val ∧
      labels (n + 1) (insert S n t path a b s).2.1 = labels (n + 1) t +
        (new + if (insert S n t path a b s).1.isOk then {a} else 0) := by
  refine insert_cases S (motive := fun n t s r ↦ ∃ new, (S.free s).val = new + (S.free r.2.2).val ∧
    labels (n + 1) r.2.1 = labels (n + 1) t + (new + if r.1.isOk then {a} else 0)) path a b
    (fun t s x _ ↦ ⟨0, by simp, by simp [Except.isOk, Except.toBool]⟩) (fun t s hnone ↦ ?_)
    (fun n t s node sub r hsub ih ↦ ?_)
    (fun n t s _ _ ↦ ⟨0, by simp, by simp [Except.isOk, Except.toBool]⟩)
    (fun n t s node s' r hnone htake ih ↦ ?_) n t s
  · refine ⟨0, by simp, labels_update t _ _ ?_⟩
    rw [hnone]
    simp [branch, labels, Except.isOk, Except.toBool]
  · obtain ⟨new, hfree, hlabels⟩ := ih
    refine ⟨new, hfree, labels_update t _ _ ?_⟩
    rw [hsub, branch, branch, hlabels, Multiset.cons_add]
  · obtain ⟨new, hfree, hlabels⟩ := ih
    refine ⟨node ::ₘ new, by rw [S.take_some htake, hfree, Multiset.cons_add],
      labels_update t _ _ ?_⟩
    rw [hnone, branch, branch, hlabels, labels_empty, zero_add, zero_add, Multiset.cons_add]

end Labels

variable {n : ℕ} {t : Trie ι α β (n + 1)} {path q : ℕ → ι} {a : α} {b : β} {s : σ}

theorem child_insert_of_ne {i : ι} (hi : i ≠ path n) :
    (insert S n t path a b s).2.1.child i = t.child i := by
  revert hi
  refine insert_cases S (motive := fun n t s r ↦ i ≠ path n → r.2.1.child i = t.child i) path a b
    (fun t s x _ _ ↦ rfl) (fun t s _ hi ↦ child_set_of_ne hi)
    (fun n t s node sub r _ _ hi ↦ child_set_of_ne hi) (fun n t s _ _ _ ↦ rfl)
    (fun n t s node s' r _ _ _ hi ↦ child_set_of_ne hi) n t s

theorem insert_supply {R : σ → σ → Prop} (hrefl : ∀ s, R s s)
    (htrans : ∀ s s' s'', R s s' → R s' s'' → R s s'')
    (htake : ∀ s a s', S.take s = (some a, s') → R s s') : R s (insert S n t path a b s).2.2 := by
  refine insert_cases S (motive := fun _ _ s r ↦ R s r.2.2) path a b (fun _ s _ _ ↦ hrefl s)
    (fun _ s _ ↦ hrefl s) (fun _ _ _ _ _ _ _ ih ↦ ih) (fun _ _ s _ _ ↦ hrefl s)
    (fun n t s node s' r _ htaken ih ↦ htrans _ _ _ (htake _ _ _ htaken) ih) n t s

theorem insert_related {R : σ → σ → Prop}
    (htake : ∀ s s', R s s' → (S.take s).1 = (S.take s').1 ∧ R (S.take s).2 (S.take s').2)
    {s' : σ} (h : R s s') :
    (insert S n t path a b s).1 = (insert S n t path a b s').1 ∧
      (insert S n t path a b s).2.1 = (insert S n t path a b s').2.1 ∧
      R (insert S n t path a b s).2.2 (insert S n t path a b s').2.2 := by
  induction n generalizing s s' with
  | zero =>
    rw [insert, insert]
    cases t.child (path 0) with
    | some x | none => exact ⟨rfl, rfl, h⟩
  | succ n ih =>
    rw [insert, insert]
    cases t.child (path (n + 1)) with
    | some x =>
      obtain ⟨hresult, hsub, hstate⟩ := ih (t := x.2) h
      exact ⟨hresult, congrArg (fun sub ↦ t.set (path (n + 1)) (some (x.1, sub))) hsub, hstate⟩
    | none =>
      obtain ⟨hlabel, hnext⟩ := htake s s' h
      generalize S.take s = out at hlabel hnext ⊢
      generalize S.take s' = out' at hlabel hnext ⊢
      obtain ⟨label, next⟩ := out
      obtain ⟨label', next'⟩ := out'
      cases hlabel
      cases label with
      | none => exact ⟨rfl, rfl, hnext⟩
      | some node =>
        obtain ⟨hresult, hsub, hstate⟩ := ih (t := empty n) hnext
        exact ⟨hresult, congrArg (fun sub ↦ t.set (path (n + 1)) (some (node, sub))) hsub, hstate⟩

/-- An insertion succeeds exactly if the place is empty and the supply has enough labels for the
inner nodes that are missing, and then it takes these. -/
theorem insert_ok : (insert S n t path a b s).1.isOk = true ↔
    label (n + 1) t path 0 = none ∧ missing n t path ≤ (S.free s).card := by
  refine insert_cases S (motive := fun n t s r ↦ r.1.isOk = true ↔
    label (n + 1) t path 0 = none ∧ missing n t path ≤ (S.free s).card) path a b
    (fun t s x hx ↦ ?_) (fun t s hnone ↦ ?_) (fun n t s node sub r hsub ih ↦ ?_)
    (fun n t s hnone hfree ↦ ?_) (fun n t s node s' r hnone htake ih ↦ ?_) n t s
  · refine ⟨fun h ↦ ?_, fun h ↦ ?_⟩
    · cases h
    · rw [label_of_some hx, if_pos rfl] at h
      cases h.1
  · exact ⟨fun _ ↦ ⟨label_of_none hnone, Nat.zero_le _⟩, fun _ ↦ rfl⟩
  · rw [label_of_some hsub, if_neg (Nat.succ_ne_zero n).symm, missing_of_some hsub]
    exact ih
  · refine ⟨fun h ↦ ?_, fun h ↦ ?_⟩
    · cases h
    · rw [missing_of_none hnone, hfree] at h
      exact absurd h.2 (Nat.not_succ_le_zero n)
  · rw [label_of_none hnone, missing_of_none hnone, S.take_card htake, ih, label_empty, missing_empty]
    exact and_congr_right fun _ ↦ Nat.succ_le_succ_iff.symm

theorem insert_card : (insert S n t path a b s).1.isOk = true →
    (S.free s).card = missing n t path + (S.free (insert S n t path a b s).2.2).card := by
  refine insert_cases S (motive := fun n t s r ↦ r.1.isOk = true →
    (S.free s).card = missing n t path + (S.free r.2.2).card) path a b
    (fun t s x _ h ↦ by cases h) (fun t s _ _ ↦ (Nat.zero_add _).symm)
    (fun n t s node sub r hsub ih h ↦ ?_) (fun n t s _ _ h ↦ by cases h)
    (fun n t s node s' r hnone htake ih h ↦ ?_) n t s
  · rw [missing_of_some hsub]
    exact ih h
  · rw [missing_of_none hnone, S.take_card htake, ih h, missing_empty, Nat.add_right_comm]

omit [DecidableEq ι] in
theorem agree_above {k : ℕ} (hq : q (n + 1) = path (n + 1)) :
    (∀ j, k ≤ j → j ≤ n + 1 → q j = path j) ↔ ∀ j, k ≤ j → j ≤ n → q j = path j := by
  refine ⟨fun h j hk hj ↦ h j hk (Nat.le_succ_of_le hj), fun h j hk hj ↦ ?_⟩
  rcases Nat.le_succ_iff.mp hj with hle | heq
  · exact h j hk hle
  · rw [heq, hq]

theorem entry_insert : entry n (insert S n t path a b s).2.1 q =
    if (insert S n t path a b s).1.isOk = true ∧ ∀ j : ℕ, 0 ≤ j → j ≤ n → q j = path j then
      some (a, b)
    else entry n t q := by
  refine insert_cases S (motive := fun n t s r ↦ entry n r.2.1 q =
    if r.1.isOk = true ∧ ∀ j : ℕ, 0 ≤ j → j ≤ n → q j = path j then some (a, b)
    else entry n t q) path a b
    (fun t s x _ ↦ ?_) (fun t s hnone ↦ ?_) (fun n t s node sub r hsub ih ↦ ?_)
    (fun n t s _ _ ↦ ?_) (fun n t s node s' r hnone htake ih ↦ ?_) n t s
  · rw [if_neg]
    rintro ⟨hok, -⟩
    cases hok
  · by_cases hq : q 0 = path 0
    · rw [if_pos ⟨rfl, fun j _ hj ↦ by rw [Nat.le_zero.mp hj, hq]⟩, entry, hq]
      exact child_set_self
    · rw [if_neg fun h ↦ hq (h.2 0 le_rfl le_rfl)]
      exact entry_set_of_ne hq
  · by_cases hq : q (n + 1) = path (n + 1)
    · simp only [agree_above hq]
      rw [entry_of_some (t := t) (hq ▸ hsub), ← ih]
      exact entry_of_some (by rw [hq]; exact child_set_self)
    · rw [if_neg fun h ↦ hq (h.2 (n + 1) (Nat.zero_le _) le_rfl)]
      exact entry_set_of_ne hq
  · rw [if_neg]
    rintro ⟨hok, -⟩
    cases hok
  · by_cases hq : q (n + 1) = path (n + 1)
    · simp only [agree_above hq]
      rw [entry_of_none (t := t) (hq ▸ hnone),
        ← (entry_empty : entry n (empty n : Trie ι α β (n + 1)) q = none), ← ih]
      exact entry_of_some (by rw [hq]; exact child_set_self)
    · rw [if_neg fun h ↦ hq (h.2 (n + 1) (Nat.zero_le _) le_rfl)]
      exact entry_set_of_ne hq

theorem isSome_label_insert {k : ℕ} (hk : k ≤ n) : (insert S n t path a b s).1.isOk = true →
    ((label (n + 1) (insert S n t path a b s).2.1 q k).isSome ↔
      (label (n + 1) t q k).isSome ∨ ∀ j, k ≤ j → j ≤ n → q j = path j) := by
  revert hk
  refine insert_cases S (motive := fun n t s r ↦ k ≤ n → r.1.isOk = true →
    ((label (n + 1) r.2.1 q k).isSome ↔
      (label (n + 1) t q k).isSome ∨ ∀ j, k ≤ j → j ≤ n → q j = path j)) path a b
    (fun t s x _ _ h ↦ by cases h) (fun t s hnone hk _ ↦ ?_)
    (fun n t s node sub r hsub ih hk hok ↦ ?_) (fun n t s _ _ _ h ↦ by cases h)
    (fun n t s node s' r hnone htake ih hk hok ↦ ?_) n t s
  · cases Nat.le_zero.mp hk
    by_cases hq : q 0 = path 0
    · have hagree : ∀ j, 0 ≤ j → j ≤ 0 → q j = path j := fun j _ hj ↦ by rw [Nat.le_zero.mp hj, hq]
      rw [label_set_self hq]
      simpa using Or.inr hagree
    · rw [label_set_of_ne hq]
      exact ⟨.inl, fun h ↦ h.elim id fun hagree ↦ absurd (hagree 0 le_rfl le_rfl) hq⟩
  · by_cases hq : q (n + 1) = path (n + 1)
    · rw [label_set_self hq, label_of_some (t := t) (hq ▸ hsub)]
      rcases Nat.le_succ_iff.mp hk with hle | rfl
      · rw [if_neg (by omega), if_neg (by omega), agree_above hq]
        exact ih hle hok
      · simp
    · rw [label_set_of_ne hq]
      exact ⟨.inl, fun h ↦ h.elim id fun hagree ↦ absurd (hagree (n + 1) hk le_rfl) hq⟩
  · by_cases hq : q (n + 1) = path (n + 1)
    · rw [label_set_self hq, label_of_none (t := t) (hq ▸ hnone)]
      rcases Nat.le_succ_iff.mp hk with hle | rfl
      · rw [if_neg (by omega), agree_above hq,
          ← (label_empty : label (n + 1) (empty n : Trie ι α β (n + 1)) q k = none)]
        exact ih hle hok
      · have hagree : ∀ j, n + 1 ≤ j → j ≤ n + 1 → q j = path j :=
          fun j hj hj' ↦ by rw [le_antisymm hj' hj, hq]
        simpa using hagree
    · rw [label_set_of_ne hq]
      exact ⟨.inl, fun h ↦ h.elim id fun hagree ↦ absurd (hagree (n + 1) hk le_rfl) hq⟩

-- over a large `ι` the sum is never to be computed
attribute [irreducible] labels

end Trie

end Tarnos.Foundation
