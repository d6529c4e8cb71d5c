import Mathlib.Algebra.Order.BigOperators.Group.Finset
import Mathlib.Data.Multiset.Count
import Tarnos.Foundation.Sums

namespace Tarnos.Foundation.Mail

open Function Foundation.Sums

variable {E C : Type*}

/-- What a courier has in hand: messages on their way to a receiver, messages whose senders it is
about to tell, offices it has promised to look into, and the message it is sending itself. -/
structure Courier (E : Type*) where
  carried : Multiset ℕ
  telling : Multiset ℕ
  serving : Multiset E
  sending : Option ℕ

/-- Offices with the messages waiting in them, numbered in the order they were accepted, and what
became of the messages: handed to a receiver, reported to the sender as sent, or left in the office
for a receiver that will come back. -/
structure Post (E C : Type*) where
  queue : E → List ℕ
  couriers : C → Courier E
  next : ℕ
  handed : Multiset ℕ
  completed : Multiset ℕ
  left : Multiset ℕ

namespace Post

section Step

variable [DecidableEq E] [DecidableEq C]

/-- What courier `c` can do in one step, after which it has `k` in hand. -/
inductive Step (c : C) (m : Post E C) : Post E C → Prop
  | rest {k : Courier E} (hcarried : k.carried = (m.couriers c).carried)
      (htelling : k.telling ≤ (m.couriers c).telling)
      (hserving : ∀ e ∈ (m.couriers c).serving, e ∈ k.serving ∨ m.queue e = [])
      (hsending : k.sending = (m.couriers c).sending) :
      Step c m { m with couriers := update m.couriers c k }
  | accept {k : Courier E} {left : Multiset ℕ} (e : E) (hcarried : k.carried = (m.couriers c).carried)
      (htelling : k.telling = (m.couriers c).telling)
      (hserving : (m.couriers c).serving ≤ k.serving) (hleft : m.left ≤ left)
      (hsending : k.sending = (m.couriers c).sending ∨
        k.sending = some m.next ∧ (m.next ∈ left ∨ m.queue e = [] ∧ e ∈ k.serving)) :
      Step c m { m with
        queue := update m.queue e (m.queue e ++ [m.next])
        couriers := update m.couriers c k
        next := m.next + 1
        left := left }
  | take {k : Courier E} {e : E} {id : ℕ} {rest : List ℕ} {handed : Multiset ℕ}
      (hqueue : m.queue e = id :: rest)
      (hwhere : k.carried = id ::ₘ (m.couriers c).carried ∧ handed = m.handed ∨
        k.carried = (m.couriers c).carried ∧ handed = id ::ₘ m.handed)
      (htelling : ∀ x ∈ k.telling, x = id ∨ x ∈ (m.couriers c).telling)
      (hserving : ∀ x ∈ (m.couriers c).serving, x = e ∨ x ∈ k.serving)
      (hsending : k.sending = (m.couriers c).sending) :
      Step c m { m with
        queue := update m.queue e rest
        couriers := update m.couriers c k
        handed := handed }
  | hand {k : Courier E} {id : ℕ} (hcarried : (m.couriers c).carried = id ::ₘ k.carried)
      (htelling : k.telling = (m.couriers c).telling)
      (hserving : k.serving = (m.couriers c).serving)
      (hsending : k.sending = (m.couriers c).sending) :
      Step c m { m with couriers := update m.couriers c k, handed := id ::ₘ m.handed }
  | complete {k : Courier E} {id : ℕ} (hcarried : k.carried = (m.couriers c).carried)
      (htelling : k.telling ≤ (m.couriers c).telling)
      (hdone : id ∈ (m.couriers c).telling ∨
        (m.couriers c).sending = some id ∧ (m.couriers c).serving = 0)
      (hsending : k.sending = none ∨
        k.sending = (m.couriers c).sending ∧ k.serving = (m.couriers c).serving) :
      Step c m { m with couriers := update m.couriers c k, completed := id ::ₘ m.completed }

end Step

def Gone (m : Post E C) (id : ℕ) : Prop := id < m.next ∧ ∀ e, id ∉ m.queue e

def Sent (m : Post E C) (id : ℕ) : Prop := id < m.next ∧ ((∀ e, id ∉ m.queue e) ∨ id ∈ m.left)

def places [Fintype E] [Fintype C] (m : Post E C) (id : ℕ) : ℕ :=
  ∑ e, (m.queue e).count id + ∑ c, (m.couriers c).carried.count id + m.handed.count id

/-- Every accepted message is in one place, and a sender is told only when its message has been
taken out or was left in the office on purpose. -/
structure Inv [Fintype E] [Fintype C] (m : Post E C) : Prop where
  placed : ∀ id, m.places id = if id < m.next then 1 else 0
  telling : ∀ c, ∀ id ∈ (m.couriers c).telling, m.Gone id
  sending : ∀ c id, (m.couriers c).sending = some id →
    m.Sent id ∨ ∃ e ∈ (m.couriers c).serving, (m.queue e).head? = some id
  completed : ∀ id ∈ m.completed, m.Sent id

variable {m m' : Post E C} {c : C} {e : E} {id : ℕ} {rest : List ℕ}

theorem Gone.sent (h : m.Gone id) : m.Sent id := ⟨h.1, .inl h.2⟩

section Steps

variable [DecidableEq E] [DecidableEq C]

theorem Gone.step (hgone : m.Gone id) (hs : Step c m m') : m'.Gone id := by
  obtain ⟨hlt, hout⟩ := hgone
  cases hs with
  | @accept k left e hcarried htelling hserving hleft hsending =>
    refine ⟨Nat.lt_succ_of_lt hlt, fun e' hmem ↦ ?_⟩
    simp only [update_apply] at hmem
    split at hmem
    · rcases List.mem_append.mp hmem with hmem | hmem
      · exact hout e hmem
      · have := List.mem_singleton.mp hmem
        omega
    · exact hout e' hmem
  | @take k e id' rest handed hqueue hwhere htelling hserving hsending =>
    refine ⟨hlt, fun e' hmem ↦ ?_⟩
    simp only [update_apply] at hmem
    split at hmem
    · exact hout e (by rw [hqueue]; exact List.mem_cons_of_mem _ hmem)
    · exact hout e' hmem
  | _ => exact ⟨hlt, hout⟩

theorem Sent.step (hsent : m.Sent id) (hs : Step c m m') : m'.Sent id := by
  obtain ⟨hlt, hout | hleft⟩ := hsent
  · exact Gone.sent (Gone.step ⟨hlt, hout⟩ hs)
  · cases hs with
    | accept e hcarried htelling hserving hle hsending =>
      exact ⟨Nat.lt_succ_of_lt hlt, .inr (Multiset.mem_of_le hle hleft)⟩
    | _ => exact ⟨hlt, .inr hleft⟩

theorem Step.other {d : C} (hs : Step c m m') (hd : d ≠ c) : m'.couriers d = m.couriers d := by
  cases hs <;> exact update_of_ne hd _ _

end Steps

variable [Fintype E] [Fintype C]

theorem Inv.front (h : m.Inv) (hqueue : m.queue e = id :: rest) :
    id < m.next ∧ id ∉ rest ∧ ∀ e', e' ≠ e → id ∉ m.queue e' := by
  have hplaced := h.placed id
  have hcount : (m.queue e).count id = rest.count id + 1 := by
    rw [hqueue, List.count_cons_self]
  have hle : (m.queue e).count id ≤ ∑ e, (m.queue e).count id :=
    Finset.single_le_sum (f := fun e ↦ (m.queue e).count id) (fun _ _ ↦ Nat.zero_le _)
      (Finset.mem_univ e)
  have hlt : id < m.next := by
    by_contra hnot
    simp only [places, if_neg hnot] at hplaced
    omega
  simp only [places, if_pos hlt] at hplaced
  refine ⟨hlt, ?_, ?_⟩
  · intro hmem
    have := List.count_pos_iff.mpr hmem
    omega
  · intro e' hne hmem
    have hpos := List.count_pos_iff.mpr hmem
    have hpair : (m.queue e').count id + (m.queue e).count id ≤ ∑ e, (m.queue e).count id :=
      Finset.add_le_sum (f := fun e ↦ (m.queue e).count id) (fun _ _ ↦ Nat.zero_le _)
        (Finset.mem_univ e') (Finset.mem_univ e) hne
    omega

theorem Inv.delivered (h : m.Inv) (hid : id ∈ m.completed) :
    m.handed.count id = 1 ∨
      m.handed.count id = 0 ∧ ((∃ c, id ∈ (m.couriers c).carried) ∨
        (∃ e, id ∈ m.queue e) ∧ id ∈ m.left) := by
  obtain ⟨hlt, hwhere⟩ := h.completed id hid
  have hplaced := h.placed id
  simp only [places, if_pos hlt] at hplaced
  by_cases hhanded : m.handed.count id = 1
  · exact .inl hhanded
  · refine .inr ⟨by omega, ?_⟩
    by_cases hcarried : ∑ c, (m.couriers c).carried.count id = 0
    · have hqueue : ∑ e, (m.queue e).count id ≠ 0 := by omega
      obtain ⟨e, -, he⟩ := Finset.exists_ne_zero_of_sum_ne_zero hqueue
      have hmem : id ∈ m.queue e := List.count_pos_iff.mp (Nat.pos_of_ne_zero he)
      rcases hwhere with hout | hleft
      · exact absurd hmem (hout e)
      · exact .inr ⟨⟨e, hmem⟩, hleft⟩
    · obtain ⟨c, -, hc⟩ := Finset.exists_ne_zero_of_sum_ne_zero hcarried
      exact .inl ⟨c, Multiset.count_pos.mp (Nat.pos_of_ne_zero hc)⟩

theorem Inv.handed_le (h : m.Inv) (id : ℕ) : m.handed.count id ≤ 1 := by
  have hplaced := h.placed id
  unfold places at hplaced
  split at hplaced <;> omega

variable [DecidableEq E]

theorem Inv.gone_of_take (h : m.Inv) (hqueue : m.queue e = id :: rest) (couriers : C → Courier E)
    (handed : Multiset ℕ) :
    Gone { m with queue := update m.queue e rest, couriers := couriers, handed := handed } id := by
  obtain ⟨hlt, hrest, hothers⟩ := h.front hqueue
  refine ⟨hlt, fun e' hmem ↦ ?_⟩
  simp only [update_apply] at hmem
  split at hmem
  · exact hrest hmem
  · rename_i hne
    exact hothers e' hne hmem

variable [DecidableEq C]

theorem Inv.head_step (h : m.Inv) (hhead : (m.queue e).head? = some id) (hs : Step c m m') :
    (m'.queue e).head? = some id ∨ m'.Gone id := by
  cases hs with
  | @accept k left e' hcarried htelling hserving hleft hsending =>
    apply Or.inl
    simp only [update_apply]
    split
    · next heq =>
      subst heq
      rw [List.head?_append, hhead, Option.some_or]
    · exact hhead
  | @take k e' id' rest handed hqueue hwhere htelling hserving hsending =>
    by_cases heq : e = e'
    · subst heq
      have hid : id' = id := by
        rw [hqueue] at hhead
        exact Option.some.inj hhead
      subst hid
      exact .inr (h.gone_of_take hqueue _ _)
    · apply Or.inl
      simp only [update_of_ne heq]
      exact hhead
  | _ => exact .inl hhead

section

variable (h : m.Inv) (hs : Step c m m')

include h hs

theorem Inv.placed_step (id : ℕ) : m'.places id = if id < m'.next then 1 else 0 := by
  have hplaced := h.placed id
  -- the queues and the couriers change in one place each
  have hcouriers : ∀ k : Courier E, ∑ d, (update m.couriers c k d).carried.count id +
      (m.couriers c).carried.count id = ∑ d, (m.couriers d).carried.count id + k.carried.count id :=
    sum_comp_update (fun k : Courier E ↦ k.carried.count id) m.couriers c
  have hqueues : ∀ (e : E) (l : List ℕ), ∑ e', (update m.queue e l e').count id +
      (m.queue e).count id = ∑ e', (m.queue e').count id + l.count id :=
    fun e l ↦ sum_comp_update (fun l : List ℕ ↦ l.count id) m.queue e l
  unfold places at hplaced ⊢
  cases hs with
  | @rest k hcarried htelling hserving hsending
  | @complete k id' hcarried htelling hdone hsending =>
    have hk := hcouriers k
    rw [hcarried] at hk
    simp only
    omega
  | @accept k left e hcarried htelling hserving hleft hsending =>
    have hk := hcouriers k
    have hq := hqueues e (m.queue e ++ [m.next])
    rw [hcarried] at hk
    rw [List.count_append, List.count_singleton] at hq
    simp only [beq_iff_eq] at hq ⊢
    split at hplaced <;> split at hq <;> split <;> omega
  | @take k e id' rest handed hqueue hwhere htelling hserving hsending =>
    have hk := hcouriers k
    have hq := hqueues e rest
    rw [hqueue, List.count_cons] at hq
    simp only [beq_iff_eq] at hq
    rcases hwhere with ⟨hcarried, hhanded⟩ | ⟨hcarried, hhanded⟩
    · rw [hcarried, Multiset.count_cons] at hk
      subst hhanded
      simp only
      split at hq <;> split at hk <;> omega
    · rw [hcarried] at hk
      subst hhanded
      rw [Multiset.count_cons]
      simp only
      split at hq <;> split <;> omega
  | @hand k id' hcarried htelling hserving hsending =>
    have hk := hcouriers k
    rw [hcarried, Multiset.count_cons] at hk
    rw [Multiset.count_cons]
    simp only
    omega

theorem Inv.sending_step {serving serving' : Multiset E}
    (hold : m.Sent id ∨ ∃ e ∈ serving, (m.queue e).head? = some id)
    (hserving : ∀ e ∈ serving, (m.queue e).head? = some id → e ∈ serving' ∨ m'.Gone id) :
    m'.Sent id ∨ ∃ e ∈ serving', (m'.queue e).head? = some id := by
  rcases hold with hsent | ⟨e, hmem, hhead⟩
  · exact .inl (hsent.step hs)
  · rcases hserving e hmem hhead with hmem' | hgone
    · rcases h.head_step hhead hs with hhead' | hgone
      · exact .inr ⟨e, hmem', hhead'⟩
      · exact .inl hgone.sent
    · exact .inl hgone.sent

theorem Inv.telling_step : ∀ id ∈ (m'.couriers c).telling, m'.Gone id := by
  intro id hid
  have hstay : id ∈ (m.couriers c).telling → m'.Gone id := fun hold ↦ (h.telling c id hold).step hs
  cases hs with
  | rest hcarried htelling hserving hsending | complete hcarried htelling hdone hsending =>
    simp only [update_self] at hid
    exact hstay (Multiset.mem_of_le htelling hid)
  | accept e hcarried htelling hserving hleft hsending | hand hcarried htelling hserving hsending =>
    simp only [update_self, htelling] at hid
    exact hstay hid
  | take hqueue hwhere htelling hserving hsending =>
    simp only [update_self] at hid
    rcases htelling id hid with heq | hold
    · subst heq
      exact h.gone_of_take hqueue _ _
    · exact hstay hold

theorem Inv.sending_self (hsending : (m'.couriers c).sending = some id) :
    m'.Sent id ∨ ∃ e ∈ (m'.couriers c).serving, (m'.queue e).head? = some id := by
  have hstep := hs
  cases hs with
  | @rest k hcarried htelling hserving hsame =>
    simp only [update_self] at hsending ⊢
    refine h.sending_step hstep (h.sending c id (hsame ▸ hsending)) fun e he hhead ↦ ?_
    rcases hserving e he with hmem | hempty
    · exact .inl hmem
    · rw [hempty] at hhead
      cases hhead
  | @accept k left e hcarried htelling hserving hleft hnew =>
    simp only [update_self] at hsending ⊢
    rcases hnew with hsame | ⟨hnext, hwhere⟩
    · exact h.sending_step hstep (h.sending c id (hsame ▸ hsending)) fun e he _ ↦
        .inl (Multiset.mem_of_le hserving he)
    · have hid : m.next = id := Option.some.inj (hnext.symm.trans hsending)
      subst hid
      rcases hwhere with hmem | ⟨hempty, hmem⟩
      · exact .inl ⟨Nat.lt_succ_self _, .inr hmem⟩
      · refine .inr ⟨e, hmem, ?_⟩
        simp only [update_self, hempty]
        rfl
  | @take k e id' rest handed hqueue hwhere htelling hserving hsame =>
    simp only [update_self] at hsending ⊢
    refine h.sending_step hstep (h.sending c id (hsame ▸ hsending)) fun e' he hhead ↦ ?_
    rcases hserving e' he with heq | hmem
    · subst heq
      have hid : id' = id := by
        rw [hqueue] at hhead
        exact Option.some.inj hhead
      subst hid
      exact .inr (h.gone_of_take hqueue _ _)
    · exact .inl hmem
  | @hand k id' hcarried htelling hserving hsame =>
    simp only [update_self] at hsending ⊢
    exact h.sending_step hstep (h.sending c id (hsame ▸ hsending)) fun e he _ ↦
      .inl (hserving ▸ he)
  | @complete k id' hcarried htelling hdone hsame =>
    simp only [update_self] at hsending ⊢
    rcases hsame with hnone | ⟨hsame, hserving⟩
    · rw [hnone] at hsending
      cases hsending
    · exact h.sending_step hstep (h.sending c id (hsame ▸ hsending)) fun e he _ ↦
        .inl (hserving ▸ he)

theorem Inv.step : m'.Inv := by
  refine ⟨h.placed_step hs, fun d id hid ↦ ?_, fun d id hid ↦ ?_, fun id hid ↦ ?_⟩
  · by_cases hd : d = c
    · subst hd
      exact h.telling_step hs id hid
    · rw [hs.other hd] at hid
      exact (h.telling d id hid).step hs
  · by_cases hd : d = c
    · subst hd
      exact h.sending_self hs hid
    · rw [hs.other hd] at hid ⊢
      exact h.sending_step hs (h.sending d id hid) fun e he _ ↦ .inl he
  · have hstay : id ∈ m.completed → m'.Sent id := fun hold ↦ (h.completed id hold).step hs
    have hstep := hs
    cases hs with
    | @complete k id' hcarried htelling hdone hsending =>
      rcases Multiset.mem_cons.mp hid with heq | hold
      · subst heq
        rcases hdone with htold | ⟨hsent, hserving⟩
        · exact ((h.telling c id htold).step hstep).sent
        · rcases h.sending c id hsent with hsent | ⟨e, he, -⟩
          · exact hsent.step hstep
          · rw [hserving] at he
            exact absurd he (Multiset.notMem_zero e)
      · exact hstay hold
    | _ => exact hstay hid

end

end Post

end Tarnos.Foundation.Mail
