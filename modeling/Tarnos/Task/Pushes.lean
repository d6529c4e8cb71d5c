import Tarnos.Task.Occupied

namespace Tarnos.Task.Inner

open Kcore Function

variable {E : Type} {s t u : Inner E} {p : Pid}
  {f : Arch.TrapFrame} {c : CoreId} {P : Process E} {q : Pid}

def pushes (s : Inner E) : ℕ := s.history.entered.length + s.history.refused.length

/-- Between `s` and `t` an empty ready queue stays empty unless something is pushed. -/
structure Quiet (s t : Inner E) : Prop where
  le : s.pushes ≤ t.pushes
  empty : t.pushes = s.pushes → s.queue = [] → t.queue = []

/-- Between `s` and `t` pids may join the ready queue at its back, and nothing else happens to it. -/
structure Appends (s t : Inner E) : Prop where
  queue : ∃ joined, t.queue = s.queue ++ joined ∧ (t.pushes = s.pushes → joined = [])
  popped : t.history.popped = s.history.popped
  pushes : s.pushes ≤ t.pushes

theorem Appends.of_eq (hhistory : t.history = s.history) (hqueue : t.queue = s.queue) :
    Appends s t := by
  have hpushes : t.pushes = s.pushes := by
    unfold Inner.pushes
    rw [hhistory]
  exact ⟨⟨[], by rw [hqueue, List.append_nil], fun _ ↦ rfl⟩, by rw [hhistory], hpushes.ge⟩

theorem Appends.refl (s : Inner E) : Appends s s := .of_eq rfl rfl

theorem Appends.trans (h₁ : Appends s t) (h₂ : Appends t u) : Appends s u := by
  obtain ⟨joined₁, hqueue₁, hnone₁⟩ := h₁.queue
  obtain ⟨joined₂, hqueue₂, hnone₂⟩ := h₂.queue
  have hle₁ := h₁.pushes
  have hle₂ := h₂.pushes
  refine ⟨⟨joined₁ ++ joined₂, by rw [hqueue₂, hqueue₁, List.append_assoc], fun heq ↦ ?_⟩,
    h₂.popped.trans h₁.popped, hle₁.trans hle₂⟩
  rw [hnone₁ (by omega), hnone₂ (by omega)]
  rfl

theorem Appends.quiet (h : Appends s t) : Quiet s t := by
  obtain ⟨joined, hqueue, hnone⟩ := h.queue
  refine ⟨h.pushes, fun heq hempty ↦ ?_⟩
  rw [hqueue, hempty, hnone heq]
  rfl

section

variable (s : Inner E)

theorem pushes_push (p : Pid) : (s.push p).pushes = s.pushes + 1 := by
  unfold pushes push
  dsimp only
  split
  · dsimp only
    rw [List.length_append, List.length_singleton]
    omega
  · dsimp only
    rw [List.length_append, List.length_singleton]
    omega

theorem popped_push (p : Pid) : (s.push p).history.popped = s.history.popped := by
  unfold push
  dsimp only
  split <;> rfl

theorem appends_push (p : Pid) : Appends s (s.push p) := by
  have hpushes := pushes_push s p
  refine ⟨?_, popped_push s p, by omega⟩
  by_cases hroom : s.queue.length < maxProcesses
  · exact ⟨[p], queue_push hroom p, fun heq ↦ by omega⟩
  · have hfull : s.ready.toList.length = maxProcesses :=
      le_antisymm s.ready.length_le (Nat.le_of_not_lt hroom)
    have hqueue : (s.push p).queue = s.queue := by
      unfold queue push
      rw [s.ready.push_full p hfull]
    exact ⟨[], by rw [hqueue, List.append_nil], fun _ ↦ rfl⟩

theorem appends_setSlot (i : Fin maxProcesses) (slot : Slot E) :
    Appends s (s.setSlot i slot) := .of_eq rfl rfl

theorem appends_setCurrent (c : CoreId) (q : Option Pid) :
    Appends s (s.setCurrent c q) := .of_eq rfl rfl

theorem appends_setProcess (p : Pid) (P : Process E) : Appends s (s.setProcess p P) := by
  unfold setProcess
  split
  · exact .refl s
  · exact appends_setSlot s _ _

theorem appends_allocatePid (busy : Fin maxProcesses → Bool) :
    Appends s (s.allocatePid busy).2 := by
  unfold allocatePid
  split
  · exact .refl s
  · exact .of_eq rfl rfl

theorem appends_releaseReservation (pid : Pid) : Appends s (s.releaseReservation pid) := by
  unfold releaseReservation
  split
  · exact .refl s
  · split
    · exact .refl s
    · split
      · exact appends_setSlot s _ _
      · exact .refl s

end

theorem appends_spawn (h : s.spawn P = .ok t) : Appends s t := by
  unfold spawn at h
  split at h
  · cases h
  · cases h
    exact (appends_setSlot s _ _).trans (appends_push _ _)

theorem appends_spawnSuspended (h : s.spawnSuspended P = .ok t) : Appends s t := by
  unfold spawnSuspended at h
  split at h
  · cases h
  · cases h
    exact appends_setSlot s _ _

theorem appends_startChild {target caller : Pid} (h : s.startChild target caller = .ok t) :
    Appends s t := by
  unfold startChild at h
  split at h
  · cases h
  · split at h
    · cases h
    · cases h
      exact (appends_setProcess s _ _).trans (appends_push _ _)

theorem queue_switchTo (h : s.switchTo c p = .ok (P, t)) :
    t.history = s.history ∧ t.queue = s.queue ∧ t.current c = some p := by
  obtain ⟨P₀, hP₀, -, -, -, rfl⟩ := switchTo_ok h
  obtain ⟨-, hcurrent, -, hhistory⟩ :=
    setProcess_fields (s := s.setCurrent c (some p)) hP₀ P
  refine ⟨hhistory, queue_setProcess _ _ _, ?_⟩
  rw [hcurrent]
  exact update_self ..

theorem appends_wakeBlockedProcessLocked (s : Inner E) (pid : Pid) (result : WakeResult) :
    Appends s (s.wakeBlockedProcessLocked pid result) := by
  unfold wakeBlockedProcessLocked
  split
  · exact .refl s
  · split
    · exact appends_setProcess s _ _
    · exact (appends_setProcess s _ _).trans (appends_push _ _)

theorem appends_waitForChild (s : Inner E) (target caller : Pid) :
    Appends s (s.waitForChild target caller) := by
  unfold waitForChild
  split
  · exact appends_setSlot s _ _
  · split
    · exact appends_setSlot s _ _
    · exact .refl s
  · exact .refl s

theorem appends_preemptCurrent (h : s.preemptCurrent c f = .ok t) : Appends s t := by
  unfold preemptCurrent at h
  split at h
  · cases h
    exact .refl s
  · split at h
    · cases h
    · split at h
      · cases h
        exact (appends_setSlot s _ _).trans (appends_push _ _)
      · cases h
        exact .refl s

theorem appends_blockCurrentProcessLocked
    (h : s.blockCurrentProcessLocked c f = .ok t) : Appends s t := by
  unfold blockCurrentProcessLocked at h
  split at h
  · cases h
    exact .refl s
  · split at h
    · cases h
    · split at h
      · dsimp only at h
        split at h
        · cases h
          exact .of_eq rfl rfl
        · cases h
          exact ((appends_setSlot s _ _).trans (appends_push _ _)).trans (appends_setCurrent _ _ _)
      · cases h
        exact appends_setCurrent s _ _

/-- Between `s` and `t` the front of the queue, with what joined it, is taken: it is `q`. -/
structure Pops (s : Inner E) (q : Pid) (t : Inner E) : Prop where
  queue : ∃ joined, s.queue ++ joined = q :: t.queue ∧ (t.pushes = s.pushes → joined = [])
  popped : t.history.popped = s.history.popped ++ [q]
  pushes : s.pushes ≤ t.pushes

theorem Appends.pops (h : Appends s t) (hpop : t.pop = (some q, u)) : Pops s q u := by
  obtain ⟨joined, hqueue, hnone⟩ := h.queue
  obtain ⟨rest, hfront, rfl⟩ := pop_some hpop
  obtain ⟨-, hrest, hhistory⟩ := pop_cons hfront
  have hpushes : t.pop.2.pushes = t.pushes := rfl
  refine ⟨⟨joined, by rw [← hqueue, hfront, hrest], fun heq ↦ hnone (hpushes.symm.trans heq)⟩, ?_,
    h.pushes⟩
  rw [hhistory, h.popped]

theorem Appends.pop_none (h : Appends s t) (hpop : t.pop = (none, u)) : Appends s u := by
  obtain ⟨hempty, rfl⟩ := Inner.pop_none hpop
  obtain ⟨-, hqueue, hhistory⟩ := pop_nil hempty
  exact h.trans (.of_eq hhistory (hqueue.trans hempty.symm))

theorem Pops.of_eq (h : Pops s q t) (hhistory : u.history = t.history)
    (hqueue : u.queue = t.queue) : Pops s q u := by
  obtain ⟨joined, hjoined, hnone⟩ := h.queue
  have hpushes : u.pushes = t.pushes := by
    unfold Inner.pushes
    rw [hhistory]
  exact ⟨⟨joined, by rw [hjoined, hqueue], fun heq ↦ hnone (hpushes.symm.trans heq)⟩,
    by rw [hhistory, h.popped], hpushes ▸ h.pushes⟩

theorem Pops.quiet (h : Pops s q t) : Quiet s t := by
  obtain ⟨joined, hqueue, hnone⟩ := h.queue
  refine ⟨h.pushes, fun heq hempty ↦ ?_⟩
  rw [hempty, hnone heq] at hqueue
  cases hqueue

theorem queue_tick (h : s.preemptCurrent c f = .ok t)
    (hempty : s.queue = []) : t.pop.2.queue = [] := by
  unfold preemptCurrent at h
  split at h
  · cases h
    exact (pop_nil hempty).2.1
  · split at h
    · cases h
    · split at h
      · rename_i pid _ _ i _ _ P _
        cases h
        have hslot : (s.setSlot i (.occupied { P with trapFrame := f, state := .ready })).queue =
            [] := hempty
        have hpush := queue_push (p := pid) (s := s.setSlot i _) (by rw [hslot]; decide)
        rw [hslot, List.nil_append] at hpush
        exact (pop_cons hpush).2.1
      · cases h
        exact (pop_nil hempty).2.1

section Finalize

/-- Between `s` and `t` processes may be taken from the table and the queue and others join it. A
pid whose slot is still taken keeps its place or moves up. -/
structure Culls (s t : Inner E) : Prop where
  popped : t.history.popped = s.history.popped
  quiet : Quiet s t
  occupied : ∀ i, t.occupied i = true → s.occupied i = true
  place : ∀ p i, p.slot = some i → t.occupied i = true → p ∈ s.queue →
    p ∈ t.queue ∧ t.queue.idxOf p ≤ s.queue.idxOf p

theorem Appends.culls (h : Appends s t) (hoccupied : t.occupied = s.occupied) : Culls s t := by
  obtain ⟨joined, hqueue, -⟩ := h.queue
  refine ⟨h.popped, h.quiet, fun i hi ↦ hoccupied ▸ hi, fun p i _ _ hp ↦ ?_⟩
  rw [hqueue, List.idxOf_append_of_mem hp]
  exact ⟨List.mem_append_left _ hp, le_rfl⟩

theorem Culls.refl (s : Inner E) : Culls s s := (Appends.refl s).culls rfl

theorem Quiet.trans (h₁ : Quiet s t) (h₂ : Quiet t u) : Quiet s u := by
  refine ⟨h₁.le.trans h₂.le, fun heq hempty ↦ ?_⟩
  have hle₁ := h₁.le
  have hle₂ := h₂.le
  have hfirst := h₁.empty (by omega) hempty
  exact h₂.empty (by omega) hfirst

theorem Culls.trans (h₁ : Culls s t) (h₂ : Culls t u) : Culls s u := by
  refine ⟨h₂.popped.trans h₁.popped, h₁.quiet.trans h₂.quiet,
    fun i hi ↦ h₁.occupied i (h₂.occupied i hi), fun p i hslot hi hp ↦ ?_⟩
  obtain ⟨hmem, hplace⟩ := h₁.place p i hslot (h₂.occupied i hi) hp
  obtain ⟨hmem', hplace'⟩ := h₂.place p i hslot hi hmem
  exact ⟨hmem', hplace'.trans hplace⟩

theorem idxOf_filter_le {p : Pid} {keep : Pid → Bool} (hkeep : keep p = true) (l : List Pid) :
    (l.filter keep).idxOf p ≤ l.idxOf p := by
  induction l with
  | nil => exact le_rfl
  | cons q l ih =>
    by_cases hq : q = p
    · subst hq
      rw [List.filter_cons_of_pos hkeep, List.idxOf_cons_self]
      exact Nat.zero_le _
    · rw [List.idxOf_cons_ne _ hq]
      by_cases hkept : keep q = true
      · rw [List.filter_cons_of_pos hkept, List.idxOf_cons_ne _ hq]
        exact Nat.succ_le_succ ih
      · rw [List.filter_cons_of_neg hkept]
        exact ih.trans (Nat.le_succ _)

theorem culls_taken (s : Inner E) {pid : Pid} {i : Fin maxProcesses} (hslot : pid.slot = some i) :
    Culls s (((s.setSlot i .empty).removeFromReadyQueue pid).clearCurrent pid) := by
  generalize htaken : ((s.setSlot i .empty).removeFromReadyQueue pid).clearCurrent pid = taken
  have hqueue : taken.queue = s.queue.filter fun q ↦ q ≠ pid := by
    subst htaken
    exact queue_removeFromReadyQueue (s.setSlot i .empty) pid
  have hhistory : taken.history = s.history := by
    subst htaken
    rfl
  have hoccupied : taken.occupied = update s.occupied i false := by
    subst htaken
    exact occupied_setSlot s i .empty
  refine ⟨by rw [hhistory], ⟨by unfold pushes; rw [hhistory], fun _ hempty ↦ ?_⟩, fun j hj ↦ ?_,
    fun p j hp hj hmem ↦ ?_⟩
  · rw [hqueue, hempty]
    rfl
  · rw [hoccupied] at hj
    by_cases hji : j = i
    · subst hji
      rw [update_self] at hj
      cases hj
    · rwa [update_of_ne hji] at hj
  · -- the slot of `pid` is empty now, so `p` is another pid
    have hne : p ≠ pid := by
      rintro rfl
      rw [hslot] at hp
      cases hp
      rw [hoccupied, update_self] at hj
      cases hj
    rw [hqueue]
    exact ⟨List.mem_filter.mpr ⟨hmem, decide_eq_true hne⟩, idxOf_filter_le (decide_eq_true hne) _⟩

theorem appends_notifyParent (s : Inner E) (i : Fin maxProcesses) (P : Process E)
    (status : Abi.ExitStatus) : Appends s (s.notifyParent i P status) := by
  unfold notifyParent
  split
  · exact appends_wakeBlockedProcessLocked s _ _
  · split
    · exact appends_setSlot s _ _
    · exact .refl s

variable {take : Pid → Abi.ExitStatus → Finalizing E → Finalizing E}

theorem culls_reapSlot (htake : ∀ pid status acc, Culls acc.1 (take pid status acc).1)
    (exiting : Pid) (acc : Finalizing E) (i : Fin maxProcesses) :
    Culls acc.1 (reapSlot take exiting acc i).1 := by
  unfold reapSlot
  split
  · rename_i C hC
    split
    · split
      · exact htake _ _ _
      · exact (appends_setSlot _ _ _).culls (occupied_setSlot_same _ (by rw [hC]; rfl))
    · exact .refl _
  · rename_i hzombie
    split
    · exact (appends_setSlot _ _ _).culls (occupied_setSlot_same _ (by rw [hzombie]; rfl))
    · exact .refl _
  · exact .refl _

theorem culls_reapChildrenOf (htake : ∀ pid status acc, Culls acc.1 (take pid status acc).1)
    (exiting : Pid) (acc : Finalizing E) : Culls acc.1 (reapChildrenOf take exiting acc).1 := by
  unfold reapChildrenOf
  induction List.finRange maxProcesses generalizing acc with
  | nil => exact .refl _
  | cons i slots ih => exact (culls_reapSlot htake exiting acc i).trans (ih _)

theorem culls_takeAndFinalizeSlot (fuel : ℕ) (pid : Pid) (status : Abi.ExitStatus)
    (acc : Finalizing E) : Culls acc.1 (takeAndFinalizeSlot fuel pid status acc).1 := by
  induction fuel generalizing pid status acc with
  | zero => exact .refl _
  | succ fuel ih =>
    unfold takeAndFinalizeSlot
    split
    · exact .refl _
    · rename_i i hslot
      split
      · rename_i P hP
        have htaken := culls_taken acc.1 hslot
        have hempty : (((acc.1.setSlot i .empty).removeFromReadyQueue pid).clearCurrent pid).processes
            i = .empty := update_self ..
        have hnotified := htaken.trans ((appends_notifyParent _ i P status).culls
          (occupied_notifyParent hempty P status))
        exact hnotified.trans (culls_reapChildrenOf ih pid (_, acc.2))
      · exact .refl _

theorem culls_finalize (s : Inner E) (pid : Pid) (status : Abi.ExitStatus) :
    Culls s (s.finalize pid status).1 :=
  culls_takeAndFinalizeSlot finalizeFuel pid status (s, [])

end Finalize

end Tarnos.Task.Inner
