import Tarnos.Task.Operations

namespace Tarnos.Task.Inner

open Abi Arch Kcore Function Table

variable {E : Type} {s : Inner E} {p q : Pid} {i : Fin maxProcesses}
  {P : Process E} {fuel : ℕ} {t : Inner E}

theorem table_wake (result : WakeResult)
    (hroom : ∀ P, s.view p = .occupied P → P.state = .blocked → s.queue.length < maxProcesses) :
    (s.wakeBlockedProcessLocked p result).table = s.table.wake p result ∧
      (s.Honest → (s.wakeBlockedProcessLocked p result).Honest) := by
  rcases s.wakeBlockedProcessLocked_cases p result with
    ⟨hnone, heq⟩ | ⟨P, hview, hstate, heq⟩ | ⟨P, hview, hstate, heq⟩
  · rw [heq]
    refine ⟨?_, id⟩
    cases hslot : s.view p with
    | occupied P => exact absurd hslot (hnone P)
    | _ => simp [wake, hslot]
  · rw [heq, table_setProcess hview]
    refine ⟨by simp [wake, hview, hstate], fun hhonest ↦ ?_⟩
    exact hhonest.congr (s.queue_setProcess p _) (setProcess_fields hview _).2.2.2
  · rw [heq]
    obtain ⟨htable, hhonest⟩ :=
      table_setProcess_push hview (applyWakeResult P result) (hroom P hview hstate)
    refine ⟨?_, hhonest⟩
    rw [htable]
    simp [wake, hview, hstate]

/-- No slot names `exiting` as the parent of a process or of a zombie. -/
def Childless (s : Inner E) (exiting : Pid) : Prop :=
  ∀ j, (∀ C, s.processes j = .occupied C → C.parent ≠ some exiting) ∧
    ∀ status, s.processes j ≠ .zombie exiting status

theorem reapSlot_childless (take : Pid → ExitStatus → Finalizing E → Finalizing E)
    {acc : Finalizing E} (h : acc.1.Childless p) (j : Fin maxProcesses) :
    reapSlot take p acc j = acc := by
  obtain ⟨hocc, hzombie⟩ := h j
  unfold reapSlot
  cases hslot : acc.1.processes j with
  | occupied C => simp [hocc C hslot]
  | zombie parent status =>
    have hne : parent ≠ p := by
      rintro rfl
      exact hzombie status hslot
    simp [hne]
  | _ => rfl

theorem reapChildrenOf_childless (take : Pid → ExitStatus → Finalizing E → Finalizing E)
    (acc : Finalizing E) (h : acc.1.Childless p) : reapChildrenOf take p acc = acc := by
  unfold reapChildrenOf
  generalize List.finRange maxProcesses = indices
  induction indices with
  | nil => rfl
  | cons j rest ih => rw [List.foldl_cons, reapSlot_childless take h j, ih]

/-- What a termination of `p` relies on about the suspended children it takes with it: they
are in no queue, on no core, have no children, and only `p` may wait for them. -/
structure OrphanReady (s : Inner E) (p : Pid) (j : Fin maxProcesses) (C : Process E) : Prop where
  queue : s.pidAt j ∉ s.queue
  current : ∀ c, s.current c ≠ some (s.pidAt j)
  childless : s.Childless (s.pidAt j)
  waiter : ∀ w, C.waitWaiter = some w → w = p

/-- The state of the loop of `reap_children_of`: `p` is gone and its suspended children are
ready to be taken. -/
structure Reaping (s : Inner E) (p : Pid) : Prop where
  gone : ∀ P, s.view p ≠ .occupied P
  orphans : ∀ j C, s.processes j = .occupied C → C.parent = some p → C.state = .suspended →
    s.OrphanReady p j C

/-- Two states that differ at most in the processes of their slots and in how the ready
queue lies in its buffer. -/
structure SameFrame (s t : Inner E) : Prop where
  generations : t.generations = s.generations
  queue : t.queue = s.queue
  current : t.current = s.current
  history : t.history = s.history

theorem SameFrame.trans {s t u : Inner E} (h₁ : SameFrame s t) (h₂ : SameFrame t u) :
    SameFrame s u where
  generations := h₂.generations.trans h₁.generations
  queue := h₂.queue.trans h₁.queue
  current := h₂.current.trans h₁.current
  history := h₂.history.trans h₁.history

theorem SameFrame.pidAt {s t : Inner E} (h : SameFrame s t) : t.pidAt = s.pidAt := by
  funext j
  simp only [Inner.pidAt, h.generations]

theorem take_orphan {j : Fin maxProcesses} {C : Process E} {drops : List (Process E)}
    (hs : s.Reaping p) (hslot : s.processes j = .occupied C) (hparent : C.parent = some p)
    (hstate : C.state = .suspended) :
    ∃ t, takeAndFinalizeSlot (fuel + 1) (s.pidAt j) .killed (s, drops) = (t, drops ++ [C]) ∧
      SameFrame s t ∧
      t.processes = update s.processes j (reapedSlot p (.occupied C)) := by
  obtain ⟨hqueue, hcurrent, hchildless, hwaiter⟩ := hs.orphans j C hslot hparent hstate
  have hne : p ≠ s.pidAt j := by
    rintro rfl
    exact hs.gone C (by rw [view_pidAt, hslot])
  let taken := ((s.setSlot j .empty).removeFromReadyQueue (s.pidAt j)).clearCurrent (s.pidAt j)
  have hframe : SameFrame s taken := by
    refine ⟨rfl, ?_, ?_, rfl⟩
    · change ((s.setSlot j .empty).removeFromReadyQueue (s.pidAt j)).queue = s.queue
      rw [queue_removeFromReadyQueue, queue_setSlot, List.filter_eq_self]
      intro r hr
      have hr' : r ≠ s.pidAt j := fun h ↦ hqueue (h ▸ hr)
      simpa using hr'
    · funext c
      exact if_neg (hcurrent c)
  have htaken : taken.processes = update s.processes j .empty := rfl
  have hnotify : ∃ t, taken.notifyParent j C .killed = t ∧ SameFrame s t ∧
      t.processes = update s.processes j (reapedSlot p (.occupied C)) := by
    cases hwait : C.waitWaiter with
    | some w =>
      have hw : w = p := hwaiter w hwait
      subst hw
      have hgone : taken.occupiedMut w = none := by
        rw [occupiedMut_eq_none]
        intro P hP
        have hview : taken.view w = if w = s.pidAt j then .empty else s.view w :=
          s.view_setSlot j .empty w
        rw [hview, if_neg hne] at hP
        exact hs.gone P hP
      refine ⟨taken, by simp [notifyParent, hwait, wakeBlockedProcessLocked, hgone], hframe, ?_⟩
      simp [htaken, reapedSlot, hparent, hstate, hwait]
    | none =>
      refine ⟨taken.setSlot j (.zombie p .killed), by simp [notifyParent, hwait, hparent], ?_, ?_⟩
      · exact ⟨hframe.generations, hframe.queue, hframe.current, hframe.history⟩
      · simp [setSlot, htaken, reapedSlot, hparent, hstate, hwait]
  obtain ⟨t, hnotify, hsame, hprocs⟩ := hnotify
  refine ⟨t, ?_, hsame, hprocs⟩
  have hnochild : t.Childless (s.pidAt j) := by
    intro k
    rw [hprocs]
    by_cases hkj : k = j
    · subst hkj
      rw [update_self]
      simp only [reapedSlot, hparent, hstate, if_true]
      refine ⟨fun C' h ↦ ?_, fun status h ↦ ?_⟩
      · split at h <;> cases h
      · split at h
        · cases h
        · exact hne (Slot.zombie.inj h).1
    · rw [update_of_ne hkj]
      exact hchildless k
  have hreap := reapChildrenOf_childless (takeAndFinalizeSlot fuel) (t, drops) hnochild
  simp only [takeAndFinalizeSlot, pidAt_slot, hslot]
  change ((reapChildrenOf _ _ (taken.notifyParent j C .killed, drops)).1,
    (reapChildrenOf _ _ (taken.notifyParent j C .killed, drops)).2 ++ [C]) = _
  rw [hnotify, hreap]

def orphanBox (exiting : Pid) : Slot E → List (Process E)
  | .occupied C => if C.parent = some exiting ∧ C.state = .suspended then [C] else []
  | _ => []

theorem reapSlot_spec {acc : Finalizing E} (hs : acc.1.Reaping p) (j : Fin maxProcesses) :
    ∃ t, reapSlot (takeAndFinalizeSlot (fuel + 1)) p acc j =
        (t, acc.2 ++ orphanBox p (acc.1.processes j)) ∧ SameFrame acc.1 t ∧
      t.processes = update acc.1.processes j (reapedSlot p (acc.1.processes j)) := by
  obtain ⟨s, drops⟩ := acc
  have hsame : SameFrame s s := ⟨rfl, rfl, rfl, rfl⟩
  unfold reapSlot
  cases hslot : s.processes j with
  | occupied C =>
    by_cases hparent : C.parent = some p
    · by_cases hstate : C.state = .suspended
      · obtain ⟨t, htake, hframe, hprocs⟩ :=
          take_orphan hs hslot hparent hstate
        refine ⟨t, ?_, hframe, hprocs⟩
        simp only [hparent, hstate, if_true, orphanBox, and_self]
        exact htake
      · refine ⟨s.setSlot j (.occupied { C with parent := none }), ?_, ⟨rfl, rfl, rfl, rfl⟩, ?_⟩
        · simp [hparent, hstate, orphanBox]
        · simp [setSlot, reapedSlot, hparent, hstate]
    · refine ⟨s, ?_, hsame, ?_⟩
      · simp [hparent, orphanBox]
      · simp [reapedSlot, hparent, ← hslot]
  | zombie parent status =>
    by_cases hparent : parent = p
    · refine ⟨s.setSlot j .empty, ?_, ⟨rfl, rfl, rfl, rfl⟩, ?_⟩
      · simp [hparent, orphanBox]
      · simp [setSlot, reapedSlot, hparent]
    · refine ⟨s, ?_, hsame, ?_⟩
      · simp [hparent, orphanBox]
      · simp [reapedSlot, hparent, ← hslot]
  | empty | reserved => exact ⟨s, by simp [orphanBox], hsame, by simp [reapedSlot, ← hslot]⟩

theorem Reaping.update {j : Fin maxProcesses} (hs : s.Reaping p) (hframe : SameFrame s t)
    (hprocs : t.processes = update s.processes j (reapedSlot p (s.processes j))) : t.Reaping p := by
  have hpid := hframe.pidAt
  have hocc : ∀ k C', t.processes k = .occupied C' → ∃ C, s.processes k = .occupied C ∧
      (C' = C ∨ C'.parent = none) ∧ (k = j → C'.parent ≠ some p) := by
    intro k C' hk
    rw [hprocs] at hk
    by_cases hkj : k = j
    · subst hkj
      rw [update_self] at hk
      obtain ⟨C, hC, hne, hcase⟩ := reapedSlot_occupied hk
      refine ⟨C, hC, ?_, fun _ ↦ hne⟩
      rcases hcase with rfl | ⟨rfl, -, -⟩
      · exact .inl rfl
      · exact .inr rfl
    · rw [update_of_ne hkj] at hk
      exact ⟨C', hk, .inl rfl, fun h ↦ absurd h hkj⟩
  constructor
  · intro P hP
    obtain ⟨k, -, rfl, hk⟩ := slot_of_eq hP (by simp)
    obtain ⟨C, hC, -⟩ := hocc k P hk
    exact hs.gone C (by rw [hpid, view_pidAt, hC])
  · intro k C' hk hparent hstate
    obtain ⟨C, hC, hcase, hself⟩ := hocc k C' hk
    rcases hcase with rfl | hnone
    · obtain ⟨hqueue, hcurrent, hchildless, hwaiter⟩ := hs.orphans k C' hC hparent hstate
      have hne : p ≠ s.pidAt k := by
        rintro rfl
        exact hs.gone C' (by rw [view_pidAt, hC])
      refine ⟨?_, ?_, ?_, hwaiter⟩
      · rw [hpid, hframe.queue]
        exact hqueue
      · rw [hpid, hframe.current]
        exact hcurrent
      · intro l
        rw [hpid]
        refine ⟨fun D' hD' hpar ↦ ?_, fun status hz ↦ ?_⟩
        · obtain ⟨D, hD, hcase', -⟩ := hocc l D' hD'
          rcases hcase' with rfl | hnone'
          · exact (hchildless l).1 D' hD hpar
          · rw [hnone'] at hpar
            cases hpar
        · rw [hprocs] at hz
          by_cases hlj : l = j
          · subst hlj
            rw [update_self] at hz
            rcases reapedSlot_zombie hz with ⟨hold, -⟩ | ⟨hself', -⟩
            · exact (hchildless l).2 status hold
            · exact hne hself'.symm
          · rw [update_of_ne hlj] at hz
            exact (hchildless l).2 status hz
    · rw [hnone] at hparent
      cases hparent

/-- The loop of `reap_children_of` over distinct slots treats each slot on its own. -/
theorem foldl_reapSlot (indices : List (Fin maxProcesses)) (hnodup : indices.Nodup)
    (acc : Finalizing E) (hs : acc.1.Reaping p) :
    ∃ t, indices.foldl (reapSlot (takeAndFinalizeSlot (fuel + 1)) p) acc =
        (t, acc.2 ++ indices.flatMap fun j ↦ orphanBox p (acc.1.processes j)) ∧
      SameFrame acc.1 t ∧
      ∀ j, t.processes j =
        if j ∈ indices then reapedSlot p (acc.1.processes j) else acc.1.processes j := by
  induction indices generalizing acc with
  | nil => exact ⟨acc.1, by simp, ⟨rfl, rfl, rfl, rfl⟩, by simp⟩
  | cons k rest ih =>
    obtain ⟨hk, hrest⟩ := List.nodup_cons.mp hnodup
    obtain ⟨t, hstep, hframe, hprocs⟩ := reapSlot_spec hs k
    obtain ⟨u, hfold, hframe', hprocs'⟩ :=
      ih hrest (t, acc.2 ++ orphanBox p (acc.1.processes k)) (hs.update hframe hprocs)
    refine ⟨u, ?_, hframe.trans hframe', fun j ↦ ?_⟩
    · rw [List.foldl_cons, hstep, hfold, List.flatMap_cons, List.append_assoc]
      have hsame : (rest.flatMap fun j ↦ orphanBox p (t.processes j)) =
          rest.flatMap fun j ↦ orphanBox p (acc.1.processes j) := by
        refine List.flatMap_congr fun j hj ↦ ?_
        have hjk : j ≠ k := fun h ↦ hk (h ▸ hj)
        rw [hprocs, update_of_ne hjk]
      rw [hsame]
    · rw [hprocs' j]
      simp only [hprocs]
      by_cases hjk : j = k
      · subst hjk
        simp [hk]
      · simp [hjk]

/-- What the termination of `p` relies on: the process is there, only a blocked parent waits
for it, and its suspended children can be taken. -/
structure Finalizable (s : Inner E) (p : Pid) (P : Process E) : Prop where
  view : s.view p = .occupied P
  parent : P.parent ≠ some p
  waiter : ∀ w, P.waitWaiter = some w → w ≠ p ∧
    ∀ W, s.view w = .occupied W → W.state = .blocked ∧ s.queue.length < maxProcesses
  orphans : ∀ j C, s.processes j = .occupied C → C.parent = some p → C.state = .suspended →
    s.OrphanReady p j C

/-- The boxes of the suspended children a termination of `p` takes along. -/
def orphanBoxes (s : Inner E) (p : Pid) : List (Process E) :=
  (List.finRange maxProcesses).flatMap fun j ↦ orphanBox p (s.processes j)

theorem reapChildrenOf_spec (acc : Finalizing E) (hs : acc.1.Reaping p) :
    ∃ t, reapChildrenOf (takeAndFinalizeSlot (fuel + 1)) p acc =
        (t, acc.2 ++ acc.1.orphanBoxes p) ∧
      t.table = acc.1.table.reap p ∧ (acc.1.Honest → t.Honest) := by
  obtain ⟨t, hfold, hframe, hprocs⟩ :=
    foldl_reapSlot (List.finRange maxProcesses) (List.nodup_finRange _) acc hs
  refine ⟨t, hfold, ?_, fun hhonest ↦ hhonest.congr hframe.queue hframe.history⟩
  have hpid := hframe.pidAt
  refine Table.ext (funext fun q ↦ ?_) hframe.queue hframe.current ?_
  · change t.view q = Table.reapedSlot p (acc.1.view q)
    rcases acc.1.view_cases q with ⟨j, rfl⟩ | ⟨hempty, hne⟩
    · rw [view_pidAt, ← hpid, view_pidAt, hprocs]
      simp
    · rw [hempty]
      rcases t.view_cases q with ⟨j, hj⟩ | ⟨hempty', -⟩
      · exact absurd (hj.trans (congrFun hpid j)) (hne j)
      · rw [hempty']
        rfl
  · change t.issued = acc.1.issued
    unfold issued
    rw [hframe.generations]

/-- What the steps before the loop may have changed: `p` is gone, and no record that matters to
the loop is different. -/
structure BeforeReaping (s t : Inner E) (p : Pid) (P : Process E) : Prop where
  generations : t.generations = s.generations
  occupied : ∀ q C, t.view q = .occupied C → q ≠ p ∧ ∃ C₀, s.view q = .occupied C₀ ∧
    C.parent = C₀.parent ∧ (C.state = .suspended → C = C₀)
  suspended : ∀ q C, q ≠ p → s.view q = .occupied C → C.state = .suspended → t.view q = .occupied C
  zombie : ∀ q r status, t.view q = .zombie r status →
    s.view q = .zombie r status ∨ P.parent = some r
  queue : ∀ q, q ∈ t.queue → q ∈ s.queue ∨ ∃ W, s.view q = .occupied W ∧ W.state ≠ .suspended
  current : ∀ c q, t.current c = some q → s.current c = some q

theorem BeforeReaping.pidAt (h : BeforeReaping s t p P) : t.pidAt = s.pidAt := by
  funext j
  simp only [Inner.pidAt, h.generations]

theorem BeforeReaping.of_remove {slot : Slot E} (hgen : t.generations = s.generations)
    (htable : t.table = s.table.remove p slot) (hslot : ∀ C, slot ≠ .occupied C)
    (hzombie : ∀ r status, slot = .zombie r status → P.parent = some r) :
    BeforeReaping s t p P := by
  have hview : ∀ q, t.view q = if q = p then slot else s.view q := by
    intro q
    rw [← table_view, htable, remove_view, table_view]
  refine ⟨hgen, fun q C hC ↦ ?_, fun q C hne hC _ ↦ ?_, fun q r st hz ↦ ?_, fun q hq ↦ .inl ?_,
    fun c q hc ↦ ?_⟩
  · rw [hview] at hC
    split at hC
    · exact absurd hC (hslot C)
    · rename_i hne
      exact ⟨hne, C, hC, rfl, fun _ ↦ rfl⟩
  · rw [hview, if_neg hne, hC]
  · rw [hview] at hz
    split at hz
    · exact .inr (hzombie r st hz)
    · exact .inl hz
  · rw [← table_queue, htable] at hq
    exact List.mem_of_mem_filter hq
  · rw [← table_current, htable, remove_current] at hc
    split at hc
    · cases hc
    · exact hc

theorem BeforeReaping.reaping (h : BeforeReaping s t p P)
    (hs : s.Finalizable p P) : t.Reaping p := by
  have hpid := h.pidAt
  constructor
  · intro C hC
    exact (h.occupied p C hC).1 rfl
  · intro j C hC hparent hstate
    have hview : t.view (s.pidAt j) = .occupied C := by rw [← hpid, view_pidAt, hC]
    obtain ⟨-, C₀, hC₀, -, hsame⟩ := h.occupied _ C hview
    obtain rfl := hsame hstate
    have hslot : s.processes j = .occupied C := by rw [← view_pidAt, hC₀]
    obtain ⟨hqueue, hcurrent, hchildless, hwaiter⟩ := hs.orphans j C hslot hparent hstate
    refine ⟨?_, ?_, ?_, hwaiter⟩
    · rw [hpid]
      intro hmem
      rcases h.queue _ hmem with hold | ⟨W, hW, hne⟩
      · exact hqueue hold
      · rw [hC₀] at hW
        cases hW
        exact hne hstate
    · rw [hpid]
      intro c hc
      exact hcurrent c (h.current c _ hc)
    · rw [hpid]
      intro k
      refine ⟨fun D hD hpar ↦ ?_, fun status hz ↦ ?_⟩
      · have hviewD : t.view (s.pidAt k) = .occupied D := by rw [← hpid, view_pidAt, hD]
        obtain ⟨-, D₀, hD₀, hpar₀, -⟩ := h.occupied _ D hviewD
        rw [view_pidAt] at hD₀
        exact (hchildless k).1 D₀ hD₀ (hpar₀ ▸ hpar)
      · have hviewZ : t.view (s.pidAt k) = .zombie (s.pidAt j) status := by
          rw [← hpid, view_pidAt, hz, hpid]
        rcases h.zombie _ _ _ hviewZ with hold | hpar
        · rw [view_pidAt] at hold
          exact (hchildless k).2 status hold
        · obtain ⟨l, -, rfl, hP⟩ := slot_of_eq hs.view (by simp)
          exact (hchildless l).1 P hP hpar

theorem BeforeReaping.orphanBoxes (h : BeforeReaping s t p P)
    (hs : s.Finalizable p P) : t.orphanBoxes p = s.orphanBoxes p := by
  have hpid := h.pidAt
  have hmem : ∀ j C, t.processes j = .occupied C ∧ C.parent = some p ∧ C.state = .suspended ↔
      s.processes j = .occupied C ∧ C.parent = some p ∧ C.state = .suspended := by
    intro j C
    rw [← view_pidAt t, ← view_pidAt s, hpid]
    constructor
    · rintro ⟨hC, hparent, hstate⟩
      obtain ⟨-, C₀, hC₀, -, hsame⟩ := h.occupied _ C hC
      obtain rfl := hsame hstate
      exact ⟨hC₀, hparent, hstate⟩
    · rintro ⟨hC, hparent, hstate⟩
      refine ⟨h.suspended _ C ?_ hC hstate, hparent, hstate⟩
      intro heq
      rw [heq, hs.view] at hC
      cases hC
      exact hs.parent hparent
  refine List.flatMap_congr fun j _ ↦ ?_
  have hnone : ∀ slot : Slot E,
      (∀ C, ¬ (slot = .occupied C ∧ C.parent = some p ∧ C.state = .suspended)) →
      orphanBox p slot = [] := by
    intro slot hslot
    cases slot with
    | occupied C => exact if_neg fun hC ↦ hslot C ⟨rfl, hC⟩
    | _ => rfl
  by_cases hC : ∃ C, s.processes j = .occupied C ∧ C.parent = some p ∧ C.state = .suspended
  · obtain ⟨C, hC⟩ := hC
    rw [((hmem j C).mpr hC).1, hC.1]
  · push Not at hC
    have hsnone := hnone (s.processes j) fun C hC' ↦ hC C hC'.1 hC'.2.1 hC'.2.2
    have htnone := hnone (t.processes j) fun C hC' ↦ by
      obtain ⟨h₁, h₂, h₃⟩ := (hmem j C).mp hC'
      exact hC C h₁ h₂ h₃
    rw [hsnone, htnone]

/-- The state after the table, the queue and the cores have let go of `p`. -/
def taken (s : Inner E) (p : Pid) (i : Fin maxProcesses) : Inner E :=
  ((s.setSlot i .empty).removeFromReadyQueue p).clearCurrent p

theorem taken_table (hpid : p = s.pidAt i) : (s.taken p i).table = s.table.remove p .empty := by
  refine Table.ext (funext fun q ↦ ?_) (queue_removeFromReadyQueue _ _) rfl rfl
  rw [Table.remove_view, hpid]
  exact s.view_setSlot i .empty q

theorem taken_honest (h : s.Honest) : (s.taken p i).Honest :=
  ((h.congr rfl rfl : (s.setSlot i .empty).Honest).removeFromReadyQueue p).congr rfl rfl

theorem notifyParent_spec (status : ExitStatus) (h : s.Finalizable p P) (hpid : p = s.pidAt i) :
    ∃ t, (s.taken p i).notifyParent i P status = t ∧ BeforeReaping s t p P ∧
      t.table.reap p = s.table.finalize p P status ∧ (s.Honest → t.Honest) := by
  have htable := taken_table hpid
  have hview : ∀ q, (s.taken p i).view q = if q = p then .empty else s.view q := by
    intro q
    rw [← table_view, htable, Table.remove_view, table_view]
  have hqueue : (s.taken p i).queue = s.queue.filter fun r ↦ r ≠ p := congrArg Table.queue htable
  have hbase : BeforeReaping s (s.taken p i) p P := .of_remove rfl htable (by simp) (by simp)
  cases hwait : P.waitWaiter with
  | none =>
    cases hpar : P.parent with
    | none =>
      refine ⟨s.taken p i, by simp [notifyParent, hwait, hpar], hbase, ?_, taken_honest⟩
      rw [htable]
      simp [Table.finalize, hwait, Table.remains, hpar]
    | some parent =>
      have hset : ((s.taken p i).setSlot i (.zombie parent status)).table =
          s.table.remove p (.zombie parent status) := by
        have hpid' : (s.taken p i).pidAt i = p := hpid.symm
        rw [table_setSlot, htable, hpid']
        simp [Table.set, Table.remove]
      refine ⟨(s.taken p i).setSlot i (.zombie parent status), by simp [notifyParent, hwait, hpar],
        .of_remove rfl hset (by simp) (by simp [hpar]), ?_,
        fun hhonest ↦ (taken_honest hhonest).congr rfl rfl⟩
      rw [hset]
      simp [Table.finalize, hwait, Table.remains, hpar]
  | some w =>
    obtain ⟨hwp, hblocked⟩ := h.waiter w hwait
    have hviewW : (s.taken p i).view w = s.view w := by rw [hview, if_neg hwp]
    have hroom : ∀ W, (s.taken p i).view w = .occupied W → W.state = .blocked →
        (s.taken p i).queue.length < maxProcesses := by
      intro W hW _
      rw [hqueue]
      exact lt_of_le_of_lt (List.length_filter_le _ _) (hblocked W (hviewW ▸ hW)).2
    obtain ⟨hwake, hhonest⟩ := table_wake (s := s.taken p i) (.waitCompleted status) hroom
    refine ⟨_, by simp [notifyParent, hwait], ?_, ?_, fun hs ↦ hhonest (taken_honest hs)⟩
    · rcases (s.taken p i).wakeBlockedProcessLocked_cases w (.waitCompleted status) with
        ⟨-, heq⟩ | ⟨W, hW, hstate, -⟩ | ⟨W, hW, hstate, heq⟩
      · rw [heq]
        exact hbase
      · exact absurd (hblocked W (hviewW ▸ hW)).1 hstate
      · have hW' : s.view w = .occupied W := hviewW ▸ hW
        have htable' := (table_setProcess_push hW (applyWakeResult W (.waitCompleted status))
          (hroom W hW hstate)).1
        obtain ⟨-, hcur', hgen', -⟩ :=
          setProcess_fields hW (applyWakeResult W (.waitCompleted status))
        have hview' : ∀ q, (((s.taken p i).setProcess w
            (applyWakeResult W (.waitCompleted status))).push w).view q =
            if q = w then .occupied (applyWakeResult W (.waitCompleted status))
            else if q = p then .empty else s.view q := by
          intro q
          rw [← table_view, htable', Table.enqueue_view, Table.set_view, table_view, hview]
        rw [heq]
        refine ⟨hgen', fun q C hC ↦ ?_, fun q C hne hC hsus ↦ ?_, fun q r st hz ↦ ?_,
          fun q hq ↦ ?_, fun c q hc ↦ ?_⟩
        · rw [hview'] at hC
          split at hC
          · rename_i hqw
            subst hqw
            cases hC
            exact ⟨hwp, W, hW', rfl, fun hsus ↦ by cases hsus⟩
          · split at hC
            · cases hC
            · rename_i hne
              exact ⟨hne, C, hC, rfl, fun _ ↦ rfl⟩
        · have hqw : q ≠ w := by
            rintro rfl
            rw [hW'] at hC
            cases hC
            rw [hstate] at hsus
            cases hsus
          rw [hview', if_neg hqw, if_neg hne, hC]
        · rw [hview'] at hz
          split at hz
          · cases hz
          · split at hz
            · cases hz
            · exact .inl hz
        · have hqueue' := congrArg Table.queue htable'
          rw [Table.enqueue_queue, Table.set_queue, table_queue, table_queue, hqueue] at hqueue'
          have hq' : q ∈ s.queue.filter (fun r ↦ r ≠ p) ++ [w] := hqueue' ▸ hq
          rcases List.mem_append.mp hq' with hold | hnew
          · exact .inl (List.mem_of_mem_filter hold)
          · rw [List.mem_singleton] at hnew
            subst hnew
            exact .inr ⟨W, hW', by rw [hstate]; simp⟩
        · exact hbase.current c q (hcur' ▸ hc)
    · rw [hwake, htable]
      simp [Table.finalize, hwait]

/-- `take_and_finalize_slot` as one change of the table. -/
theorem finalize_spec (status : ExitStatus) (h : s.Finalizable p P) :
    (s.finalize p status).1.table = s.table.finalize p P status ∧
      (s.finalize p status).2 = s.orphanBoxes p ++ [P] ∧
      (s.Honest → (s.finalize p status).1.Honest) := by
  obtain ⟨i, hslot, hpid, hproc⟩ := slot_of_eq h.view (by simp)
  obtain ⟨t, hnotify, hbefore, htable, hhonest⟩ := notifyParent_spec status h hpid
  obtain ⟨u, hreap, hutable, huhonest⟩ :=
    reapChildrenOf_spec (t, []) (hbefore.reaping h)
  have heq : s.finalize p status = (u, s.orphanBoxes p ++ [P]) := by
    have hboxes := hbefore.orphanBoxes h
    simp only [finalize, finalizeFuel, takeAndFinalizeSlot, hslot, hproc]
    change ((reapChildrenOf (takeAndFinalizeSlot maxProcesses) p
        ((s.taken p i).notifyParent i P status, [])).1,
      (reapChildrenOf (takeAndFinalizeSlot maxProcesses) p
        ((s.taken p i).notifyParent i P status, [])).2 ++ [P]) = _
    have hreap' : reapChildrenOf (takeAndFinalizeSlot maxProcesses) p (t, []) =
        (u, [] ++ t.orphanBoxes p) := hreap
    rw [hnotify, hreap', List.nil_append, hboxes]
  rw [heq]
  exact ⟨hutable.trans htable, rfl, fun hs ↦ huhonest (hhonest hs)⟩

end Tarnos.Task.Inner
