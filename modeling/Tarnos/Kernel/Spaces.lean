import Tarnos.Kernel.Reaping
import Tarnos.Task.Frames

namespace Tarnos.Kernel

open Abi Arch Kcore Tarnos.Task Foundation Foundation.Transition Inner Table
  Function

variable {E : Type} {P : Process E} {d : CoreId}

def Core.held (core : Core E) : List (Process E) :=
  core.main.boxes ++ core.errands.filterMap Errand.box

def Main.leftovers : Main E → List (Process E)
  | .switchNext _ drops => drops
  | _ => []

namespace State

/-- How many boxes, in the table or held by a core, own the address space of frame `a`. -/
def holds (s : State E) (a : ℕ) : ℕ :=
  s.sched.tableHolds a + ∑ c, boxHolds a (s.cores c).held

section Lists

theorem box_light {errands : List (Errand E)} (h : ∀ e ∈ errands, e.Light) :
    errands.filterMap Errand.box = [] :=
  List.filterMap_eq_nil_iff.mpr fun e he ↦ (h e he).box

theorem box_dropBox (drops : List (Process E)) :
    (drops.map (Errand.dropBox (E := E))).filterMap Errand.box = drops := by
  rw [List.filterMap_map]
  exact List.filterMap_some

theorem box_outgoing (outgoing : Option (Fin maxProcesses)) :
    (outgoingErrands outgoing : List (Errand E)).filterMap Errand.box = [] := by
  cases outgoing <;> rfl

end Lists

variable {s s' : State E} {c : CoreId} {p : Pid} {a : ℕ}

inductive Holding (s s' : State E) : Prop
  | keep (hholds : ∀ a, s'.holds a = s.holds a) (hspaces : s'.spaces = s.spaces)
  | drop {a : ℕ} (hholds : ∀ b, s'.holds b + (if a = b then 1 else 0) = s.holds b)
      (hspaces : s'.spaces = s.spaces.erase a)
  | load {a : ℕ} (hfresh : a ∉ s.spaces)
      (hholds : ∀ b, s'.holds b = s.holds b + if a = b then 1 else 0)
      (hspaces : s'.spaces = a :: s.spaces)

/-- No address space has two boxes, and those with a box are in use. -/
structure Owned (s : State E) : Prop where
  single : ∀ a, s.holds a ≤ 1
  listed : ∀ a, 0 < s.holds a → a ∈ s.spaces

theorem Owned.init (config : BootConfig E) : (State.init config).Owned := by
  have hheld : ∀ c, ((State.init config).cores c).held = [] := by
    intro c
    simp only [State.init]
    split_ifs <;> rfl
  have htable : ∀ a, (State.init config).sched.tableHolds a = 0 := fun a ↦
    Finset.sum_eq_zero fun i _ ↦ rfl
  have hholds : ∀ a, (State.init config).holds a = 0 := by
    intro a
    unfold holds
    rw [htable, Nat.zero_add]
    exact Finset.sum_eq_zero fun c _ ↦ by rw [hheld, boxHolds_nil]
  refine ⟨fun a ↦ by rw [hholds]; omega, fun a ha ↦ ?_⟩
  rw [hholds] at ha
  omega

theorem Owned.holding (h : s.Owned) (hholding : s.Holding s') : s'.Owned := by
  cases hholding with
  | keep hholds hspaces =>
    refine ⟨fun a ↦ by rw [hholds]; exact h.single a, fun a ha ↦ ?_⟩
    rw [hspaces]
    exact h.listed a (by rwa [hholds] at ha)
  | @drop b hholds hspaces =>
    refine ⟨fun a ↦ ?_, fun a ha ↦ ?_⟩
    · have := hholds a
      have := h.single a
      omega
    · have hsum := hholds a
      have hone := h.single a
      have hab : a ≠ b := by
        rintro rfl
        rw [if_pos rfl] at hsum
        omega
      rw [hspaces]
      exact (List.mem_erase_of_ne hab).mpr (h.listed a (by omega))
  | @load b hfresh hholds hspaces =>
    have hnone : s.holds b = 0 := by
      by_contra hne
      exact hfresh (h.listed b (Nat.pos_of_ne_zero hne))
    refine ⟨fun a ↦ ?_, fun a ha ↦ ?_⟩
    · have hsum := hholds a
      have hone := h.single a
      by_cases hba : b = a
      · subst hba
        rw [if_pos rfl] at hsum
        omega
      · rw [if_neg hba] at hsum
        omega
    · rw [hspaces]
      by_cases hba : b = a
      · rw [hba]
        exact List.mem_cons_self
      · rw [hholds, if_neg hba, Nat.add_zero] at ha
        exact List.mem_cons_of_mem _ (h.listed a ha)

/-- The page table of core `c`: the one of the process it runs or of the process that just ended
on it; the boot page table only while it boots. -/
structure Mapped (s : State E) (c : CoreId) : Prop where
  process : ∀ a, (s.cores c).cr3 = .process a →
    (∃ p P, s.sched.current c = some p ∧ s.sched.view p = .occupied P ∧ P.addressSpace = a) ∨
      ∃ P ∈ (s.cores c).main.leftovers, P.addressSpace = a
  boot : (s.cores c).cr3 = .boot → (s.cores c).main.booting = true

theorem Mapped.init (config : BootConfig E) (c : CoreId) : (State.init config).Mapped c := by
  simp only [State.init]
  constructor
  · intro a ha
    simp only at ha
    split_ifs at ha
  · intro hb
    simp only at hb ⊢
    split_ifs at hb ⊢
    rfl

theorem leftovers_light {m : Main E} (h : m.Light) : m.leftovers = [] := by
  have hboxes := h.boxes
  cases m with
  | switchNext outgoing drops => exact hboxes
  | _ => rfl

def BoxAlive (s : State E) (frame : ℕ) : Prop :=
  (∃ i P, s.sched.processes i = .occupied P ∧ P.addressSpace = frame) ∨
    ∃ c, ∃ P ∈ (s.cores c).held, P.addressSpace = frame

theorem BoxAlive.pos (h : s.BoxAlive a) : 0 < s.holds a := by
  unfold holds
  rcases h with ⟨i, P, hP, ha⟩ | ⟨c, P, hP, ha⟩
  · have hview : s.sched.view (s.sched.pidAt i) = .occupied P := by rw [view_pidAt, hP]
    have := tableHolds_pos hview ha
    omega
  · have hpos := boxHolds_pos hP ha
    have hle : boxHolds a (s.cores c).held ≤ ∑ d, boxHolds a (s.cores d).held :=
      Finset.single_le_sum (f := fun d ↦ boxHolds a (s.cores d).held) (fun _ _ ↦ Nat.zero_le _)
        (Finset.mem_univ c)
    omega

theorem leftovers_held {core : Core E} (h : P ∈ core.main.leftovers) : P ∈ core.held := by
  refine List.mem_append_left _ ?_
  cases hm : core.main with
  | switchNext outgoing drops =>
    rw [hm] at h
    exact h
  | _ =>
    rw [hm] at h
    cases h

/-- Every core is on the idle address space, on that of a box not dropped yet, or on the boot page
table while it boots. -/
structure Cr3Alive (s : State E) : Prop where
  process : ∀ c frame, (s.cores c).cr3 = .process frame → frame ∈ s.spaces ∧ s.BoxAlive frame
  boot : ∀ c, (s.cores c).cr3 = .boot → (s.cores c).main.booting = true

theorem Owned.cr3Alive (h : s.Owned) (hmapped : ∀ c, s.Mapped c) : s.Cr3Alive := by
  refine ⟨fun c frame hframe ↦ ?_, fun c hc ↦ (hmapped c).boot hc⟩
  have hbox : s.BoxAlive frame := by
    rcases (hmapped c).process frame hframe with ⟨p, P, -, hP, hspace⟩ | ⟨P, hP, hspace⟩
    · obtain ⟨i, -, hpid, -⟩ := slot_of_eq hP
      exact .inl ⟨i, P, by rw [← view_pidAt, ← hpid, hP], hspace⟩
    · exact .inr ⟨c, P, leftovers_held hP, hspace⟩
  exact ⟨h.listed frame hbox.pos, hbox⟩

section

variable [DecidableEq E]

theorem Effect.holds_eq (heff : s.Effect c s') (a : ℕ) :
    s'.holds a + s.sched.tableHolds a + boxHolds a (s.cores c).held =
      s.holds a + s'.sched.tableHolds a + boxHolds a (s'.cores c).held := by
  have hcores : s'.cores = update s.cores c (s'.cores c) := by
    funext d
    by_cases hd : d = c
    · rw [hd, update_self]
    · rw [update_of_ne hd, heff.others d hd]
  have hsum := Sums.sum_comp_update (fun core : Core E ↦ boxHolds a core.held) s.cores c (s'.cores c)
  rw [← hcores] at hsum
  unfold holds
  omega

end

variable [Fintype E]

theorem Inv.not_ends (hinv : s.Inv False) (hd : s.sched.current d = some p)
    (h : d ≠ c ∨ (s.cores c).errands ≠ [] ∨ (s.cores c).main.marked = none) :
    s.ends c ≠ some p := by
  intro hends
  obtain ⟨hdc, herr, status, hmain⟩ := hinv.ends_current hends hd
  rcases h with h | h | h
  · exact h hdc
  · exact h herr
  · rw [hmain] at h
    cases h

variable [DecidableEq E]

section

variable (heff : s.Effect c s') (hinv : s.Inv False)

include heff hinv

theorem Effect.holding : s.Holding s' := by
  have hsound : s.sched.table.Sound := hinv.scene.sound
  have hbalance := heff.holds_eq
  have hkeep : (∀ a, s'.sched.tableHolds a + boxHolds a (s'.cores c).held =
      s.sched.tableHolds a + boxHolds a (s.cores c).held) → s'.spaces = s.spaces → s.Holding s' := by
    intro hsame hspaces
    refine .keep (fun a ↦ ?_) hspaces
    have := hbalance a
    have := hsame a
    omega
  -- a core without errands holds the boxes of its point
  have hheld : (s.cores c).errands = [] → (s.cores c).held = (s.cores c).main.boxes := by
    intro herr
    unfold Core.held
    rw [herr, List.filterMap_nil, List.append_nil]
  have hgoto : ∀ {b : State E} {m : Main E} {errands : List (Errand E)},
      ((b.goto c m errands).cores c).held = m.boxes ++ errands.filterMap Errand.box := by
    intro b m errands
    unfold Core.held
    rw [goto_main, goto_errands]
  have hset : ∀ {core : Core E}, ((s.setCore c core).cores c).held =
      core.main.boxes ++ core.errands.filterMap Errand.box := by
    intro core
    unfold Core.held
    rw [setCore_self]
  have hput : ∀ {t : Inner E} {r : Pid} {Q : Process E}, s.sched.view r = .reserved →
      t.table.view = (s.sched.table.set r (.occupied Q)).view →
      t.table.issued = s.sched.table.issued →
      ∀ a, t.tableHolds a = s.sched.tableHolds a + if Q.addressSpace = a then 1 else 0 := by
    intro t r Q hr hview hissued a
    refine tableHolds_put hr hissued fun q ↦ ?_
    rw [← table_view, hview, set_view]
    rfl
  cases heff with
  | @errand errand rest more b herr hcores hsteady _ hspaces _ hmore =>
    have hnew : ((b.goto c (s.cores c).main (more ++ rest)).cores c).held =
        (s.cores c).main.boxes ++ rest.filterMap Errand.box := by
      rw [hgoto, List.filterMap_append, box_light hmore, List.nil_append]
    have hold : ∀ a, boxHolds a (s.cores c).held = boxHolds a ((s.cores c).main.boxes ++
        rest.filterMap Errand.box) + boxHolds a errand.box.toList := by
      intro a
      unfold Core.held
      rw [herr, List.filterMap_cons, boxHolds_append, boxHolds_append]
      cases errand.box with
      | none => rfl
      | some P =>
        simp only [Option.toList_some, boxHolds_cons, boxHolds_nil]
        omega
    have htable : ∀ a, (b.goto c (s.cores c).main (more ++ rest)).sched.tableHolds a =
        s.sched.tableHolds a := fun a ↦ tableHolds_steady hsteady
    cases hbox : errand.box with
    | none =>
      rw [hbox] at hspaces
      refine hkeep (fun a ↦ ?_) hspaces
      rw [hnew, hold, htable, hbox]
      rfl
    | some P =>
      rw [hbox] at hspaces
      refine .drop (fun a ↦ ?_) hspaces
      have := hbalance a
      rw [hnew, hold, htable, hbox] at this
      simp only [Option.toList_some, boxHolds_cons, boxHolds_nil] at this
      omega
  | light herr hold hnew _ _ _ _ hsteady _ hspaces _ herrands =>
    refine hkeep (fun a ↦ ?_) hspaces
    rw [hgoto, hnew.boxes, box_light herrands, hheld herr, hold.boxes]
    exact congrArg (· + 0) (tableHolds_steady hsteady)
  | trap herr hmain hnew =>
    refine hkeep (fun a ↦ ?_) rfl
    rw [hset, hnew.boxes, hheld herr, hmain]
    rfl
  | leave herr hmain | bootDone herr hmain =>
    refine hkeep (fun a ↦ ?_) rfl
    rw [hset, hheld herr, hmain]
    rfl
  | reserve herr hfree _ hold hnew =>
    refine hkeep (fun a ↦ ?_) rfl
    rw [hgoto, hnew.boxes, hheld herr, hold.boxes]
    exact congrArg (· + 0) (tableHolds_allocate hfree)
  | @load caller child f frame P herr hmain hfresh hP =>
    refine .load hfresh (fun b ↦ ?_) rfl
    have := hbalance b
    rw [hgoto, hheld herr, hmain] at this
    simp only [Main.boxes, List.filterMap_nil, List.append_nil, boxHolds_nil, boxHolds_cons, hP] at this
    change _ + s.sched.tableHolds b + 0 = _ + s.sched.tableHolds b + _ at this
    omega
  | @spawn P f g b herr hmain _ hview _ _ htable hspaces =>
    refine hkeep (fun a ↦ ?_) hspaces
    have hnew := hput (t := b.sched) hview (by rw [htable]) (by rw [htable]; rfl) a
    rw [hgoto, hheld herr, hmain]
    simp only [Main.boxes, List.filterMap_nil, List.append_nil, boxHolds_nil, boxHolds_cons]
    change b.sched.tableHolds a + 0 = _
    omega
  | @spawnFail P f g herr hmain | mark herr hmain =>
    refine hkeep (fun a ↦ ?_) rfl
    rw [hgoto, hheld herr, hmain]
    rfl
  | @bootSpawn pid boot rest frame P b herr hmain hfresh hP _ _ hview _ htable hspaces =>
    refine .load hfresh (fun a ↦ ?_) hspaces
    have hnew := hput (t := b.sched) (Q := P) hview (by rw [htable]; rfl) (by rw [htable]; rfl) a
    have := hbalance a
    rw [hgoto, hheld herr, hmain] at this
    simp only [Main.boxes, List.filterMap_nil, List.append_nil, boxHolds_nil] at this
    change _ + _ + 0 = _ + b.sched.tableHolds a + 0 at this
    rw [hP] at hnew
    omega
  | @exit q Q status errands b herr hmain _ hQ _ htable hspaces _ herrands =>
    refine hkeep (fun a ↦ ?_) hspaces
    have hnew := tableHolds_finalize (a := a) hsound hQ htable
    rw [hgoto, box_light herrands, List.append_nil, hheld herr, hmain]
    simp only [Main.boxes, boxHolds_nil]
    change b.sched.tableHolds a + _ = _
    omega
  | @kill target q T f g b dying herr hmain hT _ _ _ htable hspaces =>
    refine hkeep (fun a ↦ ?_) hspaces
    have hnew := tableHolds_finalize (a := a) hsound hT htable
    rw [hgoto, List.filterMap_cons, box_dropBox, hheld herr, hmain]
    simp only [Main.boxes, Errand.box, boxHolds_nil, List.nil_append]
    change b.sched.tableHolds a + _ = _
    omega
  | @dispatch q Q b sched rest outgoing mid herr hrelease hqueue hQ _ htable _ hmid =>
    refine hkeep (fun a ↦ ?_) hrelease.spaces
    have hsteady : s.sched.table.Steady sched.table :=
      htable ▸ hrelease.steady.trans (hrelease.dispatch_steady hqueue hQ)
    unfold State.dispatch Core.held
    rw [setCore_self, herr]
    simp only [List.filterMap_append, box_dropBox, box_light hmid, box_outgoing, List.append_nil,
      List.filterMap_nil]
    rw [show (Main.leave Q.trapFrame : Main E).boxes = [] from rfl, List.nil_append]
    change sched.tableHolds a + _ = _
    rw [tableHolds_steady hsteady]
  | @abandon b sched outgoing mid herr hrelease htable hmid =>
    refine hkeep (fun a ↦ ?_) hrelease.spaces
    have hsteady : s.sched.table.Steady sched.table := htable ▸ hrelease.steady
    unfold State.abandon Core.held
    rw [setCore_self, herr]
    simp only [List.filterMap_append, box_dropBox, box_light hmid, box_outgoing, List.append_nil,
      List.filterMap_nil, List.nil_append]
    rw [show (Main.idle true : Main E).boxes = [] from rfl, List.nil_append]
    change sched.tableHolds a + _ = _
    rw [tableHolds_steady hsteady]

/-- A process stays in the table with its address space, unless the step ends it, or its parent
while it is suspended. -/
theorem Effect.survives (hP : s.sched.view p = .occupied P)
    (hends : ∀ q, s.ends c = some q → p ≠ q ∧ ¬ (P.parent = some q ∧ P.state = .suspended)) :
    ∃ P', s'.sched.view p = .occupied P' ∧ P'.addressSpace = P.addressSpace := by
  have hput : ∀ {t : Inner E} {r : Pid} {slot new : Slot E}, s.sched.view r = slot →
      (∀ Q, slot ≠ .occupied Q) → (∀ q, t.view q = if q = r then new else s.sched.view q) →
      ∃ P', t.view p = .occupied P' ∧ P'.addressSpace = P.addressSpace := by
    intro t r slot new hr hslot hview
    have hpr : p ≠ r := by
      rintro rfl
      rw [hP] at hr
      exact hslot P hr.symm
    exact ⟨P, by rw [hview p, if_neg hpr, hP], rfl⟩
  cases heff.reshapes with
  | steady hsteady => exact hsteady.occupied hP
  | @reserve i hfree _ ht =>
    rw [ht]
    exact hput (s.sched.view_freshPid i) (by simp) (view_allocatePid hfree)
  | fill hreserved hview => exact hput hreserved (by simp) hview
  | @finalize q Q status hq hQ htable =>
    have hsound : s.sched.table.Sound := hinv.scene.sound
    obtain ⟨hpq, hnot⟩ := hends q hq
    obtain ⟨P', hP', hout⟩ := finalize_survives hsound hQ hpq hP hnot
    exact ⟨P', by rw [← table_view, htable, hP'], hout.addressSpace⟩

theorem Effect.resident (hP : s.sched.view p = .occupied P) (hstate : P.state ≠ .suspended)
    (hends : s.ends c ≠ some p) :
    ∃ P', s'.sched.view p = .occupied P' ∧ P'.addressSpace = P.addressSpace :=
  heff.survives hinv hP fun _ hq ↦ ⟨fun hpq ↦ hends (hpq ▸ hq), fun hbad ↦ hstate hbad.2⟩

theorem Effect.current_other (hd : d ≠ c) : s'.sched.current d = s.sched.current d := by
  have hsound : s.sched.table.Sound := hinv.scene.sound
  cases heff with
  | errand _ _ _ hcurrent | light _ _ _ _ _ _ _ _ hcurrent => exact congrFun hcurrent d
  | reserve _ hfree =>
    change (s.sched.allocatePid s.stackBusy).2.current d = _
    simp [Inner.allocatePid, hfree]
  | @spawn Q f g b _ _ _ _ _ _ htable | @bootSpawn pid boot rest frame Q b _ _ _ _ _ _ _ _ htable =>
    rw [show (b.goto c _ []).sched.current d = b.sched.table.current d from rfl, htable]
    rfl
  | @exit q Q status errands b _ _ hc _ _ htable =>
    rw [show (b.goto c _ errands).sched.current d = b.sched.table.current d from rfl, htable,
      finalize_current, if_neg fun hdq ↦ hd (hsound.injective d c q hdq hc)]
    rfl
  | @kill target q T f g b dying _ _ _ _ hcur _ htable =>
    rw [show (b.goto c _ _).sched.current d = b.sched.table.current d from rfl, htable,
      finalize_current, Inner.table_current, if_neg (hcur d)]
  | @dispatch q Q b sched rest outgoing mid _ hrelease _ _ _ htable =>
    change sched.table.current d = _
    rw [htable, dispatch_current, if_neg hd, Inner.table_current, hrelease.current,
      update_of_ne hd]
  | @abandon b sched outgoing mid _ hrelease htable =>
    change sched.table.current d = _
    rw [htable, Inner.table_current, hrelease.current, update_of_ne hd]
  | _ => rfl

end

theorem Mapped.stay (h : s.Mapped d) (hinv : s.Inv False) (heff : s.Effect c s')
    (hown : d ≠ c ∨ (s.cores c).errands ≠ [] ∨ (s.cores c).main.marked = none)
    (hcr3 : (s'.cores d).cr3 = (s.cores d).cr3) (hcurrent : s'.sched.current d = s.sched.current d)
    (hleft : ∀ P ∈ (s.cores d).main.leftovers, P ∈ (s'.cores d).main.leftovers)
    (hboot : (s.cores d).main.booting = true → (s'.cores d).main.booting = true) : s'.Mapped d := by
  refine ⟨fun a ha ↦ ?_, fun hb ↦ hboot (h.boot (by rwa [hcr3] at hb))⟩
  rcases h.process a (by rwa [hcr3] at ha) with ⟨p, P, hp, hP, hspace⟩ | ⟨P, hP, hspace⟩
  · obtain ⟨P', hP', hrun⟩ := hinv.scene.sound.running d p hp
    rw [show s.scene.table.view p = .occupied P from hP] at hP'
    cases hP'
    obtain ⟨P', hP', hspace'⟩ := heff.resident hinv hP (by rw [hrun]; simp) (hinv.not_ends hp hown)
    exact .inl ⟨p, P', by rw [hcurrent, hp], hP', hspace'.trans hspace⟩
  · exact .inr ⟨P, hleft P hP, hspace⟩

theorem Effect.mapped (heff : s.Effect c s') (hinv : s.Inv False) (h : s.Mapped c) :
    s'.Mapped c := by
  have heff' := heff
  -- a core at a point without leftovers that keeps page table and process
  have hstay : (s.cores c).main.marked = none → (s.cores c).main.leftovers = [] →
      (s'.cores c).cr3 = (s.cores c).cr3 → s'.sched.current c = s.sched.current c →
      ((s.cores c).main.booting = true → (s'.cores c).main.booting = true) → s'.Mapped c := by
    intro hmarked hleft hcr3 hcurrent hboot
    refine h.stay hinv heff' (.inr (.inr hmarked)) hcr3 hcurrent (fun P hP ↦ ?_) hboot
    rw [hleft] at hP
    cases hP
  cases heff with
  | errand herr hcores _ hcurrent =>
    refine h.stay hinv heff' (.inr (.inl (by rw [herr]; simp))) (by rw [goto_cr3, hcores])
      (congrFun hcurrent c) (fun P hP ↦ by rwa [goto_main]) fun hb ↦ by rwa [goto_main]
  | light _ hold hnew _ _ hbooting hcores _ hcurrent =>
    exact hstay hold.marked (leftovers_light hold) (by rw [goto_cr3, hcores]) (congrFun hcurrent c)
      fun hb ↦ by rw [goto_main, hbooting]; exact hb
  | trap _ hmain | leave _ hmain =>
    exact hstay (by rw [hmain]; rfl) (by rw [hmain]; rfl) (by rw [setCore_self]) rfl
      fun hb ↦ by rw [hmain] at hb; cases hb
  | bootDone =>
    refine ⟨fun a ha ↦ ?_, fun hb ↦ ?_⟩
    · rw [setCore_self] at ha
      cases ha
    · rw [setCore_self] at hb
      cases hb
  | reserve _ hfree _ hold hnew _ _ hbooting =>
    refine hstay hold.marked (leftovers_light hold) (by rw [goto_cr3]; rfl) ?_
      fun hb ↦ by rw [goto_main, hbooting]; exact hb
    change (s.sched.allocatePid s.stackBusy).2.current c = _
    simp [Inner.allocatePid, hfree]
  | load _ hmain | spawnFail _ hmain | mark _ hmain =>
    exact hstay (by rw [hmain]; rfl) (by rw [hmain]; rfl) (by rw [goto_cr3]) rfl
      fun hb ↦ by rw [hmain] at hb; cases hb
  | @spawn P f g b _ hmain hcores _ _ _ htable =>
    refine hstay (by rw [hmain]; rfl) (by rw [hmain]; rfl) (by rw [goto_cr3, hcores]) ?_
      fun hb ↦ by rw [hmain] at hb; cases hb
    rw [show (b.goto c _ []).sched.current c = b.sched.table.current c from rfl, htable]
    rfl
  | @bootSpawn pid boot rest frame P b _ hmain _ _ _ _ _ hcores htable =>
    refine hstay (by rw [hmain]; rfl) (by rw [hmain]; rfl) (by rw [goto_cr3, hcores]) ?_
      fun _ ↦ by rw [goto_main]; rfl
    rw [show (b.goto c _ []).sched.current c = b.sched.table.current c from rfl, htable]
    rfl
  | @exit q Q status errands b _ hmain hc hQ hcores =>
    refine ⟨fun a ha ↦ ?_, fun hb ↦ ?_⟩
    · rw [goto_cr3, hcores] at ha
      rcases h.process a ha with ⟨p, P, hp, hP, hspace⟩ | ⟨P, hP, -⟩
      · rw [hc] at hp
        cases hp
        rw [hQ] at hP
        cases hP
        refine .inr ⟨Q, ?_, hspace⟩
        rw [goto_main]
        exact List.mem_append_right _ (List.mem_singleton_self Q)
      · rw [hmain] at hP
        cases hP
    · rw [goto_cr3, hcores] at hb
      have hboot := h.boot hb
      rw [hmain] at hboot
      cases hboot
  | @kill target q T f g b dying _ hmain _ hc hcur hcores htable =>
    refine hstay (by rw [hmain]; rfl) (by rw [hmain]; rfl) (by rw [goto_cr3, hcores]) ?_
      fun hb ↦ by rw [hmain] at hb; cases hb
    rw [show (b.goto c _ _).sched.current c = b.sched.table.current c from rfl, htable,
      finalize_current, Inner.table_current, if_neg (hcur c)]
  | @dispatch p P b sched rest outgoing mid _ _ _ _ _ htable =>
    refine ⟨fun a ha ↦ .inl ⟨p, { P with state := .running }, ?_, ?_, ?_⟩, fun hb ↦ ?_⟩
    · change sched.table.current c = some p
      rw [htable, dispatch_current, if_pos rfl]
    · change sched.table.view p = _
      rw [htable, dispatch_view, if_pos rfl]
    · unfold State.dispatch at ha
      rw [setCore_self] at ha
      exact Cr3.process.inj ha
    · unfold State.dispatch at hb
      rw [setCore_self] at hb
      cases hb
  | abandon =>
    unfold State.abandon
    refine ⟨fun a ha ↦ ?_, fun hb ↦ ?_⟩
    · rw [setCore_self] at ha
      cases ha
    · rw [setCore_self] at hb
      cases hb

theorem Mapped.effect (h : ∀ d, s.Mapped d) (hinv : s.Inv False) (heff : s.Effect c s')
    (d : CoreId) : s'.Mapped d := by
  by_cases hd : d = c
  · rw [hd]
    exact heff.mapped hinv (h c)
  · have hcore := heff.others d hd
    exact (h d).stay hinv heff (.inl hd) (by rw [hcore]) (heff.current_other hinv hd)
      (fun P hP ↦ by rwa [hcore]) fun hb ↦ by rwa [hcore]

/-- In every state that is reached without a generation counter wrapping, no core is on the address
space of a dropped box. -/
theorem cr3Alive_of_noWrap (config : BootConfig E) (s : State E)
    (h : Reach next State.NoWrap (init config) s) : s.Cr3Alive := by
  have hinv : ∀ t, Reach next State.NoWrap (init config) t → t.Inv False := fun t ht ↦
    inv_of_noWrap (fun _ _ hok ↦ hok) ht
  have howned : s.Owned := h.invariant_over hinv (.init config)
    fun t a u ht hown hok hnext ↦ hown.holding ((ht.effect hok hnext).holding ht)
  have hmapped : ∀ c, s.Mapped c := Reach.invariant_over (I := fun t : State E ↦ ∀ c, t.Mapped c)
    hinv (Mapped.init config)
    (fun t a u ht hmap hok hnext ↦ Mapped.effect hmap ht (ht.effect hok hnext)) h
  exact howned.cr3Alive hmapped

theorem cr3Alive_of_noWrap_trappedApart :
    ∃ s, Reach next State.NoWrap (init solo) s ∧
      (s.cores 0).cr3 = .process 0 ∧ (s.cores 1).cr3 = .process 1 ∧ s.Cr3Alive := by
  refine exists_of_run trappedApart (by decide +kernel) fun s hreach
    (hcr3 : (s.cores 0).cr3 = .process 0 ∧ (s.cores 1).cr3 = .process 1) ↦ ?_
  exact ⟨hcr3.1, hcr3.2, cr3Alive_of_noWrap solo s hreach⟩

end State

end Tarnos.Kernel
