import Tarnos.Kernel.Stacks

namespace Tarnos.Task.Table

open Abi

variable {E : Type} {t t' : Table E} {p r : Pid} {P : Process E} {slot : Slot E}

def Tended (t : Table E) : Prop := ∀ q u status, t.view q = .zombie u status → t.Live u

namespace Tended

theorem steady (h : t.Tended) (hsteady : Steady t t') : t'.Tended :=
  fun q u status hz ↦ hsteady.live_iff.mpr (h q u status (hsteady.zombie q u status hz))

theorem put (h : t.Tended) (hview : ∀ q, t'.view q = if q = r then slot else t.view q)
    (hdead : ¬ t.Live r) (hslot : ∀ u status, slot ≠ .zombie u status) : t'.Tended := by
  intro q u status hz
  rw [hview] at hz
  split at hz
  · exact absurd hz (hslot u status)
  · obtain ⟨U, hU⟩ := h q u status hz
    have hur : u ≠ r := by
      rintro rfl
      exact hdead ⟨U, hU⟩
    exact ⟨U, by rw [hview, if_neg hur, hU]⟩

theorem finalize {status : ExitStatus} (h : t.Tended) (hsound : t.Sound)
    (hP : t.view p = .occupied P)
    (hchildren : ∀ q C, t.view q = .occupied C → C.parent = some p → C.state = .suspended →
      C.waitWaiter ≠ none) : (t.finalize p P status).Tended := by
  -- a parent other than `p` that is not suspended survives
  have hsurvives : ∀ u U, u ≠ p → t.view u = .occupied U → U.state ≠ .suspended →
      (t.finalize p P status).Live u := fun u U hup hU hstate ↦
    (finalize_survives hsound hP hup hU fun hbad ↦ hstate hbad.2).imp fun _ ↦ And.left
  intro q u st hz
  rcases finalize_zombie hsound hP hz with ⟨-, hold, hup⟩ | ⟨-, -, hpar, hup⟩ |
    ⟨-, -, C, hC, hpar, hsus, hw⟩
  · obtain ⟨U, hU⟩ := h q u st hold
    exact hsurvives u U hup hU ((hsound.zombie q u st hold).2 U hU)
  · obtain ⟨-, U, hU, hstate⟩ := hsound.parent p P u hP hpar
    exact hsurvives u U hup hU hstate
  · exact absurd hw (hchildren q C hC hpar hsus)

end Tended

end Tarnos.Task.Table

namespace Tarnos.Kernel

open Abi Arch Kcore Tarnos.Task Foundation.Transition Function

variable {E : Type}

namespace State

/-- A process ends only when somebody waits for each of its suspended children. -/
def Sheltered (s : State E) (a : Action E) : Prop :=
  ∀ p ∈ s.ends a.core, ∀ i C, s.sched.processes i = .occupied C → C.parent = some p →
    C.state = .suspended → C.waitWaiter ≠ none

/-- Every slot in use can still be emptied: zombies and processes with a parent have a living
one, and after the last process nothing is left. -/
structure Reapable (s : State E) : Prop where
  zombie : ∀ i parent status, s.sched.processes i = .zombie parent status →
    ∃ P, s.sched.view parent = .occupied P
  parent : ∀ i P parent, s.sched.processes i = .occupied P → P.parent = some parent →
    ∃ Q, s.sched.view parent = .occupied Q
  last : (∀ c, (s.cores c).main.booting = false) →
    (∀ i P, s.sched.processes i ≠ .occupied P) → s.sched.allProcessesEmpty = true

variable {s s' : State E} {c : CoreId} {a : Action E}

def stranded (p : Pid) : Slot E → Bool
  | .occupied C => C.parent = some p && C.state = .suspended && C.waitWaiter.isNone
  | _ => false

theorem stranded_eq_false {p : Pid} {slot : Slot E} : stranded p slot = false ↔
    ∀ C, slot = .occupied C → C.parent = some p → C.state = .suspended → C.waitWaiter ≠ none := by
  cases slot with
  | occupied C => simp [stranded, Option.isSome_iff_ne_none]
  | _ => simp [stranded]

theorem ends_kill {target : Pid} {f : TrapFrame} (herr : (s.cores c).errands = [])
    (hmain : (s.cores c).main = .killScan target f) (hcur : ∀ d, s.sched.current d ≠ some target) :
    s.ends c = some target := by
  refine mem_ends.mpr ⟨_, terminates_kill herr hmain ?_⟩
  cases howner : s.sched.owningCore target with
  | none => rfl
  | some core => exact absurd (Inner.owningCore_some howner) (hcur core)

/-- What a step of core `c` makes of the table: it moves processes about, reserves an entry, fills a
reserved one, or terminates a process. -/
inductive Reshapes (s : State E) (c : CoreId) (t : Inner E) : Prop
  | steady (hsteady : s.sched.table.Steady t.table)
  | reserve {i : Fin maxProcesses} (hfree : s.sched.freeSlot s.stackBusy = some i)
      (hwrap : (s.sched.generations i).toNat + 1 < 2 ^ 32)
      (ht : t = (s.sched.allocatePid s.stackBusy).2)
  | fill {pid : Pid} {P : Process E} (hreserved : s.sched.view pid = .reserved)
      (hview : ∀ q, t.view q = if q = pid then .occupied P else s.sched.view q)
      (hcurrent : t.current = s.sched.current) (hissued : t.issued = s.sched.issued)
  | finalize {p : Pid} {P : Process E} {status : ExitStatus} (hends : s.ends c = some p)
      (hP : s.sched.view p = .occupied P) (htable : t.table = s.sched.table.finalize p P status)

section

variable [DecidableEq E]

theorem Effect.reshapes (heff : s.Effect c s') : s.Reshapes c s'.sched := by
  have hfill : ∀ {t : Inner E} {pid : Pid} {P : Process E}, s.sched.view pid = .reserved →
      t.table.view = (s.sched.table.set pid (.occupied P)).view →
      t.table.current = s.sched.table.current → t.table.issued = s.sched.table.issued →
      s.Reshapes c t := by
    intro t pid P hreserved hview hcurrent hissued
    refine .fill (P := P) hreserved (fun q ↦ ?_) hcurrent hissued
    rw [← Inner.table_view, hview, Table.set_view]
    rfl
  cases heff with
  | errand _ _ hsteady | light _ _ _ _ _ _ _ hsteady => exact .steady hsteady
  | reserve _ hfree hwrap => exact .reserve hfree hwrap rfl
  | @spawn P f g b _ _ _ hview _ _ htable =>
    exact hfill (t := b.sched) hview (by rw [htable]) (by rw [htable]; rfl) (by rw [htable]; rfl)
  | @bootSpawn pid boot rest frame P b _ _ _ _ _ _ hview _ htable =>
    exact hfill (t := b.sched) hview (by rw [htable]; rfl) (by rw [htable]; rfl) (by rw [htable]; rfl)
  | exit herr hmain _ hP _ htable =>
    exact .finalize (mem_ends.mpr ⟨_, terminates_exit herr hmain⟩) hP htable
  | kill herr hmain hT _ hcur _ htable => exact .finalize (ends_kill herr hmain hcur) hT htable
  | dispatch _ hrelease hqueue hP _ htable =>
    refine .steady (hrelease.steady.trans ?_)
    exact (hrelease.dispatch_steady hqueue hP).trans (htable ▸ .refl _)
  | abandon _ hrelease htable => exact .steady (hrelease.steady.trans (htable ▸ .refl _))
  | _ => exact .steady (.refl _)

end

variable [Fintype E]

theorem Inv.ends_current (hinv : s.Inv False) {d : CoreId} {q : Pid} (hends : s.ends c = some q)
    (hd : s.sched.current d = some q) :
    d = c ∧ (s.cores c).errands = [] ∧ ∃ status, (s.cores c).main = .finalize q status := by
  obtain ⟨status, hends⟩ := mem_ends.mp hends
  obtain ⟨herr, hmain | ⟨f, -, howner, -⟩⟩ := terminates_cases hends
  · have hc := hinv.current_of_caller hmain rfl
    exact ⟨hinv.scene.sound.injective d c q hd hc, herr, status, hmain⟩
  · exact absurd hd (Inner.owningCore_none howner d)

theorem Inv.not_reserved (h : s.Inv False) (hbooting : ∀ c, (s.cores c).main.booting = false)
    (hlast : ∀ i P, s.sched.processes i ≠ .occupied P) (p : Pid) : s.sched.view p ≠ .reserved := by
  intro hp
  obtain ⟨c, hc⟩ := h.scene.cores.owner p hp
  have hattached : (s.scene.main c).attached = true := by
    have hboot := hbooting c
    change (s.scene.main c).booting = false at hboot
    cases hm : s.scene.main c with
    | bootSpawn => rw [hm] at hboot; cases hboot
    | fromElf | releaseReservation | spawnSuspended => rfl
    | _ => rw [hm] at hc; cases hc
  obtain ⟨q, Q, -, hQ, -⟩ := h.current_of_attached (c := c) rfl hattached
  obtain ⟨i, -, hpid, -⟩ := Inner.slot_of_eq hQ
  exact hlast i Q (by rw [← Inner.view_pidAt, ← hpid, hQ])

theorem Inv.reapable (h : s.Inv False) (htended : s.sched.table.Tended) : s.Reapable := by
  have hview : ∀ i slot, s.sched.processes i = slot → s.sched.table.view (s.sched.pidAt i) = slot :=
    fun i slot hi ↦ by rw [Inner.table_view, Inner.view_pidAt, hi]
  have hzombie : ∀ i parent status, s.sched.processes i = .zombie parent status →
      ∃ P, s.sched.view parent = .occupied P :=
    fun i parent status hi ↦ htended _ parent status (hview i _ hi)
  refine ⟨hzombie, fun i P parent hi hpar ↦ ?_, fun hbooting hlast ↦ ?_⟩
  · obtain ⟨-, Q, hQ, -⟩ := h.scene.sound.parent _ P parent (hview i _ hi) hpar
    exact ⟨Q, hQ⟩
  · unfold Inner.allProcessesEmpty
    refine List.all_eq_true.mpr fun i _ ↦ ?_
    cases hi : s.sched.processes i with
    | empty => rfl
    | occupied P => exact absurd hi (hlast i P)
    | reserved => exact absurd (hview i _ hi) (h.not_reserved hbooting hlast _)
    | zombie parent status =>
      obtain ⟨P, hP⟩ := hzombie i parent status hi
      obtain ⟨j, -, hpid, -⟩ := Inner.slot_of_eq hP
      exact absurd (by rw [← Inner.view_pidAt, ← hpid, hP]) (hlast j P)

variable [DecidableEq E]

theorem Effect.tended (heff : s.Effect c s') (hinv : s.Inv False) (h : s.sched.table.Tended)
    (hsheltered : ∀ p ∈ s.ends c, ∀ i C, s.sched.processes i = .occupied C → C.parent = some p →
      C.state = .suspended → C.waitWaiter ≠ none) : s'.sched.table.Tended := by
  have hdead : ∀ {r slot}, s.sched.view r = slot → (∀ R, slot ≠ .occupied R) →
      ¬ s.sched.table.Live r := fun hr hslot ⟨R, hR⟩ ↦ hslot R (hr.symm.trans hR)
  cases heff.reshapes with
  | steady hsteady => exact h.steady hsteady
  | @reserve i hfree _ ht =>
    rw [ht]
    exact h.put (Inner.view_allocatePid hfree) (hdead (s.sched.view_freshPid i) (by simp)) (by simp)
  | fill hreserved hview => exact h.put hview (hdead hreserved (by simp)) (by simp)
  | @finalize p P status hends hP htable =>
    rw [htable]
    refine h.finalize hinv.scene.sound hP fun q C hC hpar hsus ↦ ?_
    have hne : s.sched.view q ≠ .empty := by
      rw [show s.sched.view q = .occupied C from hC]
      simp
    obtain ⟨i, -, hpid⟩ := Inner.slot_of_view hne
    exact hsheltered p hends i C (by rw [← Inner.view_pidAt, ← hpid]; exact hC) hpar hsus

instance (s : State E) (a : Action E) : Decidable (s.Sheltered a) :=
  decidable_of_iff (∀ p ∈ s.ends a.core, ∀ i, stranded p (s.sched.processes i) = false)
    (forall₃_congr fun _ _ _ ↦ stranded_eq_false)

def exitInOrder : List (Action Unit) :=
  childRuns ++ serve 1 sysExit 0 3 ++ serve 0 sysExit 0 3

/-- As long as no process ends with a suspended child nobody waits for, every slot can be
emptied. -/
theorem reapable_of_sheltered (config : BootConfig E) (s : State E)
    (h : Reach next (fun t a ↦ t.NoWrap a ∧ t.Sheltered a) (init config) s) : s.Reapable := by
  have hinv : ∀ t, Reach next (fun t a ↦ t.NoWrap a ∧ t.Sheltered a) (init config) t →
      t.Inv False := fun t ht ↦ inv_of_noWrap (fun _ _ hok ↦ hok.1) ht
  have hstart : (init config).sched.table.Tended := by
    intro q u status hz
    rw [show (init config).sched.table.view q = .empty from Inner.view_init q] at hz
    cases hz
  have htended : s.sched.table.Tended :=
    Reach.invariant_over (I := fun t : State E ↦ t.sched.table.Tended) hinv hstart
      (fun t a u ht htended hok hnext ↦ (ht.effect hok.1 hnext).tended ht htended hok.2) h
  exact (hinv s h).reapable htended

theorem reapable_of_sheltered_exitInOrder :
    ∃ s, Reach next (fun t a ↦ t.NoWrap a ∧ t.Sheltered a) (init solo) s ∧
      s.sched.allProcessesEmpty = true ∧ s.Reapable := by
  refine exists_of_run exitInOrder (by decide +kernel) fun s hreach
    (hempty : s.sched.allProcessesEmpty = true) ↦ ?_
  exact ⟨hempty, reapable_of_sheltered solo s hreach⟩

def exitWithSuspended : List (Action Unit) :=
  bootSolo ++ serve 0 sysSpawn 0 3 ++ [⟨0, .image 0 1⟩] ++ advance 0 2 ++ serve 0 sysExit 0 3

/-- The slot of the child is a zombie of a dead parent: it stays so, and the machine never sees an
empty table again. -/
theorem slot_unreapable : ∃ s, Reach next State.NoWrap (init solo) s ∧
    (∀ c, (s.cores c).main.booting = false) ∧ (∀ i P, s.sched.processes i ≠ .occupied P) ∧
    s.sched.allProcessesEmpty = false ∧ ¬ s.Reapable := by
  refine exists_of_run exitWithSuspended (by decide +kernel) fun s _
    (hstate : (∀ c, (s.cores c).main.booting = false) ∧ (∀ i, (s.sched.processes i).frame = none) ∧
      s.sched.allProcessesEmpty = false) ↦ ?_
  obtain ⟨hboot, hnone, hempty⟩ := hstate
  have hlast : ∀ i P, s.sched.processes i ≠ .occupied P := by
    intro i P hP
    have hi := hnone i
    rw [hP] at hi
    cases hi
  refine ⟨hboot, hlast, hempty, fun hreap ↦ ?_⟩
  cases hempty.symm.trans (hreap.last hboot hlast)

end State

end Tarnos.Kernel
