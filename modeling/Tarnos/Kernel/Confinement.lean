import Tarnos.Kernel.Authority
import Tarnos.Kernel.Delivery

namespace Tarnos.Kernel

open Abi Arch Kcore Tarnos.Task Foundation.Transition Function Inner

variable {E : Type} {slot : CapabilitySlot (KernelObjectRef E)} {p : Pid} {P : Process E}
  {seeds : List (CapIndex × CapabilitySlot (KernelObjectRef E))}

namespace State

/-- Every record is stored under its own pid, a reservation belongs to one core, and a process
about to enter the table is suspended and holds nothing. -/
structure Housed (s : State E) : Prop where
  stored : ∀ p P, s.sched.view p = .occupied P → P.pid = p
  reserved : ∀ c p, (s.cores c).main.reserves = some p → s.sched.view p = .reserved
  apart : ∀ c d p, (s.cores c).main.reserves = some p → (s.cores d).main.reserves = some p → c = d
  bare : ∀ c P, (s.cores c).main.child = some P → P.capTable = CapTable.new ∧ P.state = .suspended

section Steps

variable {s s' : State E} {c : CoreId}

/-- A step keeps who is where if it stores records under their pids, takes only fresh
reservations and ends only its own. -/
theorem Housed.carry (h : s.Housed) (hothers : ∀ d, d ≠ c → s'.cores d = s.cores d)
    (hstored : ∀ p P', s'.sched.view p = .occupied P' → P'.pid = p)
    (hkeep : ∀ p, s.sched.view p = .reserved → s'.sched.view p = .reserved ∨
      (s.cores c).main.reserves = some p ∧ (s'.cores c).main.reserves = none)
    (hnew : ∀ p, (s'.cores c).main.reserves = some p → (s.cores c).main.reserves = some p ∨
      s'.sched.view p = .reserved ∧ s.sched.view p ≠ .reserved)
    (hbare : ∀ P, (s'.cores c).main.child = some P → (s.cores c).main.child = some P ∨
      P.capTable = CapTable.new ∧ P.state = .suspended) : s'.Housed := by
  refine ⟨hstored, fun d p hp ↦ ?_, ?_, fun d P hP ↦ ?_⟩
  · by_cases hd : d = c
    · subst hd
      rcases hnew p hp with hold | ⟨hreserved, -⟩
      · rcases hkeep p (h.reserved d p hold) with hreserved | ⟨-, hnone⟩
        · exact hreserved
        · rw [hp] at hnone
          cases hnone
      · exact hreserved
    · rw [hothers d hd] at hp
      rcases hkeep p (h.reserved d p hp) with hreserved | ⟨hc, -⟩
      · exact hreserved
      · exact absurd (h.apart d c p hp hc) hd
  · -- a fresh reservation was nobody's before
    have hfresh : ∀ d p, d ≠ c → (s.cores d).main.reserves = some p →
        (s'.cores c).main.reserves = some p → d = c := by
      intro d p hd hp hp'
      rcases hnew p hp' with hold | ⟨-, hnot⟩
      · exact h.apart d c p hp hold
      · exact absurd (h.reserved d p hp) hnot
    intro d e p hd he
    by_cases hdc : d = c <;> by_cases hec : e = c
    · rw [hdc, hec]
    · rw [hothers e hec] at he
      rw [hdc] at hd
      exact absurd (hfresh e p hec he hd) hec
    · rw [hothers d hdc] at hd
      rw [hec] at he
      exact absurd (hfresh d p hdc hd he) hdc
    · rw [hothers d hdc] at hd
      rw [hothers e hec] at he
      exact h.apart d e p hd he
  · by_cases hd : d = c
    · subst hd
      rcases hbare P hP with hold | hnew
      · exact h.bare d P hold
      · exact hnew
    · rw [hothers d hd] at hP
      exact h.bare d P hP

theorem Housed.release (h : s.Housed) {child : Pid}
    (hold : (s.cores c).main.reserves = Main.unplaced child) :
    s.sched.releaseReservation child = s.sched ∧ (s.cores c).main.reserves = none ∨
      (s.cores c).main.reserves = some child ∧
        ∀ q, (s.sched.releaseReservation child).view q =
          if q = child then .empty else s.sched.view q := by
  cases hslot : child.slot with
  | none =>
    refine .inl ⟨releaseReservation_full hslot, ?_⟩
    rw [hold, Main.unplaced, hslot]
    rfl
  | some i =>
    have hreserves : (s.cores c).main.reserves = some child := by rw [hold, unplaced_eq hslot]
    refine .inr ⟨hreserves, fun q ↦ ?_⟩
    have htable := (releaseReservation_reserved (h.reserved c child hreserves)).1
    exact (congrArg (fun t ↦ t.view q) htable).trans (Table.set_view ..)

theorem Housed.place (h : s.Housed) {i : Fin maxProcesses}
    (hreserves : (s.cores c).main.reserves = some p) (hslot : p.slot = some i) (slot : Slot E)
    (q : Pid) :
    (s.sched.setSlot i slot).view q = if q = p then slot else s.sched.view q := by
  have hview := h.reserved c p hreserves
  obtain ⟨j, hj, hpid, -⟩ := slot_of_eq hview
  rw [hslot] at hj
  cases hj
  rw [view_setSlot, ← hpid]

theorem reserves_rest (hmain : (s'.cores c).main = (s.cores c).main ∨ (s'.cores c).main.Bare)
    (hp : (s'.cores c).main.reserves = some p) : (s.cores c).main.reserves = some p := by
  rcases hmain with hsame | hbare
  · rwa [hsame] at hp
  · rw [hbare.reserves] at hp
    cases hp

theorem child_rest (hmain : (s'.cores c).main = (s.cores c).main ∨ (s'.cores c).main.Bare)
    (hP : (s'.cores c).main.child = some P) : (s.cores c).main.child = some P := by
  rcases hmain with hsame | hbare
  · rwa [hsame] at hP
  · rw [hbare.child] at hP
    cases hP

theorem mem_seeds {table : CapTable (KernelObjectRef E)}
    (h : slot ∈ (seeds.foldl (fun table seed ↦ table.insert seed.1 seed.2) table).iter) :
    slot ∈ table.iter ∨ slot ∈ seeds.map Prod.snd := by
  induction seeds generalizing table with
  | nil => exact .inl h
  | cons seed seeds ih =>
    rcases ih h with hslot | hslot
    · rcases CapTable.mem_iter_insert hslot with rfl | hold
      · exact .inr List.mem_cons_self
      · exact .inl hold
    · exact .inr (List.mem_cons_of_mem _ hslot)

theorem derived_seeds (p : Pid) (log : List (Event E)) (h : slot ∈ seeds.map Prod.snd) :
    Derived (seeds.map (fun seed ↦ .seeded p seed.2) ++ log) p slot := by
  induction seeds with
  | nil => cases h
  | cons seed seeds ih =>
    rcases List.mem_cons.mp h with rfl | hrest
    · exact .seeded
    · exact .later (ih hrest) (by simp)

theorem Housed.placed (h : s.Housed) {i : Fin maxProcesses}
    (hothers : ∀ d, d ≠ c → s'.cores d = s.cores d)
    (hreserves : (s.cores c).main.reserves = some p) (hslot : p.slot = some i) (hpid : P.pid = p)
    (hview : s'.sched.view = (s.sched.setSlot i (.occupied P)).view)
    (hmain : (s'.cores c).main.Bare) : s'.Housed := by
  refine h.carry hothers (fun q Q hQ ↦ ?_) (fun q hq ↦ ?_) (fun q hq ↦ ?_) fun Q hQ ↦ ?_
  · rw [hview, h.place hreserves hslot] at hQ
    split at hQ
    · rename_i hqp
      cases hQ
      rw [hqp, hpid]
    · exact h.stored q Q hQ
  · by_cases hqp : q = p
    · exact .inr ⟨hqp ▸ hreserves, hmain.reserves⟩
    · rw [hview, h.place hreserves hslot, if_neg hqp]
      exact .inl hq
  · rw [hmain.reserves] at hq
    cases hq
  · rw [hmain.child] at hQ
    cases hQ

theorem mem_bootProcess {boot : BootProcess E} {frame : ℕ} {entry : UInt64}
    (h : slot ∈ (boot.process p frame entry).capTable.iter) : slot ∈ boot.seeds.map Prod.snd :=
  (mem_seeds h).resolve_left List.not_mem_nil

variable [DecidableEq E]

theorem Housed.custody (h : s.Housed) (hothers : ∀ d, d ≠ c → s'.cores d = s.cores d)
    (hcustody : s.Custody c s') : s'.Housed := by
  cases hcustody with
  | rest new hkept hlog hnew hmain =>
    refine h.carry hothers (fun p P' hP' ↦ ?_) (fun p hp ↦ .inl (hkept.view_reserved hp))
      (fun p hp ↦ .inl (reserves_rest hmain hp)) fun P hP ↦ .inl (child_rest hmain hP)
    obtain ⟨P, hP, hbecame⟩ := hkept.view hP'
    rw [hbecame.pid, h.stored p P hP]
  | @reserve i hfree hsched hlog hgrants hchild hreserves =>
    have hview := view_allocatePid hfree
    refine h.carry hothers (fun p P' hP' ↦ ?_) (fun p hp ↦ .inl ?_) (fun p hp ↦ .inr ?_) fun P hP ↦ ?_
    · rw [hsched, hview] at hP'
      split at hP'
      · cases hP'
      · exact h.stored p P' hP'
    · rw [hsched, hview]
      split
      · rfl
      · exact hp
    · rw [hreserves] at hp
      cases hp
      rw [hsched, hview, if_pos rfl, view_freshPid]
      simp
    · rw [hchild] at hP
      cases hP
  | load hsched hlog hgrants hreserves hchild =>
    refine h.carry hothers (fun p P' hP' ↦ ?_) (fun p hp ↦ .inl ?_) (fun p hp ↦ .inl ?_)
      fun P hP ↦ .inr (hchild P hP)
    · rw [hsched] at hP'
      exact h.stored p P' hP'
    · rwa [hsched]
    · rwa [hreserves] at hp
  | @release child hold hsched hlog hmain =>
    rcases h.release hold with ⟨hsame, hnone⟩ | ⟨hreserves, hview⟩
    · refine h.carry hothers (fun p P' hP' ↦ ?_) (fun p hp ↦ .inl ?_) (fun p hp ↦ ?_) fun P hP ↦ ?_
      · rw [hsched, hsame] at hP'
        exact h.stored p P' hP'
      · rwa [hsched, hsame]
      · rw [hmain.reserves] at hp
        cases hp
      · rw [hmain.child] at hP
        cases hP
    · refine h.carry hothers (fun p P' hP' ↦ ?_) (fun p hp ↦ ?_) (fun p hp ↦ ?_) fun P hP ↦ ?_
      · rw [hsched, hview] at hP'
        split at hP'
        · cases hP'
        · exact h.stored p P' hP'
      · by_cases hpc : p = child
        · exact .inr ⟨hpc ▸ hreserves, hmain.reserves⟩
        · rw [hsched, hview, if_neg hpc]
          exact .inl hp
      · rw [hmain.reserves] at hp
        cases hp
      · rw [hmain.child] at hP
        cases hP
  | resolve slot hP hheld hobject hrights hsched hlog hgrants hreserves hchild =>
    refine h.carry hothers (fun p P' hP' ↦ ?_) (fun p hp ↦ .inl ?_) (fun p hp ↦ ?_) fun P hP ↦ ?_
    · rw [hsched] at hP'
      exact h.stored p P' hP'
    · rwa [hsched]
    · rw [hreserves] at hp
      cases hp
    · rw [hchild] at hP
      cases hP
  | @grant target caller dest slot P hold hP hparent hstate hsched hlog hmain =>
    have hview := view_setProcess (occupiedMut_eq_some.mp hP)
      { P with capTable := P.capTable.insert dest slot }
    refine h.carry hothers (fun p P' hP' ↦ ?_) (fun p hp ↦ .inl ?_) (fun p hp ↦ ?_) fun P hP ↦ ?_
    · rw [hsched, hview] at hP'
      split at hP'
      · rename_i hpt
        cases hP'
        rw [hpt]
        exact h.stored target P (occupiedMut_eq_some.mp hP)
      · exact h.stored p P' hP'
    · rw [hsched, hview, if_neg, hp]
      rintro rfl
      rw [occupiedMut_eq_some.mp hP] at hp
      cases hp
    · rw [hmain.reserves] at hp
      cases hp
    · rw [hmain.child] at hP
      cases hP
  | spawn hold hreserves hslot hsched hlog hmain =>
    exact h.placed hothers hreserves hslot rfl (by rw [hsched]) hmain
  | seed hreserves hslot hsched hlog hmain =>
    exact h.placed hothers hreserves hslot rfl (by rw [hsched, view_push]) hmain

/-- How the process `P'` that has pid `p` after a step came by its capabilities. -/
inductive Inherits (s s' : State E) (p : Pid) (P' : Process E) : Prop
  | same {P : Process E} (hP : s.sched.view p = .occupied P) (hbecame : P.Became P')
  | granted {P : Process E} {granter : Pid} {dest : CapIndex}
      {slot : CapabilitySlot (KernelObjectRef E)} (hP : s.sched.view p = .occupied P)
      (hparent : P.parent = some granter) (hstate : P.state = .suspended)
      (hnew : P' = { P with capTable := P.capTable.insert dest slot })
      (hlog : s'.log = .granted granter p slot :: s.log)
  | spawned (hP : s.sched.view p = .reserved) (hbare : P'.capTable = CapTable.new)
      (hstate : P'.state = .suspended) (hlog : s'.log = .spawned p :: s.log)
  | seeded (boot : BootProcess E) (frame : ℕ) (entry : UInt64) (hP : s.sched.view p = .reserved)
      (hnew : P' = boot.process p frame entry)
      (hlog : s'.log = boot.seeds.map (fun seed ↦ .seeded p seed.2) ++ s.log)

theorem Housed.inherits (h : s.Housed) (hcustody : s.Custody c s') {P' : Process E}
    (hP' : s'.sched.view p = .occupied P') : s.Inherits s' p P' := by
  cases hcustody with
  | rest new hkept hlog hnew hmain =>
    obtain ⟨P, hP, hbecame⟩ := hkept.view hP'
    exact .same hP hbecame
  | reserve hfree hsched hlog hgrants hchild hreserves =>
    rw [hsched, view_allocatePid hfree] at hP'
    split at hP'
    · cases hP'
    · exact .same hP' (.refl P')
  | load hsched hlog hgrants hreserves hchild
  | resolve slot hP hheld hobject hrights hsched hlog hgrants hreserves hchild =>
    rw [hsched] at hP'
    exact .same hP' (.refl P')
  | release hold hsched hlog hmain =>
    rcases h.release hold with ⟨hsame, -⟩ | ⟨-, hview⟩
    · rw [hsched, hsame] at hP'
      exact .same hP' (.refl P')
    · rw [hsched, hview] at hP'
      split at hP'
      · cases hP'
      · exact .same hP' (.refl P')
  | grant hold hP hparent hstate hsched hlog hmain =>
    have hview := occupiedMut_eq_some.mp hP
    rw [hsched, view_setProcess hview] at hP'
    split at hP'
    · rename_i hpt
      cases hP'
      subst hpt
      exact .granted hview hparent hstate rfl hlog
    · exact .same hP' (.refl P')
  | @spawn P i hold hreserves hslot hsched hlog hmain =>
    rw [hsched, h.place hreserves hslot] at hP'
    split at hP'
    · rename_i hpp
      cases hP'
      subst hpp
      exact .spawned (h.reserved c _ hreserves) (h.bare c _ hold).1 (h.bare c _ hold).2 hlog
    · exact .same hP' (.refl P')
  | @seed pid boot frame entry i hreserves hslot hsched hlog hmain =>
    rw [hsched, view_push, h.place hreserves hslot] at hP'
    split at hP'
    · rename_i hpp
      cases hP'
      subst hpp
      exact .seeded boot frame entry (h.reserved c _ hreserves) rfl hlog
    · exact .same hP' (.refl P')

theorem Housed.unspawned (h : s.Housed) (hcustody : s.Custody c s')
    (hP : s.sched.view p = .occupied P) : ∃ new, s'.log = new ++ s.log ∧ .spawned p ∉ new := by
  cases hcustody with
  | rest new hkept hlog hnew hmain =>
    refine ⟨new, hlog, fun hmem ↦ ?_⟩
    have hmessage := hnew _ hmem
    simp [Event.ofMessage] at hmessage
  | reserve hfree hsched hlog hgrants hchild hreserves | load hsched hlog hgrants hreserves hchild
  | release hold hsched hlog hmain => exact ⟨[], hlog, List.not_mem_nil⟩
  | resolve slot hP hheld hobject hrights hsched hlog hgrants hreserves hchild =>
    exact ⟨[_], hlog, by simp⟩
  | grant hold hP hparent hstate hsched hlog hmain => exact ⟨[_], hlog, by simp⟩
  | spawn hold hreserves hslot hsched hlog hmain =>
    refine ⟨[_], hlog, fun hmem ↦ ?_⟩
    simp only [List.mem_singleton, Event.spawned.injEq] at hmem
    rw [hmem, h.reserved c _ hreserves] at hP
    cases hP
  | seed hreserves hslot hsched hlog hmain => exact ⟨_, hlog, by simp⟩

/-- Every slot a process holds has a derivation, and so has every slot about to be granted. -/
structure Lawful (s : State E) : Prop where
  derived : ∀ p P slot, s.sched.view p = .occupied P → slot ∈ P.capTable.iter → Derived s.log p slot
  resolved : ∀ c caller slot, (s.cores c).main.grants = some (caller, slot) →
    Resolved s.log caller slot

theorem Housed.grants (h : s.Housed) (hcustody : s.Custody c s') {caller : Pid}
    (hgrants : (s'.cores c).main.grants = some (caller, slot)) :
    (s.cores c).main.grants = some (caller, slot) ∨
      ∃ P held, s.sched.view caller = .occupied P ∧ held ∈ P.capTable.iter ∧
        slot.object = held.object ∧ held.rights.contains slot.rights = true ∧
        s'.sched = s.sched ∧ s'.log = .resolved caller held :: s.log := by
  cases hcustody with
  | rest new hkept hlog hnew hmain =>
    rcases hmain with hsame | hbare
    · exact .inl (by rwa [hsame] at hgrants)
    · rw [hbare.grants] at hgrants
      cases hgrants
  | @resolve pid P held granted hP hheld hobject hrights hsched hlog hgrants' hreserves hchild =>
    rw [hgrants'] at hgrants
    cases hgrants
    have hview := occupiedMut_eq_some.mp hP
    have hpid := h.stored pid P hview
    exact .inr ⟨P, held, hpid ▸ hview, hheld, hobject, hrights, hsched, hlog⟩
  | reserve _ _ _ hnone | load _ _ hnone =>
    rw [hnone] at hgrants
    cases hgrants
  | release _ _ _ hbare | grant _ _ _ _ _ _ hbare | spawn _ _ _ _ _ hbare | seed _ _ _ _ hbare =>
    rw [hbare.grants] at hgrants
    cases hgrants

theorem Custody.log (hcustody : s.Custody c s') : ∃ new, s'.log = new ++ s.log := by
  cases hcustody with
  | rest new _ hlog => exact ⟨new, hlog⟩
  | reserve _ _ hlog | load _ hlog | release _ _ hlog => exact ⟨[], hlog⟩
  | resolve _ _ _ _ _ _ hlog | grant _ _ _ _ _ hlog | spawn _ _ _ _ hlog =>
    exact ⟨[_], hlog⟩
  | seed _ _ _ hlog => exact ⟨_, hlog⟩

theorem Custody.granted_of_log (hcustody : s.Custody c s') {granter target : Pid}
    (hlog : s'.log = .granted granter target slot :: s.log) :
    (s.cores c).main.grants = some (granter, slot) := by
  cases hcustody with
  | rest new _ hlog' hnew =>
    rw [hlog, ← List.singleton_append] at hlog'
    have hmessage := hnew (.granted granter target slot)
      (List.append_cancel_right hlog' ▸ List.mem_singleton_self _)
    cases hmessage
  | reserve _ _ hlog' | load _ hlog' | release _ _ hlog' =>
    rw [hlog'] at hlog
    exact absurd hlog.symm (List.cons_ne_self _ _)
  | resolve _ _ _ _ _ _ hlog' | spawn _ _ _ _ hlog' =>
    rw [hlog'] at hlog
    cases hlog
  | grant hold _ _ _ _ hlog' =>
    rw [hlog'] at hlog
    cases hlog
    exact hold
  | seed _ _ _ hlog' =>
    rw [hlog, ← List.singleton_append] at hlog'
    have hmem : Event.granted granter target slot ∈ [Event.granted granter target slot] :=
      List.mem_singleton_self _
    rw [List.append_cancel_right hlog'] at hmem
    simp at hmem

theorem Lawful.custody (h : s.Lawful) (hhoused : s.Housed)
    (hothers : ∀ d, d ≠ c → s'.cores d = s.cores d) (hcustody : s.Custody c s') : s'.Lawful := by
  refine ⟨fun p P' slot hP' hslot ↦ ?_, fun d caller slot hgrants ↦ ?_⟩
  · cases hhoused.inherits hcustody hP' with
    | @same P hP hbecame =>
      obtain ⟨new, hlog, hnew⟩ := hhoused.unspawned hcustody hP
      rw [hbecame.capTable] at hslot
      rw [hlog]
      exact (h.derived p P slot hP hslot).append hnew
    | granted hP hparent hstate hnew hlog =>
      rw [hnew] at hslot
      rw [hlog]
      rcases CapTable.mem_iter_insert hslot with rfl | hold
      · exact (h.resolved c _ _ (hcustody.granted_of_log hlog)).derived p
      · exact .later (h.derived p _ slot hP hold) (by simp)
    | spawned hP hbare hstate hlog =>
      rw [hbare] at hslot
      cases hslot
    | seeded boot frame entry hP hnew hlog =>
      rw [hnew] at hslot
      rw [hlog]
      exact derived_seeds p s.log (mem_bootProcess hslot)
  · obtain ⟨new, hlog⟩ := hcustody.log
    by_cases hd : d = c
    · subst hd
      rcases hhoused.grants hcustody hgrants with hold | ⟨P, held, hP, hheld, hobject, hrights, -, hlog⟩
      · rw [hlog]
        exact (h.resolved d caller slot hold).append new
      · rw [hlog]
        exact ⟨[], s.log, held, rfl, h.derived caller P held hP hheld, hobject, hrights⟩
    · rw [hothers d hd] at hgrants
      rw [hlog]
      exact (h.resolved d caller slot hgrants).append new

end Steps

section Runs

variable {s : State E} {config : BootConfig E}

theorem housed_init (config : BootConfig E) : (init config).Housed := by
  have hview : ∀ p, (init config).sched.view p = .empty := view_init
  have hmain : ∀ c, ((init config).cores c).main.Bare := by
    intro c
    simp only [init]
    split_ifs <;> exact ⟨rfl, rfl, rfl⟩
  refine ⟨fun p P hP ↦ ?_, fun c p hp ↦ ?_, fun c d p hp _ ↦ ?_, fun c P hP ↦ ?_⟩
  · rw [hview] at hP
    cases hP
  · rw [(hmain c).reserves] at hp
    cases hp
  · rw [(hmain c).reserves] at hp
    cases hp
  · rw [(hmain c).child] at hP
    cases hP

theorem lawful_init (config : BootConfig E) : (init config).Lawful := by
  refine ⟨fun p P slot hP ↦ ?_, fun c caller slot hgrants ↦ ?_⟩
  · rw [show (init config).sched.view p = .empty from view_init p] at hP
    cases hP
  · simp only [init] at hgrants
    split_ifs at hgrants <;> cases hgrants

variable [DecidableEq E]

theorem lawful_of_reach {ok : State E → Action E → Prop}
    (h : Reach next ok (init config) s) : s.Housed ∧ s.Lawful := by
  refine h.invariant (I := fun t : State E ↦ t.Housed ∧ t.Lawful)
    ⟨housed_init config, lawful_init config⟩ ?_
  intro t a u ht _ hnext
  have hturn := next_turn hnext
  have hothers : ∀ d, d ≠ a.core → u.cores d = t.cores d := fun d hd ↦ hturn.others hd
  exact ⟨ht.1.custody hothers hturn.custody, ht.2.custody ht.1 hothers hturn.custody⟩

end Runs

def Confined (s : State E) : Prop :=
  ∀ p P slot, s.sched.view p = .occupied P → slot ∈ P.capTable.iter → Derived s.log p slot ∧
    ∃ boot rights, .seeded boot ⟨slot.object, rights⟩ ∈ s.log ∧ rights.contains slot.rights = true

def Warranted (s s' : State E) : Event E → Prop
  | .seeded p slot => s.sched.view p = .reserved ∧ ∃ (boot : BootProcess E) (frame : ℕ)
      (entry : UInt64),
      slot ∈ boot.seeds.map Prod.snd ∧ s'.sched.view p = .occupied (boot.process p frame entry)
  | .spawned p => s.sched.view p = .reserved ∧
      ∃ P, s'.sched.view p = .occupied P ∧ P.capTable = CapTable.new ∧ P.state = .suspended
  | .resolved granter held => ∃ P, s.sched.view granter = .occupied P ∧ held ∈ P.capTable.iter
  | .granted granter target slot => ∃ P dest, s.sched.view target = .occupied P ∧
      P.parent = some granter ∧ P.state = .suspended ∧
      s'.sched.view target = .occupied { P with capTable := P.capTable.insert dest slot }
  | _ => True

def granting (s : State E) (c : CoreId) : Prop :=
  (s.cores c).errands = [] ∧ ∃ f, (s.cores c).main = .withCurrent .grant f ∨
    (∃ pid, (s.cores c).main = .withProcess .grant pid f) ∨
    ∃ target dest slot caller, (s.cores c).main = .grant target dest slot caller f

/-- The rules a step of core `c` keeps to. -/
structure Disciplined (s : State E) (c : CoreId) (s' : State E) : Prop where
  log : ∃ new, s'.log = new ++ s.log ∧ ∀ x ∈ new, s.Warranted s' x
  tables : ∀ p P', s'.sched.view p = .occupied P' → s.Inherits s' p P'
  settled : ∀ p P P', s.sched.view p = .occupied P → s'.sched.view p = .occupied P' →
    P.state ≠ .suspended → P'.capTable = P.capTable ∧ P'.state ≠ .suspended
  refused : s.granting c → ∀ f, (s'.cores c).main = .leave f → f.rax ≠ 0 → s'.sched = s.sched

def Backed (s : State E) : Prop :=
  ∀ c caller slot, (s.cores c).main.grants = some (caller, slot) → s.sched.current c = some caller ∧
    ∃ P held, s.sched.view caller = .occupied P ∧ held ∈ P.capTable.iter ∧
      slot.object = held.object ∧ held.rights.contains slot.rights = true

section Discipline

variable {s s' : State E} {c : CoreId} {config : BootConfig E}

theorem warranted_ofMessage {x : Event E} (h : x.ofMessage = true) : s.Warranted s' x := by
  cases x <;> trivial

theorem Inherits.settled {P' : Process E} (h : s.Inherits s' p P')
    (hP : s.sched.view p = .occupied P) (hstate : P.state ≠ .suspended) :
    P'.capTable = P.capTable ∧ P'.state ≠ .suspended := by
  cases h with
  | same hQ hbecame =>
    rw [hP] at hQ
    cases hQ
    exact ⟨hbecame.capTable, fun hs ↦ hstate (hbecame.suspended hs)⟩
  | granted hQ _ hs =>
    rw [hP] at hQ
    cases hQ
    exact absurd hs hstate
  | spawned hQ | seeded _ _ _ hQ =>
    rw [hP] at hQ
    cases hQ

theorem caller_of_grants {m : Main E} {caller : Pid}
    (h : m.grants = some (caller, slot)) : m.caller = some caller := by
  cases m <;> cases h
  rfl

variable [DecidableEq E]

theorem Housed.warranted (h : s.Housed) (hcustody : s.Custody c s') :
    ∃ new, s'.log = new ++ s.log ∧ ∀ x ∈ new, s.Warranted s' x := by
  cases hcustody with
  | rest new _ hlog hnew => exact ⟨new, hlog, fun x hx ↦ warranted_ofMessage (hnew x hx)⟩
  | reserve _ _ hlog | load _ hlog | release _ _ hlog => exact ⟨[], hlog, by simp⟩
  | @resolve pid P held slot hP hheld _ _ _ hlog =>
    have hview := occupiedMut_eq_some.mp hP
    refine ⟨[_], hlog, ?_⟩
    simp only [List.mem_singleton, forall_eq]
    exact ⟨P, h.stored pid P hview ▸ hview, hheld⟩
  | @grant target caller dest slot P _ hP hparent hstate hsched hlog =>
    have hview := occupiedMut_eq_some.mp hP
    refine ⟨[_], hlog, ?_⟩
    simp only [List.mem_singleton, forall_eq]
    refine ⟨P, dest, hview, hparent, hstate, ?_⟩
    rw [hsched, view_setProcess hview, if_pos rfl]
  | @spawn P i hold hreserves hslot hsched hlog =>
    refine ⟨[_], hlog, ?_⟩
    simp only [List.mem_singleton, forall_eq]
    refine ⟨h.reserved c _ hreserves, P, ?_, h.bare c P hold⟩
    rw [hsched, h.place hreserves hslot, if_pos rfl]
  | @seed pid boot frame entry i hreserves hslot hsched hlog =>
    refine ⟨_, hlog, fun x hx ↦ ?_⟩
    obtain ⟨seed, hseed, rfl⟩ := List.mem_map.mp hx
    refine ⟨h.reserved c _ hreserves, boot, frame, entry, List.mem_map_of_mem hseed, ?_⟩
    rw [hsched, view_push, h.place hreserves hslot, if_pos rfl]

/-- Inside `SYS_GRANT` nothing is written except by the grant that returns 0. -/
theorem refused_of_next {a : Action E} (hs : s.next a = some s') (hgranting : s.granting a.core)
    {f : TrapFrame} (hmain : (s'.cores a.core).main = .leave f) (hrax : f.rax ≠ 0) :
    s'.sched = s.sched := by
  obtain ⟨herr, g, hg⟩ := hgranting
  have hstep := step_of_next hs
  simp only [step, herr] at hstep
  rcases hg with hg | ⟨pid, hg⟩ | ⟨target, dest, slot, caller, hg⟩ <;>
    simp only [hg, mainStep] at hstep
  · unfold withCurrent at hstep
    split at hstep <;> (cases hstep; rfl)
  · unfold withProcess at hstep
    split at hstep
    · cases hstep
      rfl
    · rename_i P hP
      cases hstep
      have hrecord : ∀ t : State E, (t.recordResolve P g .grant).sched = t.sched := by
        intro t
        unfold recordResolve
        split <;> rfl
      exact (hrecord _).trans (setProcess_self (occupiedMut_eq_some.mp hP))
  · unfold grant at hstep
    split at hstep
    · cases hstep
      rfl
    · split at hstep
      · cases hstep
        rfl
      · cases hstep
        rw [goto_main] at hmain
        cases hmain
        exact absurd rfl hrax

theorem Housed.disciplined (h : s.Housed) {a : Action E} (hs : s.next a = some s') :
    s.Disciplined a.core s' := by
  have hcustody := (next_turn hs).custody
  exact ⟨h.warranted hcustody, fun p P' hP' ↦ h.inherits hcustody hP',
    fun p P P' hP hP' ↦ (h.inherits hcustody hP').settled hP,
    fun hgranting f hmain hrax ↦ refused_of_next hs hgranting hmain hrax⟩

variable [Fintype E]

theorem backed_of_reach (h : Reach next State.NoWrap (init config) s) : s.Backed := by
  have hinv : ∀ t, Reach next State.NoWrap (init config) t → t.Inv False ∧ t.Housed :=
    fun t ht ↦ ⟨inv_of_noWrap (fun _ _ hok ↦ hok) ht, (lawful_of_reach ht).1⟩
  have hcurrent : ∀ t : State E, t.Inv False → ∀ c caller slot,
      (t.cores c).main.grants = some (caller, slot) → t.sched.current c = some caller :=
    fun t ht c caller slot hgrants ↦ ht.scene.cores.caller c caller (caller_of_grants hgrants)
  refine Reach.invariant_over hinv (fun c caller slot hgrants ↦ ?_) ?_ h
  · simp only [init] at hgrants
    split_ifs at hgrants <;> cases hgrants
  · intro t a u ht hbacked hok hnext d caller slot hgrants
    have hcustody := (next_turn hnext).custody
    have hu : u.Inv False := ht.1.next hok False.elim hnext
    refine ⟨hcurrent u hu d caller slot hgrants, ?_⟩
    have hold : (t.cores d).main.grants = some (caller, slot) → ∃ P held,
        u.sched.view caller = .occupied P ∧ held ∈ P.capTable.iter ∧ slot.object = held.object ∧
          held.rights.contains slot.rights = true := by
      intro hgrants'
      obtain ⟨hc, P, held, hP, hheld, hcovers⟩ := hbacked d caller slot hgrants'
      obtain ⟨P', hP'⟩ := isLive_iff.mp (hu.live_of_caller (caller_of_grants hgrants))
      have hrunning : P.state = .running := ht.1.scene.state_running hc hP
      have hsettled := (ht.2.inherits hcustody hP').settled hP (by rw [hrunning]; simp)
      exact ⟨P', held, hP', hsettled.1 ▸ hheld, hcovers⟩
    by_cases hd : d = a.core
    · subst hd
      rcases ht.2.grants hcustody hgrants with hgrants' |
        ⟨P, held, hP, hheld, hobject, hrights, hsched, -⟩
      · exact hold hgrants'
      · exact ⟨P, held, hsched ▸ hP, hheld, hobject, hrights⟩
    · rw [(next_turn hnext).others hd] at hgrants
      exact hold hgrants

/-- Every capability anyone holds comes from a boot seed by grants that pass on no more than the
granter holds; tables change in no other way. As long as no generation counter wrapped, the
granter also holds the capability when the slot is written. -/
theorem confined_of_reach (config : BootConfig E) (s : State E)
    (h : Reach next (fun _ _ ↦ True) (init config) s) :
    s.Confined ∧ (∀ a s', s.next a = some s' → s.Disciplined a.core s') ∧
      (Reach next State.NoWrap (init config) s → s.Backed) := by
  obtain ⟨hhoused, hlawful⟩ := lawful_of_reach h
  refine ⟨fun p P slot hP hslot ↦ ?_, fun a s' hs ↦ hhoused.disciplined hs, backed_of_reach⟩
  have hderived := hlawful.derived p P slot hP hslot
  exact ⟨hderived, hderived.root⟩

theorem confined_of_reach_granted :
    ∃ s, Reach next (fun _ _ ↦ True) (init soloEndpoint) s ∧
      (∃ P, s.sched.occupiedMut twin = some P ∧ P.capTable.iter ≠ []) ∧ s.Confined := by
  refine exists_of_run (bootSolo ++ spawnOn 0 1 ++ grantTo twin 2) (by decide +kernel) fun s hreach
    (hgranted : (s.sched.occupiedMut twin).any (fun P ↦ decide (P.capTable.iter ≠ [])) = true) ↦ ?_
  obtain ⟨P, hP, hslots⟩ := (Option.any_eq_true _ _).mp hgranted
  exact ⟨⟨P, hP, of_decide_eq_true hslots⟩, (confined_of_reach soloEndpoint s hreach).1⟩

end Discipline

end State

end Tarnos.Kernel
