import Tarnos.Kernel.Errands
import Tarnos.Kernel.Turn

namespace Tarnos.Kernel

open Abi Arch Kcore Tarnos.Task Function Inner Main

variable {E : Type} {g : TrapFrame} {sched : Inner E} {caller : Pid}

namespace State

variable {s b s' : State E} {c : CoreId} {core : Core E} {m m' : Main E} {choice : Choice E}
  {strict : Prop} {p : Pid} {P : Process E} {f : TrapFrame}

def released : Main E := .switchNext none []

theorem released_plain : (released : Main E).Plain := ⟨rfl, rfl, rfl, rfl, rfl⟩

theorem dispatch_released (t : Table E) (q : Pid) (Q : Process E) :
    t.dispatch c q Q = (t.setCurrent c none).dispatch c q Q := by
  refine Table.ext rfl rfl (funext fun d ↦ ?_) rfl
  rw [Table.dispatch_current, Table.dispatch_current]
  by_cases hd : d = c
  · rw [if_pos hd, if_pos hd]
  · rw [if_neg hd, if_neg hd, Table.setCurrent_current, if_neg hd]

theorem errandsTokens_housekeeping {errands : List (Errand E)}
    (h : ∀ x ∈ errands, x.housekeeping = true) (p : Pid) : errandsTokens p errands = 0 := by
  refine List.sum_eq_zero fun n hn ↦ ?_
  obtain ⟨x, hx, rfl⟩ := List.mem_map.mp hn
  have hkeeping := h x hx
  cases x with
  | runReadyTasks | dropBox | clearStackBusy => rfl
  | _ => cases hkeeping

section

variable [Fintype E]

theorem scene_core (herr : (s.cores c).errands = []) (hcores : b.cores = s.cores)
    (hendpoints : b.endpoints = s.endpoints) (hfree : ∀ p, errandsTokens p core.errands = 0) :
    (b.setCore c core).scene =
      { s.scene.goto c core.main with table := b.sched.table, evict := b.evictRequest } := by
  have htokens : b.tokens = s.tokens := by
    funext p
    unfold tokens
    rw [hcores, hendpoints]
  rw [scene_setCore fun p ↦ by rw [hfree p, hcores, herr, errandsTokens_nil]]
  simp [scene, Scene.goto, htokens, hcores]

theorem main_core (hmain : (s.cores c).main = m) : s.scene.main c = m := hmain

theorem Inv.of_table {t : Table E} (herr : (s.cores c).errands = []) (hhonest : b.sched.Honest)
    (htable : b.sched.table = t)
    (hy : ({ s.scene.goto c core.main with table := t, evict := b.evictRequest } :
      Scene E).Inv strict)
    (hfree : ∀ p, errandsTokens p core.errands = 0) (hcores : b.cores = s.cores)
    (hendpoints : b.endpoints = s.endpoints) : (b.setCore c core).Inv strict := by
  refine ⟨hhonest, ?_⟩
  rw [scene_core herr hcores hendpoints hfree, htable]
  exact hy

theorem Inv.current_of_attached (h : s.Inv strict) (hmain : (s.cores c).main = m)
    (hattached : m.attached = true) : ∃ p P, s.sched.current c = some p ∧
      s.sched.view p = .occupied P ∧ P.state = .running ∧ P.pid = p := by
  have hsome := h.scene.cores.attached c
  rw [main_core hmain, hattached] at hsome
  obtain ⟨p, hp⟩ := Option.isSome_iff_exists.mp hsome.symm
  obtain ⟨P, hP, hrun⟩ := h.scene.sound.running c p hp
  exact ⟨p, P, hp, hP, hrun, h.scene.sound.stored p P hP⟩

theorem Inv.current_of_caller (h : s.Inv strict) (hmain : (s.cores c).main = m)
    (hcaller : m.caller = some p) : s.sched.current c = some p := by
  refine h.scene.cores.caller c p ?_
  rw [main_core hmain]
  exact hcaller

theorem Inv.shift (h : s.Inv strict) (herr : (s.cores c).errands = [])
    (hmain : (s.cores c).main = m) (hhonest : s.sched.Honest → b.sched.Honest)
    (htable : b.sched.table = s.sched.table)
    (hcaller : ∀ p, core.main.caller = some p → s.sched.current c = some p := by simp [caller])
    (hkills : ∀ r, core.main.kills = some r → m.kills = some r ∨
      ∃ q, s.sched.current c = some q ∧ ChildOf s.sched.table q r := by simp [kills])
    (hkept : ∀ r, m.kills = some r → core.main.kills = some r ∨ ¬ s.sched.table.Live r := by
      simp [kills])
    (hevict : ∀ d, b.evictRequest d = s.evictRequest d ∨ b.evictRequest d = 0 ∨
      core.main.kills = some ⟨b.evictRequest d⟩ := by exact fun _ ↦ .inl rfl)
    (hchild : ∀ P, core.main.child = some P → P.parent = s.sched.current c ∧
      P.state = .suspended ∧ P.waitWaiter = none ∧ P.pendingWake = none := by simp [child])
    (hfree : ∀ p, errandsTokens p core.errands = 0 := by simp [errandTokens])
    (hattached : core.main.attached = m.attached := by rfl)
    (hreserves : core.main.reserves = m.reserves := by rfl)
    (hparks : core.main.parks = m.parks := by rfl)
    (hcores : b.cores = s.cores := by rfl) (hendpoints : b.endpoints = s.endpoints := by rfl) :
    (b.setCore c core).Inv strict := by
  have hm := main_core hmain
  refine .of_table herr (hhonest h.honest) htable ?_ hfree hcores hendpoints
  refine h.scene.move (by rw [hm, hattached]) hcaller hchild (by rw [hm, hreserves])
    (fun r hr ↦ ?_) (fun r hr ↦ hkept r (by rw [← hr, hm])) (by rw [hm, hparks]) hevict
  rcases hkills r hr with hold | hnew
  · exact h.scene.cores.kills c r (by rw [hm]; exact hold)
  · exact hnew

def letGo (s : State E) (c : CoreId) (sched : Inner E) : Scene E :=
  { s.scene.goto c released with table := sched.table }

theorem Inv.preempted (h : s.Inv strict) (hmain : (s.cores c).main = .onTimerTick f) :
    ∃ p P sched, s.sched.current c = some p ∧ s.sched.view p = .occupied P ∧
      s.sched.preemptCurrent c f = .ok sched ∧ sched.Honest ∧
      sched.table.setCurrent c none =
        s.sched.table.letGo c p { P with trapFrame := f, state := .ready } [p] ∧
      (s.letGo c (sched.setCurrent c none)).Inv strict := by
  obtain ⟨p, P, hc, hP, hrun, -⟩ := h.current_of_attached hmain rfl
  have hm := main_core hmain
  have hroom := queue_length_lt_of_occupied h.scene.sound hP (by rw [hrun]; simp)
  obtain ⟨htable, hhonest⟩ :=
    table_setProcess_push hP { P with trapFrame := f, state := .ready } hroom
  refine ⟨p, P, _, hc, hP, preemptCurrent_running hc hP f, hhonest h.honest,
    congrArg (Table.setCurrent · c none) htable, ?_⟩
  have hpid : { P with trapFrame := f, state := .ready }.pid = P.pid := rfl
  have hy := h.scene.preempt (c := c) (m := released) hc hP rfl released_plain (by rw [hm]; rfl)
    (by rw [hm]; rfl) (by rw [hm]; rfl) hpid rfl rfl rfl rfl
  unfold letGo
  rw [table_setCurrent, htable]
  exact hy

theorem Inv.blocked (h : s.Inv strict) (hmain : (s.cores c).main = .blockCurrent f) :
    ∃ p P sched, s.sched.current c = some p ∧ s.sched.view p = .occupied P ∧
      s.sched.blockCurrentProcessLocked c f = .ok sched ∧ sched.Honest ∧
      sched.table = s.sched.table.letGo c p (blockedRecord P f) (joins p P) ∧
      (s.letGo c sched).Inv strict := by
  obtain ⟨p, P, hc, hP, hrun, -⟩ := h.current_of_attached hmain rfl
  have hm := main_core hmain
  have hroom := queue_length_lt_of_occupied h.scene.sound hP (by rw [hrun]; simp)
  obtain ⟨sched, hblock, htable, hhonest⟩ := blockCurrentProcessLocked_running hc hP hroom f
  obtain ⟨hpid, -, hparent, hwaiter, -⟩ := blockedRecord_fields P f
  refine ⟨p, P, sched, hc, hP, hblock, hhonest h.honest, htable, ?_⟩
  unfold letGo
  rw [htable]
  cases hpending : P.pendingWake with
  | none =>
    rw [joins, hpending]
    exact h.scene.block (c := c) (m := released) hc hP rfl released_plain (by rw [hm]; rfl)
      (by rw [hm]; rfl) (by rw [hm]; rfl) hpid hparent hwaiter
      (by simp [blockedRecord, hpending]) hpending (by simp [blockedRecord, hpending])
  | some pending =>
    rw [joins, hpending]
    exact h.scene.blockWoken (c := c) (m := released) hc hP rfl released_plain
      (by rw [hm]; rfl) (by rw [hm]; rfl) hpid hparent hwaiter
      (by simp [blockedRecord, hpending]) (by rw [hpending]; rfl)
      (by simp [blockedRecord, hpending])

theorem Inv.waiting {target : Pid} (h : s.Inv strict)
    (hmain : (s.cores c).main = .waitForChild target caller f)
    (hwait : s.sched.waitOutcome target caller = .mustBlock) :
    ∃ P Q sched, s.sched.current c = some caller ∧ s.sched.view caller = .occupied P ∧
      s.sched.view target = .occupied Q ∧ target ≠ caller ∧
      (s.sched.waitForChild target caller).blockCurrentProcessLocked c f = .ok sched ∧
      sched.Honest ∧
      sched.table = (s.sched.table.set target (.occupied { Q with waitWaiter := some caller })).letGo
        c caller { P with trapFrame := f, state := .blocked } [] ∧
      (s.letGo c sched).Inv strict := by
  have hc := h.current_of_caller hmain rfl
  obtain ⟨P, hP, hrun⟩ := h.scene.sound.running c caller hc
  have hm := main_core hmain
  obtain ⟨Q, hQ, hchild, heq⟩ := waitForChild_block hwait
  have hself : target ≠ caller := ((h.scene.sound.parent target Q caller hQ hchild).1).symm
  have htouch := table_setProcess hQ { Q with waitWaiter := some caller }
  obtain ⟨hready, hcur, -, hhist⟩ := setProcess_fields hQ { Q with waitWaiter := some caller }
  rw [← heq] at htouch hready hcur hhist
  generalize s.sched.waitForChild target caller = touched at htouch hready hcur hhist
  have hc' : touched.current c = some caller := by rw [hcur, hc]
  have hP' : touched.view caller = .occupied P := by
    rw [← table_view, htouch, Table.set_of_ne hself.symm]
    exact hP
  obtain ⟨-, hnone⟩ := h.scene.calm_current hc hP (by rw [hm]; rfl)
  have hqueue : touched.queue = s.sched.queue := by
    unfold queue
    rw [hready]
  have hroom : touched.queue.length < maxProcesses :=
    hqueue ▸ queue_length_lt_of_occupied h.scene.sound hP (by rw [hrun]; simp)
  obtain ⟨sched, hblock, htable, hhonest⟩ :=
    blockCurrentProcessLocked_running hc' hP' hroom f
  have hhonest' : touched.Honest := h.honest.congr hqueue hhist
  rw [htouch, blockedRecord_of_none hnone, joins_of_none hnone] at htable
  refine ⟨P, Q, sched, hc, hP, hQ, hself, hblock, hhonest hhonest', htable, ?_⟩
  have hpid : { P with trapFrame := f, state := .blocked }.pid = P.pid := rfl
  have hy := h.scene.wait (c := c) (m := released) (q := target) (Q := Q) hc hP rfl released_plain
    (by rw [hm]; rfl) (by rw [hm]; rfl) (by rw [hm]; rfl) hpid rfl rfl hnone rfl hQ hchild
  unfold letGo
  rw [htable]
  exact hy

theorem Inv.stay (h : s.Inv strict) (herr : (s.cores c).errands = [])
    (hmain : (s.cores c).main = m) (hstay : s.Stay c m m') : (s.goto c m' []).Inv strict := by
  cases hstay with
  | caller hc | exits hc => exact h.shift herr hmain id rfl fun p hp ↦ hc.trans hp
  | @killAllowed target caller _ hmay =>
    obtain ⟨T, hT, hpar⟩ := mayTerminate_iff.mp hmay
    refine h.shift herr hmain id rfl (by simp!) fun r hr ↦ .inr ⟨caller, ?_, ?_⟩
    · exact h.current_of_caller hmain rfl
    · cases hr
      exact .inl ⟨T, hT, hpar⟩
  | exitsNone hnone =>
    obtain ⟨p, P, hc, -⟩ := h.current_of_attached hmain rfl
    rw [hnone] at hc
    cases hc
  | _ => exact h.shift herr hmain id rfl

theorem Inv.preempted_pop {popped : Inner E} (h : s.Inv strict)
    (hmain : (s.cores c).main = .onTimerTick f) (hpre : s.sched.preemptCurrent c f = .ok sched) :
    sched.pop ≠ (none, popped) := by
  intro hpop
  obtain ⟨p, P, _, -, -, hpre', -, htable, -⟩ := h.preempted hmain
  cases hpre.symm.trans hpre'
  have hqueue : sched.queue = s.sched.queue ++ [p] := congrArg Table.queue htable
  rw [(pop_none hpop).1] at hqueue
  simp at hqueue

theorem Inv.yields (h : s.Inv strict) (hmain : (s.cores c).main = m) (hyields : s.Yields c m b) :
    (b.cores = s.cores ∧ b.endpoints = s.endpoints) ∧ b.sched.Honest ∧
      (b.sched.current c = none ∨ b.sched.queue ≠ []) ∧
      ({ s.scene.goto c released with
        table := b.sched.table.setCurrent c none, evict := b.evictRequest } : Scene E).Inv strict := by
  have hm := main_core hmain
  have hfree : ∀ {sched : Inner E}, sched.table.current c = none →
      sched.table.setCurrent c none = sched.table := fun hnone ↦
    Table.ext rfl rfl (by rw [← hnone]; exact update_eq_self c _) rfl
  cases hyields with
  | @tick _ sched hpre =>
    obtain ⟨p, P, _, -, -, hpre', hhonest, htable, hy⟩ := h.preempted hmain
    cases hpre.symm.trans hpre'
    refine ⟨⟨rfl, rfl⟩, hhonest, .inr ?_, hy⟩
    change sched.queue ≠ []
    rw [show sched.queue = s.sched.queue ++ [p] from congrArg Table.queue htable]
    exact List.append_ne_nil_of_right_ne_nil _ (List.cons_ne_nil p [])
  | @block _ sched hblock =>
    obtain ⟨p, P, _, -, -, hblock', hhonest, htable, hy⟩ := h.blocked hmain
    cases hblock.symm.trans hblock'
    have hnone : sched.table.current c = none := by simp [htable, Table.letGo]
    exact ⟨⟨rfl, rfl⟩, hhonest, .inl hnone, (hfree hnone).symm ▸ hy⟩
  | @wait _ _ _ sched hwait hblock =>
    obtain ⟨P, Q, _, -, -, -, -, hblock', hhonest, htable, hy⟩ := h.waiting hmain hwait
    cases hblock.symm.trans hblock'
    have hnone : sched.table.current c = none := by simp [htable, Table.letGo]
    exact ⟨⟨rfl, rfl⟩, hhonest, .inl hnone, (hfree hnone).symm ▸ hy⟩
  | evict hraw hne =>
    obtain ⟨p, P, hc, hP, -, -⟩ := h.current_of_attached hmain rfl
    rw [hc] at hraw
    have hnone : (s.sched.setCurrent c none).table.current c = none := by
      simp [table_setCurrent]
    refine ⟨⟨rfl, rfl⟩, h.honest.congr rfl rfl, .inl hnone, (hfree hnone).symm ▸ ?_⟩
    exact h.scene.evictCurrent hc hP rfl released_plain (by rw [hm]; rfl) (by rw [hm]; rfl)
      (by rw [hm]; rfl) (Option.some.inj hraw).symm hne
  | next | idle =>
    have hnone : s.sched.table.current c = none := by
      have hattached := h.scene.cores.attached c
      rw [hm] at hattached
      exact Option.isNone_iff_eq_none.mp (Option.isSome_eq_false_iff.mp hattached.symm)
    refine ⟨⟨rfl, rfl⟩, h.honest, .inl hnone, (hfree hnone).symm ▸ ?_⟩
    exact h.scene.move (by rw [hm]; rfl) (by simp [caller, released])
      (by simp [child, released]) (by rw [hm]; rfl) (by simp [kills, released])
      (fun r hr ↦ by rw [hm] at hr; cases hr) (by rw [hm]; rfl) fun d ↦ .inl rfl

/-- What core `c` can leave in the slot of `p` when it yields at a main step: the process given up
is saved, and a child that is waited for learns of its waiter. -/
inductive Stows (s : State E) (c : CoreId) (p : Pid) : Main E → Slot E → Prop
  | same {m : Main E} (hother : s.sched.current c = some p → ∃ f, m = .onRescheduleIpi f) :
      Stows s c p m (s.sched.view p)
  | preempted {P : Process E} {f : TrapFrame} (hc : s.sched.current c = some p)
      (hP : s.sched.view p = .occupied P) :
      Stows s c p (.onTimerTick f) (.occupied { P with trapFrame := f, state := .ready })
  | blocked {P : Process E} {f : TrapFrame} (hc : s.sched.current c = some p)
      (hP : s.sched.view p = .occupied P) :
      Stows s c p (.blockCurrent f) (.occupied (blockedRecord P f))
  | waits {P : Process E} {f : TrapFrame} {target : Pid} (hc : s.sched.current c = some p)
      (hP : s.sched.view p = .occupied P) (hnone : P.pendingWake = none)
      (hwait : s.sched.waitOutcome target p = .mustBlock) :
      Stows s c p (.waitForChild target p f) (.occupied { P with trapFrame := f, state := .blocked })
  | awaited {P : Process E} {f : TrapFrame} {caller : Pid} (hc : s.sched.current c = some caller)
      (hP : s.sched.view p = .occupied P) (hne : p ≠ caller)
      (hwait : s.sched.waitOutcome p caller = .mustBlock) :
      Stows s c p (.waitForChild p caller f) (.occupied { P with waitWaiter := some caller })

theorem Inv.stows (h : s.Inv strict) (hmain : (s.cores c).main = m) (hyields : s.Yields c m b)
    (p : Pid) : s.Stows c p m (b.sched.view p) := by
  cases hyields with
  | @tick f sched hpre =>
    obtain ⟨q, Q, _, hc, hQ, hpre', -, htable, -⟩ := h.preempted hmain
    cases hpre.symm.trans hpre'
    change s.Stows c p _ ((sched.table.setCurrent c none).view p)
    rw [htable, Table.letGo_view]
    split
    · rename_i hpq
      subst hpq
      exact .preempted hc hQ
    · rename_i hpq
      exact .same fun hp ↦ absurd (Option.some.inj (hp.symm.trans hc)) hpq
  | @block f sched hblock =>
    obtain ⟨q, Q, _, hc, hQ, hblock', -, htable, -⟩ := h.blocked hmain
    cases hblock.symm.trans hblock'
    change s.Stows c p _ (sched.table.view p)
    rw [htable, Table.letGo_view]
    split
    · rename_i hpq
      subst hpq
      exact .blocked hc hQ
    · rename_i hpq
      exact .same fun hp ↦ absurd (Option.some.inj (hp.symm.trans hc)) hpq
  | @wait target caller f sched hwait hblock =>
    obtain ⟨P, Q, _, hc, hP, hQ, hself, hblock', -, htable, -⟩ := h.waiting hmain hwait
    cases hblock.symm.trans hblock'
    obtain ⟨-, hnone⟩ := h.scene.calm_current hc hP (by rw [main_core hmain]; rfl)
    change s.Stows c p _ (sched.table.view p)
    rw [htable, Table.letGo_view, Table.set_view]
    split
    · rename_i hpc
      subst hpc
      exact .waits hc hP hnone hwait
    · rename_i hpc
      split
      · rename_i hpt
        subst hpt
        exact .awaited hc hQ hself hwait
      · exact .same fun hp ↦ absurd (Option.some.inj (hp.symm.trans hc)) hpc
  | @evict f => exact .same fun _ ↦ ⟨f, rfl⟩
  | next | idle =>
    have hattached := h.scene.cores.attached c
    rw [main_core hmain] at hattached
    exact .same fun hp ↦ by
      rw [show s.scene.table.current c = some p from hp] at hattached
      cases hattached

theorem Inv.yields_pop_none {popped : Inner E} (h : s.Inv strict) (hmain : (s.cores c).main = m)
    (hyields : s.Yields c m b) (hpop : b.sched.pop = (none, popped)) :
    popped.table = b.sched.table.setCurrent c none ∧ popped.Honest := by
  obtain ⟨-, hb, hleft, -⟩ := h.yields hmain hyields
  obtain ⟨htable, hhonest⟩ := table_pop_none hpop
  have hnone : b.sched.table.current c = none :=
    hleft.resolve_right fun hne ↦ hne (pop_none hpop).1
  refine ⟨htable.trans (Table.ext rfl rfl ?_ rfl), hhonest hb⟩
  rw [← hnone]
  exact (update_eq_self c _).symm

end

section Yields

variable [Fintype E] {popped : Inner E} {errands : List (Errand E)} (h : s.Inv strict)
  (herr : (s.cores c).errands = []) (hmain : (s.cores c).main = m) (hyields : s.Yields c m b)
  (hkeeping : ∀ x ∈ errands, x.housekeeping = true)

include h herr hmain hyields hkeeping

theorem Inv.dispatched (hpop : b.sched.pop = (some p, popped))
    (hswitch : popped.switchTo c p = .ok (P, sched)) :
    ((b.withSched sched).dispatch c P errands).Inv strict := by
  obtain ⟨⟨hcores, hendpoints⟩, hb, -, hy⟩ := h.yields hmain hyields
  obtain ⟨P₀, rest, hq, hP₀, -, -, htable, hhonest⟩ := table_dispatch hpop hswitch
  refine .of_table herr (hhonest hb) (htable.trans (dispatch_released _ _ _)) ?_
    (errandsTokens_housekeeping hkeeping) hcores hendpoints
  have hd := hy.dispatch (c := c) (p := p) (P := P₀) (m := .leave P.trapFrame) hq hP₀
    (by rw [Scene.goto_main_self]; rfl) (by rw [Scene.goto_main_self]; rfl)
    (by rw [Scene.goto_main_self]; rfl) rfl ⟨rfl, rfl, rfl, rfl, rfl⟩
  simpa [Scene.goto, withSched] using hd

theorem Inv.abandoned (hpop : b.sched.pop = (none, popped)) :
    ((b.withSched popped).abandon c errands).Inv strict := by
  obtain ⟨⟨hcores, hendpoints⟩, -, -, hy⟩ := h.yields hmain hyields
  obtain ⟨htable, hhonest⟩ := h.yields_pop_none hmain hyields hpop
  refine .of_table herr hhonest htable ?_ (errandsTokens_housekeeping hkeeping) hcores hendpoints
  have hmove := hy.move (c := c) (m := .idle true) (by rw [Scene.goto_main_self]; rfl)
    (by simp!) (by simp!) (by rw [Scene.goto_main_self]; rfl)
    (by simp!) (by rw [Scene.goto_main_self]; simp [released, kills])
    (by rw [Scene.goto_main_self]; rfl) fun d ↦ .inl rfl
  simpa [Scene.goto, withSched] using hmove

end Yields

section Ends

variable [Fintype E] {target : Pid}

theorem Inv.exit {status : ExitStatus} (h : s.Inv strict) (herr : (s.cores c).errands = [])
    (hmain : (s.cores c).main = .finalize p status) :
    ((s.withSched (s.sched.finalize p status).1).goto c
      (.switchNext p.slot (s.sched.finalize p status).2)
      [.wakeOrphanedReceivers (dyingCaps (s.sched.finalize p status).2)]).Inv strict := by
  have hc := h.current_of_caller hmain rfl
  obtain ⟨P, hP, hrun⟩ := h.scene.sound.running c p hc
  have hm := main_core hmain
  obtain ⟨htable, -, hhonest⟩ :=
    finalize_spec status (finalizable h.scene.sound hP)
  refine .of_table herr (hhonest h.honest) htable (h.scene.finalize (c := c) hP (fun d hd hdp ↦ ?_)
    (by rw [hm]; rfl) (fun r hr ↦ ?_) (by rw [hm]; rfl) ?_ ⟨rfl, rfl, rfl, rfl, rfl⟩)
    (fun _ ↦ rfl) rfl rfl
  · exact hd (h.scene.sound.injective d c p hdp hc)
  · rw [hm] at hr
    cases hr
  · have hnone : (s.scene.table.finalize p P status).current c = none := by
      rw [Table.finalize_current]
      exact if_pos hc
    rw [hnone]
    rfl

theorem Inv.kill (h : s.Inv strict) (herr : (s.cores c).errands = [])
    (hmain : (s.cores c).main = .killScan target f) (howner : s.sched.owningCore target = none) :
    ((s.withSched (s.sched.finalize target .killed).1).goto c (.leave (f.withRax 0))
      (.wakeOrphanedReceivers (dyingCaps (s.sched.finalize target .killed).2) ::
        (s.sched.finalize target .killed).2.map .dropBox)).Inv strict := by
  have hm := main_core hmain
  obtain ⟨q, hc, hchild⟩ := h.scene.cores.kills c target (by rw [hm]; rfl)
  have hcur := owningCore_none howner
  rcases hchild with ⟨T, hT, hpar⟩ | ⟨status, hT⟩
  · obtain ⟨htable, -, hhonest⟩ :=
      finalize_spec .killed (finalizable h.scene.sound hT)
    refine .of_table herr (hhonest h.honest) htable (h.scene.finalize (c := c) hT (fun d _ ↦ hcur d)
      (by rw [hm]; rfl) (fun r hr ↦ ?_) (by rw [hm]; rfl) ?_ ⟨rfl, rfl, rfl, rfl, rfl⟩)
      (by simp!) rfl rfl
    · rw [hm] at hr
      exact (Option.some.inj hr).symm
    · have hsome : (s.scene.table.finalize target T .killed).current c = some q := by
        rw [Table.finalize_current, if_neg (show s.scene.table.current c ≠ some target from hcur c)]
        exact hc
      rw [hsome]
      rfl
  · -- the target ended by itself and left a zombie: nothing is left to do
    have hview : s.sched.view target = .zombie q status := hT
    have hnot : ∀ P, s.sched.view target ≠ .occupied P := by simp [hview]
    rw [finalize_absent hnot (by simp [hview])]
    refine h.shift herr hmain id rfl (by simp!) (by simp!) (fun r hr ↦ ?_) (fun _ ↦ .inl rfl)
      (by simp!) (fun _ ↦ rfl) rfl rfl rfl rfl rfl
    cases hr
    exact .inr (not_exists.mpr hnot)

end Ends

section Creation

variable [Fintype E]

theorem Inv.reserved (h : s.Inv strict) (hmain : (s.cores c).main = m)
    (hreserves : m.reserves = unplaced p) {i : Fin maxProcesses} (hslot : p.slot = some i) :
    (s.scene.main c).reserves = some p ∧ s.sched.view p = .reserved := by
  have hres : (s.scene.main c).reserves = some p := by
    rw [main_core hmain, hreserves, unplaced, hslot]
    rfl
  exact ⟨hres, h.scene.cores.reserves c p hres⟩

theorem Inv.spawned (h : s.Inv strict) (hmain : (s.cores c).main = .spawnSuspended P f)
    (hspawn : s.sched.spawnSuspended P = .ok sched) : (s.scene.main c).reserves = some P.pid ∧
      s.sched.view P.pid = .reserved ∧ sched.table = s.sched.table.set P.pid (.occupied P) ∧
      sched.Honest := by
  cases hslot : P.pid.slot with
  | none => cases hspawn.symm.trans (spawnSuspended_full hslot)
  | some i =>
    obtain ⟨hres, hview⟩ := h.reserved hmain rfl hslot
    obtain ⟨sched', hspawn', htable, hhonest⟩ := spawnSuspended_reserved hview
    cases hspawn.symm.trans hspawn'
    exact ⟨hres, hview, htable, hhonest h.honest⟩

theorem Inv.booted {boot : BootProcess E} {rest : List (BootProcess E)} {entry : UInt64} {frame : ℕ}
    (h : s.Inv strict) (hmain : (s.cores c).main = .bootSpawn p boot rest)
    (hspawn : s.sched.spawn (boot.process p frame entry) = .ok sched) :
    (s.scene.main c).reserves = some p ∧ s.sched.view p = .reserved ∧ sched.table =
      (s.sched.table.set p (.occupied (boot.process p frame entry))).enqueue p ∧ sched.Honest := by
  obtain ⟨i, hslot⟩ := slot_of_spawn hspawn
  obtain ⟨hres, hview⟩ := h.reserved hmain rfl hslot
  obtain ⟨sched', hspawn', htable, hhonest⟩ := spawn_reserved
    (P := boot.process p frame entry) hview (queue_room h.scene.sound hview)
  cases hspawn.symm.trans hspawn'
  exact ⟨hres, hview, htable, hhonest h.honest⟩

section

variable (h : s.Inv strict) (herr : (s.cores c).errands = [])

include h herr

theorem Inv.spawn (hmain : (s.cores c).main = .spawnSuspended P f)
    (hspawn : s.sched.spawnSuspended P = .ok sched) :
    (((s.withSched sched).record (.spawned P.pid)).goto c (.leave g) []).Inv strict := by
  have hm := main_core hmain
  obtain ⟨hparent, hsuspended, hwaiter, hpending⟩ := h.scene.cores.child c P (by rw [hm]; rfl)
  obtain ⟨hres, hview, htable, hhonest⟩ := h.spawned hmain hspawn
  refine .of_table herr hhonest htable (h.scene.settle (.occupied P)
    (h.scene.sound.create hview rfl hsuspended hwaiter fun q hq ↦ ?_) rfl rfl
    (fun q ↦ Table.set_view ..) (by simp) (fun R hR ↦ ?_) hres (by rw [hm]; rfl)
    ⟨rfl, rfl, rfl, rfl, rfl⟩ (by rw [hm]; rfl) (by rw [hm]; rfl)) (fun _ ↦ rfl) rfl rfl
  · rw [hparent] at hq
    obtain ⟨Q, hQ, hrun⟩ := h.scene.sound.running c q hq
    exact ⟨Q, hQ, by rw [hrun]; simp⟩
  · cases hR
    exact ⟨by rw [hsuspended]; simp, by rw [hsuspended]; simp, hwaiter, hpending⟩

theorem Inv.bootSpawn {boot : BootProcess E} {rest : List (BootProcess E)} {entry : UInt64}
    {frame : ℕ} (hmain : (s.cores c).main = .bootSpawn p boot rest)
    (hspawn : s.sched.spawn (boot.process p frame entry) = .ok sched) :
    (({ s with
      sched := sched
      spaces := frame :: s.spaces
      log := boot.seeds.map (fun seed ↦ .seeded p seed.2) ++ s.log } : State E).goto c
        (.boot rest) []).Inv strict := by
  have hm := main_core hmain
  obtain ⟨hres, hview, htable, hhonest⟩ := h.booted hmain hspawn
  refine .of_table herr hhonest htable (h.scene.settle
    (.occupied (boot.process p frame entry)) (h.scene.sound.createReady hview rfl rfl rfl ?_) rfl
    rfl (fun q ↦ Table.set_view ..) (by simp) (fun R hR ↦ ?_) hres (by rw [hm]; rfl)
    ⟨rfl, rfl, rfl, rfl, rfl⟩ (by rw [hm]; rfl) (by rw [hm]; rfl)) (fun _ ↦ rfl) rfl rfl
  · simp [BootProcess.process, Process.new]
  · cases hR
    simp [BootProcess.process, Process.new]

theorem Inv.allocate
    (hmain : (s.cores c).main = m) (hold : m.reserves = none ∧ m.kills = none ∧ m.parks = false)
    (hwrap : ∀ i, s.sched.freeSlot s.stackBusy = some i → (s.sched.generations i).toNat + 1 < 2 ^ 32)
    (hattached : m'.attached = m.attached)
    (hcaller : ∀ p, m'.caller = some p → s.sched.current c = some p)
    (hreserves : m'.reserves = unplaced (s.sched.allocatePid s.stackBusy).1)
    (hchild : m'.child = none) (hkills : m'.kills = none) (hparks : m'.parks = false) :
    ((s.withSched (s.sched.allocatePid s.stackBusy).2).goto c m' []).Inv strict := by
  have hm := main_core hmain
  cases hfree : s.sched.freeSlot s.stackBusy with
  | none =>
    have hnone : m'.reserves = none := by
      rw [hreserves, Inner.allocatePid_full hfree, unplaced, Pid.slot_new_full]
      rfl
    rw [Inner.allocatePid_full hfree]
    exact h.shift herr hmain id rfl hcaller (by simp [hkills]) (by simp [hold.2.1])
      (fun _ ↦ .inl rfl) (by simp [hchild]) (fun _ ↦ rfl) hattached (hnone.trans hold.1.symm)
      (hparks.trans hold.2.2.symm) rfl rfl
  | some i =>
    have htable := Inner.table_allocatePid hfree (hwrap i hfree)
    refine .of_table herr (h.honest.congr ?_ ?_) htable (h.scene.reserve
      (Inner.not_issued_freshPid (hwrap i hfree)) (by rw [hm, hattached]) hcaller hchild
      (by rw [hm]; exact hold.1) ?_ (by rw [hm]; exact hold.2.1) hkills (by rw [hm]; exact hold.2.2)
      hparks) (fun _ ↦ rfl) rfl rfl
    · simp [withSched, Inner.allocatePid, hfree, Inner.queue]
    · simp [withSched, Inner.allocatePid, hfree]
    · rw [hreserves, Inner.allocatePid_fst hfree, unplaced, Inner.freshPid_slot]
      rfl

theorem Inv.release {child : Pid} (hmain : (s.cores c).main = .releaseReservation child f) :
    ((s.withSched (s.sched.releaseReservation child)).goto c (.leave g) []).Inv strict := by
  have hm := main_core hmain
  cases hslot : child.slot with
  | none =>
    rw [releaseReservation_full hslot]
    refine h.shift herr hmain id rfl (by simp!) (by simp!) (by simp!) (fun _ ↦ .inl rfl)
      (by simp!) (fun _ ↦ rfl) rfl ?_ rfl rfl rfl
    simp [reserves, unplaced, hslot]
  | some i =>
    obtain ⟨hres, hview⟩ := h.reserved hmain rfl hslot
    obtain ⟨htable, hhonest⟩ := releaseReservation_reserved hview
    have hdead : ¬ s.scene.table.Live child := by
      rintro ⟨R, hR⟩
      rw [show s.scene.table.view child = .reserved from hview] at hR
      cases hR
    exact .of_table herr (hhonest h.honest) htable (h.scene.settle .empty (h.scene.sound.vacate hdead)
      rfl rfl (fun q ↦ Table.set_view ..) (by simp) (fun R hR ↦ by cases hR) hres (by rw [hm]; rfl)
      ⟨rfl, rfl, rfl, rfl, rfl⟩ (by rw [hm]; rfl) (by rw [hm]; rfl)) (fun _ ↦ rfl) rfl rfl

theorem Inv.spawnFail {e : SyscallError} (hmain : (s.cores c).main = .spawnSuspended P f)
    (hspawn : s.sched.spawnSuspended P = .error e) :
    (s.goto c (.leave g) [.dropBox P]).Inv strict := by
  cases hslot : P.pid.slot with
  | none =>
    refine h.shift herr hmain id rfl (by simp!) (by simp!) (by simp!) (fun _ ↦ .inl rfl)
      (by simp!) (by simp!) rfl ?_ rfl rfl rfl
    simp [reserves, unplaced, hslot]
  | some i =>
    obtain ⟨sched, hspawn', -⟩ :=
      spawnSuspended_reserved (h.reserved (p := P.pid) hmain rfl hslot).2
    cases hspawn.symm.trans hspawn'

end

end Creation

section Calls

structure Calm (m : Main E) : Prop where
  attached : m.attached = true
  child : m.child = none
  reserves : m.reserves = none
  kills : m.kills = none
  parks : m.parks = false

theorem calm_leave : Calm (.leave g : Main E) := ⟨rfl, rfl, rfl, rfl, rfl⟩

theorem syscallDispatch_plain (f : TrapFrame) :
    (syscallDispatch f : Main E).Plain ∧ (syscallDispatch f : Main E).attached = true := by
  refine syscallDispatch_induction (motive := fun m ↦ m.Plain ∧ m.attached = true) f ?_ ?_ ?_ ?_
  · exact ⟨⟨rfl, rfl, rfl, rfl, rfl⟩, rfl⟩
  · exact fun _ ↦ ⟨⟨rfl, rfl, rfl, rfl, rfl⟩, rfl⟩
  · exact fun _ ↦ ⟨⟨rfl, rfl, rfl, rfl, rfl⟩, rfl⟩
  · exact fun _ ↦ ⟨⟨rfl, rfl, rfl, rfl, rfl⟩, rfl⟩

theorem Inv.proceed {y : Scene E} (hy : y.Inv strict) (hm : y.main c = m) (hold : Calm m)
    (hnew : Calm m') (hcaller : ∀ p, m'.caller = some p → y.table.current c = some p) :
    ({ y.goto c m' with evict := y.evict } : Scene E).Inv strict := by
  subst hm
  refine hy.move (by rw [hold.attached, hnew.attached]) hcaller (by simp [hnew.child])
    (by rw [hold.reserves, hnew.reserves]) (by simp [hnew.kills]) (fun r hr ↦ ?_)
    (by rw [hold.parks, hnew.parks]) fun d ↦ .inl rfl
  rw [hold.kills] at hr
  cases hr

theorem recordResolve_fields (process : Process E) (call : Call) :
    (s.recordResolve process f call).cores = s.cores ∧
      (s.recordResolve process f call).endpoints = s.endpoints ∧
      (s.recordResolve process f call).sched = s.sched ∧
      (s.recordResolve process f call).evictRequest = s.evictRequest := by
  unfold recordResolve
  split <;> exact ⟨rfl, rfl, rfl, rfl⟩

theorem callWrites_fields (call : Call) (process : Process E) :
    (callWrites call process).pid = process.pid ∧ (callWrites call process).state = process.state ∧
      (callWrites call process).parent = process.parent ∧
      (callWrites call process).waitWaiter = process.waitWaiter ∧
      (callWrites call process).pendingWake = process.pendingWake := by
  cases call <;> exact ⟨rfl, rfl, rfl, rfl, rfl⟩

section

variable [Fintype E]

theorem scene_exchange {errands : List (Errand E)} (herr : (s.cores c).errands = [])
    (hcores : b.cores = s.cores) :
    (b.goto c m' errands).scene =
      { s.scene.goto c m' with
        table := b.sched.table
        tokens := fun p ↦ b.tokens p + errandsTokens p errands
        evict := b.evictRequest } := by
  have htokens : (b.goto c m' errands).tokens = fun p ↦ b.tokens p + errandsTokens p errands := by
    funext p
    have hset := tokens_setCore (s := b) (c := c) (p := p)
      { b.cores c with main := m', errands := errands }
    rw [hcores, herr, errandsTokens_nil] at hset
    unfold goto
    rw [hcores]
    omega
  have hmain : (fun d ↦ ((b.goto c m' errands).cores d).main) =
      update (fun d ↦ (s.cores d).main) c m' := by
    funext d
    by_cases hd : d = c
    · subst hd
      simp [goto, setCore]
    · simp [goto, setCore, hd, hcores]
  unfold scene
  rw [htokens, hmain]
  rfl

end

theorem trapMain_plain (kind : Trap) (f : TrapFrame) :
    (trapMain kind f : Main E).Plain ∧ (trapMain kind f : Main E).attached = true := by
  cases kind with
  | syscall => exact syscallDispatch_plain f
  | _ => exact ⟨⟨rfl, rfl, rfl, rfl, rfl⟩, rfl⟩

theorem orLeave_calm {α : Type} {q : Pid} (result : Except SyscallError α) (k : α → Main E)
    (hk : ∀ a, Calm (k a) ∧ ∀ p, (k a).caller = some p → p = q) :
    Calm (orLeave f result k) ∧ ∀ p, (orLeave f result k).caller = some p → p = q := by
  cases result with
  | error e => exact ⟨calm_leave, fun p hp ↦ by cases hp⟩
  | ok a => exact hk a

section

variable [Fintype E]

theorem Inv.exchange {errands : List (Errand E)} (h : s.Inv strict)
    (herr : (s.cores c).errands = []) (hmain : (s.cores c).main = m) (hold : Calm m)
    (hcores : b.cores = s.cores) (hsched : b.sched = s.sched)
    (hevict : b.evictRequest = s.evictRequest)
    (htokens : ∀ p, b.tokens p + errandsTokens p errands = s.tokens p) (hcalm : Calm m')
    (hcaller : ∀ p, m'.caller = some p → s.sched.current c = some p) :
    (b.goto c m' errands).Inv strict := by
  constructor
  · change b.sched.Honest
    rw [hsched]
    exact h.honest
  · rw [scene_exchange herr hcores, hsched, hevict, funext htokens]
    exact Inv.proceed h.scene (main_core hmain) hold hcalm hcaller

section

variable (h : s.Inv strict) (herr : (s.cores c).errands = [])

include h herr

theorem Inv.register (hmain : (s.cores c).main = m) (hc : s.sched.current c = some p)
    (hold : m.reserves = none ∧ m.kills = none ∧ m.parks = false) (hcores : b.cores = s.cores)
    (hsched : b.sched = s.sched) (hevict : b.evictRequest = s.evictRequest)
    (htokens : ∀ q, b.tokens q = s.tokens q + waiterTokens q (.process p)) :
    (b.goto c (.blockCurrent f) []).Inv strict := by
  have hm := main_core hmain
  constructor
  · change b.sched.Honest
    rw [hsched]
    exact h.honest
  · rw [scene_exchange herr hcores, hsched, hevict]
    refine h.scene.park (c := c) (p := p) hc (by rw [hm]; exact hold.1) (by rw [hm]; exact hold.2.1)
      (by rw [hm]; exact hold.2.2) ?_ fun q hq ↦ ?_
    · rw [htokens]
      simp only [errandsTokens_nil, waiterTokens, if_true]
      rfl
    · rw [htokens]
      have hpq : ¬ p = q := fun h ↦ hq h.symm
      simp only [errandsTokens_nil, waiterTokens, if_neg hpq]
      rfl

theorem Inv.touch {q : Pid} {Q Q' : Process E} (hmain : (s.cores c).main = m) (hold : Calm m)
    (hQ : s.sched.view q = .occupied Q) (hpid : Q'.pid = Q.pid) (hstate : Q'.state = Q.state)
    (hparent : Q'.parent = Q.parent) (hwaiter : Q'.waitWaiter = Q.waitWaiter)
    (hpending : Q'.pendingWake = Q.pendingWake) (hcores : b.cores = s.cores)
    (hendpoints : b.endpoints = s.endpoints) (hsched : b.sched = s.sched.setProcess q Q')
    (hevict : b.evictRequest = s.evictRequest) (hcalm : Calm m')
    (hcaller : ∀ p, m'.caller = some p → s.sched.current c = some p) :
    (b.goto c m' []).Inv strict := by
  obtain ⟨hready, -, -, hhist⟩ := setProcess_fields hQ Q'
  have hy := h.scene.touch hQ hpid hstate hparent hwaiter hpending
  have hhonest : b.sched.Honest := by
    rw [hsched]
    refine h.honest.congr ?_ hhist
    unfold queue
    rw [hready]
  have htable : b.sched.table = s.sched.table.set q (.occupied Q') := by
    rw [hsched]
    exact table_setProcess hQ Q'
  refine .of_table herr hhonest htable ?_ (fun _ ↦ rfl) hcores hendpoints
  rw [hevict]
  exact Inv.proceed hy (main_core hmain) hold hcalm hcaller

theorem Inv.start {target : Pid} (hmain : (s.cores c).main = .startChild target caller f)
    (hstart : s.sched.startChild target caller = .ok sched) :
    ((s.withSched sched).goto c (.leave (f.withRax 0)) []).Inv strict := by
  obtain ⟨Q, hQ, -, hsuspended, heq⟩ := startChild_ok hstart
  have hroom := queue_length_lt_of_occupied h.scene.sound hQ (by rw [hsuspended]; simp)
  obtain ⟨htable, hhonest⟩ := table_setProcess_push hQ { Q with state := .ready } hroom
  rw [← heq] at htable hhonest
  exact .of_table herr (hhonest h.honest) htable (Inv.proceed (h.scene.start hQ hsuspended)
    (main_core hmain) ⟨rfl, rfl, rfl, rfl, rfl⟩ calm_leave fun p hp ↦ by cases hp)
    (fun _ ↦ rfl) rfl rfl

theorem Inv.collected {target : Pid} {status : ExitStatus}
    (hmain : (s.cores c).main = .waitForChild target caller f)
    (hwait : s.sched.waitOutcome target caller = .alreadyDone status) :
    ((s.withSched (s.sched.waitForChild target caller)).goto c (.leave g) []).Inv strict := by
  obtain ⟨hz, htable, hhonest⟩ := waitForChild_done hwait
  have hy := h.scene.collect (c := c) (h.current_of_caller hmain rfl) hz (by rw [main_core hmain]; rfl)
  exact .of_table herr (hhonest h.honest) htable (Inv.proceed hy (main_core hmain)
    ⟨rfl, rfl, rfl, rfl, rfl⟩ calm_leave fun p hp ↦ by cases hp) (fun _ ↦ rfl) rfl rfl

end

end

section

variable [DecidableEq E]

theorem callOn_calm (process : Process E) (call : Call) :
    Calm (callOn process f call) ∧
      ∀ p, (callOn process f call).caller = some p → p = process.pid := by
  have hsome : ∀ {p : Pid}, some process.pid = some p → p = process.pid :=
    fun h ↦ (Option.some.inj h).symm
  cases call with
  | send | recv | grant =>
    exact orLeave_calm _ _ fun _ ↦ ⟨⟨rfl, rfl, rfl, rfl, rfl⟩, fun p hp ↦ hsome hp⟩
  | sbrk | blockRead | fileRead =>
    exact orLeave_calm _ _ fun _ ↦ ⟨⟨rfl, rfl, rfl, rfl, rfl⟩, fun p hp ↦ by cases hp⟩
  | setHeapEnd oldEnd newEnd => exact ⟨calm_leave, fun p hp ↦ by cases hp⟩
  | _ => exact ⟨⟨rfl, rfl, rfl, rfl, rfl⟩, fun p hp ↦ hsome hp⟩

end

variable [Fintype E]

theorem Inv.granted {target : Pid} {dest : CapIndex} {slot : CapabilitySlot (KernelObjectRef E)}
    (h : s.Inv strict) (herr : (s.cores c).errands = [])
    (hmain : (s.cores c).main = .grant target dest slot caller f)
    (hocc : s.sched.occupiedMut target = some P) :
    (((s.withSched (s.sched.setProcess target
      { P with capTable := P.capTable.insert dest slot })).record (.granted caller target slot)).goto
        c (.leave (f.withRax 0)) []).Inv strict :=
  have hpid : { P with capTable := P.capTable.insert dest slot }.pid = P.pid := rfl
  h.touch herr hmain ⟨rfl, rfl, rfl, rfl, rfl⟩ (occupiedMut_eq_some.mp hocc) hpid rfl rfl rfl rfl
    rfl rfl rfl rfl calm_leave fun p hp ↦ by cases hp

variable [DecidableEq E]

theorem Inv.recordCall {call : Call} (h : s.Inv strict) (herr : (s.cores c).errands = [])
    (hmain : (s.cores c).main = .withProcess call p f) (hocc : s.sched.occupiedMut p = some P) :
    (((s.withSched (s.sched.setProcess p (callWrites call P))).recordResolve P f call).goto c
      (callOn P f call) []).Inv strict := by
  have hP := occupiedMut_eq_some.mp hocc
  obtain ⟨hcores, hendpoints, hsched, hevict⟩ := recordResolve_fields
    (s := s.withSched (s.sched.setProcess p (callWrites call P))) (f := f) P call
  obtain ⟨hpid, hstate, hparent, hwaiter, hpending⟩ := callWrites_fields call P
  obtain ⟨hcalm, hcaller⟩ := callOn_calm (f := f) P call
  refine h.touch herr hmain ⟨rfl, rfl, rfl, rfl, rfl⟩ hP hpid hstate hparent hwaiter hpending hcores
    hendpoints hsched hevict hcalm fun q hq ↦ ?_
  rw [hcaller q hq, h.scene.sound.stored p P hP]
  exact h.current_of_caller hmain rfl

/-- An operation on an endpoint moves tokens between its slot and the errands. A displaced receiver
that finds another one registered loses its own. -/
theorem Inv.trade (h : s.Inv strict) (hkeeps : strict → s.Keeps ⟨c, choice⟩)
    (htrade : s.Trade c s') : s'.Inv strict := by
  have hset := fun (e : E) slot q ↦ tokens_setEndpoint (s := s) (p := q) e slot
  cases htrade with
  | @delivered e message w r slot o hsubmits _ hslot hentries hrecv =>
    have htokens : ∀ q, (s.setEndpoint e slot).accept.tokens q +
        errandsTokens q (receiverErrands e r) = s.tokens q := by
      intro q
      have hq := hset e slot q
      rw [hslot, slotTokens_eq slot, hentries, hrecv] at hq
      simpa [slotTokens, waiterTokens] using hq
    cases hsubmits with
    | task herr => exact h.resume herr rfl rfl rfl rfl htokens
    | call herr hmain =>
      exact h.exchange herr hmain ⟨rfl, rfl, rfl, rfl, rfl⟩ rfl rfl rfl (by simpa using htokens)
        ⟨rfl, rfl, rfl, rfl, rfl⟩ fun q hq ↦ by cases hq
  | @displaced e message pid f waker slot herr hmain _ hslot hentries hrecv =>
    refine h.exchange herr hmain ⟨rfl, rfl, rfl, rfl, rfl⟩ rfl rfl rfl (fun q ↦ ?_)
      ⟨rfl, rfl, rfl, rfl, rfl⟩ fun q hq ↦ by cases hq
    have hq := hset e slot q
    rw [hslot, slotTokens_eq slot, hentries, hrecv] at hq
    simpa [slotTokens, waiterTokens] using hq
  | @enqueued e message w slot o hsubmits _ hentries hrecv hnone =>
    have htokens : ∀ q, (s.setEndpoint e slot).accept.tokens q = s.tokens q + waiterTokens q w := by
      intro q
      have hq := hset e slot q
      rw [slotTokens_eq slot, slotTokens_eq (s.endpoints e), hentries, hrecv, hnone] at hq
      simp only [List.map_append, List.sum_append, List.map_cons, List.map_nil, List.sum_cons,
        List.sum_nil, tokens_accept] at hq ⊢
      omega
    cases hsubmits with
    | @task waker rest herr =>
      exact h.resume herr (show State.resume _ _ [] rest = _ from rfl) rfl rfl rfl fun q ↦ by
        simpa [errandTokens, waiterTokens] using htokens q
    | call herr hmain =>
      exact h.register herr hmain (h.current_of_caller hmain rfl) ⟨rfl, rfl, rfl⟩ rfl rfl rfl htokens
  | refused hsubmits =>
    cases hsubmits with
    | @task waker rest herr =>
      exact h.resume herr (show State.resume _ _ [] rest = _ from rfl) rfl rfl rfl fun q ↦ by
        simp [errandTokens]
    | call herr hmain =>
      exact h.exchange herr hmain ⟨rfl, rfl, rfl, rfl, rfl⟩ rfl rfl rfl (by simp) calm_leave
        fun q hq ↦ by cases hq
  | @taken e w sender parcel slot o hasks _ hentries hrecv hnone =>
    have htokens : ∀ q, (s.setEndpoint e slot).tokens q +
        errandsTokens q (senderErrands sender parcel.id : List (Errand E)) = s.tokens q := by
      intro q
      have hq := hset e slot q
      rw [slotTokens_eq slot, slotTokens_eq (s.endpoints e), hentries, hrecv, hnone] at hq
      rw [errandsTokens_sender]
      simp only [List.map_cons, List.sum_cons] at hq
      omega
    cases hasks with
    | task herr =>
      exact h.resume herr rfl rfl rfl rfl fun q ↦ by simpa [errandTokens] using htokens q
    | displaced herr =>
      refine h.resume herr rfl rfl rfl rfl fun q ↦ ?_
      have hq := htokens q
      simp only [Onward.errand_hands, errandsTokens_append, errandsTokens_cons, errandsTokens_nil,
        errandTokens, tokens_record]
      omega
    | call herr hmain =>
      refine h.exchange herr hmain ⟨rfl, rfl, rfl, rfl, rfl⟩ rfl rfl rfl (fun q ↦ ?_)
        ⟨rfl, rfl, rfl, rfl, rfl⟩ fun q hq ↦ ?_
      · simpa using htokens q
      · cases hq
        exact h.current_of_caller hmain rfl
  | @registered e w o hasks _ hslot =>
    have htokens : ∀ q, (s.setEndpoint e (.receiverWaiting w)).tokens q =
        s.tokens q + waiterTokens q w := by
      intro q
      have hq := hset e (.receiverWaiting w) q
      rwa [hslot] at hq
    cases hasks with
    | @task waker rest herr | @displaced pid rest herr =>
      exact h.resume herr (show State.resume _ _ [] rest = _ from rfl) rfl rfl rfl fun q ↦ by
        simpa [errandTokens, waiterTokens] using htokens q
    | call herr hmain =>
      exact h.register herr hmain (h.current_of_caller hmain rfl) ⟨rfl, rfl, rfl⟩ rfl rfl rfl htokens
  | @unregistered e w r o hasks _ hslot =>
    cases hasks with
    | @task waker rest herr =>
      exact h.resume herr (show State.resume _ _ [] rest = _ from rfl) rfl rfl rfl fun q ↦ by
        simp [errandTokens]
    | @displaced pid rest herr =>
      -- the slip: the receiver is neither woken nor registered again
      obtain ⟨-, hscene⟩ := scene_spend (b := s) (p := pid) herr rfl rfl rfl fun q ↦ rfl
      refine ⟨h.honest, ?_⟩
      change (s.goto c (s.cores c).main ([] ++ rest)).scene.Inv strict
      rw [hscene]
      exact h.scene.lose (fun hstrict ↦ hkeeps hstrict e pid rest herr r hslot) pid
    | call herr hmain =>
      exact h.exchange herr hmain ⟨rfl, rfl, rfl, rfl, rfl⟩ rfl rfl rfl (by simp) calm_leave
        fun q hq ↦ by cases hq
  | @closed e pid rest herr hslot =>
    refine h.resume herr (show State.resume _ _ [.peerClosed pid] rest = _ from rfl) rfl rfl rfl
      fun q ↦ ?_
    have hq := hset e .empty q
    rw [hslot] at hq
    simpa [slotTokens, waiterTokens, errandTokens] using hq
  | @nobody e rest herr =>
    exact h.resume herr (show State.resume _ _ [] rest = _ from rfl) rfl rfl rfl fun q ↦ by
      simp [errandTokens]

end Calls

variable [DecidableEq E]

theorem allocates_of_next {a : Action E} {child : Pid} (herr : (s.cores a.core).errands = [])
    (hmain : (s.cores a.core).main = .allocatePid caller f)
    (hs : s.next a = some (b.goto a.core (.fromElf caller child f) [])) : s.allocates a = true := by
  obtain ⟨c, choice⟩ := a
  have hstep := mainStep_of_next hs herr hmain
  simp only [mainStep, allocatePid] at hstep
  simp only [allocates, herr, hmain]
  cases choice with
  | refuse =>
    have hcore := congrArg (fun o : State E ↦ (o.cores c).main) (Outcome.next.inj hstep)
    simp [goto, setCore] at hcore
  | _ => rfl

variable [Fintype E]

theorem Inv.next {a : Action E} (h : s.Inv strict) (hwrap : s.NoWrap a)
    (hkeeps : strict → s.Keeps a) (hs : s.next a = some s') : s'.Inv strict := by
  cases next_turn hs with
  | tasks herr hmore =>
    refine h.resume herr rfl rfl rfl rfl fun p ↦ ?_
    rcases hmore with rfl | ⟨_, _, _, rfl⟩ | ⟨_, _, rfl⟩ <;> simp [errandTokens]
  | pollSend _ _ htrade | pollRecv _ _ htrade | wakeReceiver _ _ htrade
  | takeWaitingReceiver _ _ htrade | trySend _ _ _ htrade | tryRecv _ _ _ htrade =>
    exact h.trade hkeeps htrade
  | wake herr hwakes =>
    refine h.wakeErrand herr rfl rfl rfl rfl rfl fun q ↦ ?_
    cases hwakes <;> rfl
  | orphans herr => exact h.resume herr rfl rfl rfl rfl fun p ↦ by simp!
  | dropBox herr | clearStackBusy herr =>
    exact h.resume herr (show State.resume _ _ [] _ = _ from rfl) rfl rfl rfl fun p ↦ by
      simp [errandTokens, tokens]
  | stay herr hmain hstay => exact h.stay herr hmain hstay
  | bootDone herr hmain => exact h.shift herr hmain id rfl
  | bootAllocate herr hmain =>
    have hallocates : s.allocates a = true := by simp [allocates, herr, hmain]
    exact h.allocate herr hmain ⟨rfl, rfl, rfl⟩ (hwrap hallocates) rfl (fun p hp ↦ by cases hp) rfl
      rfl rfl rfl
  | bootSpawn herr hmain _ hspawn => exact h.bootSpawn herr hmain hspawn
  | @trap f _ kind herr hmain =>
    obtain ⟨hplain, hattached⟩ := trapMain_plain (E := E) kind f
    exact h.shift herr hmain id rfl (by simp [hplain.caller]) (by simp [hplain.kills])
      (by simp!) (fun _ ↦ .inl rfl) (by simp [hplain.child]) (fun _ ↦ rfl) hattached
      hplain.reserves hplain.parks
  | leave herr hmain | sendReturn herr hmain | recvReturn herr hmain =>
    exact h.shift herr hmain id rfl
  | mark herr hmain =>
    exact h.shift herr hmain id rfl fun p hp ↦ (h.current_of_caller hmain rfl).trans hp
  | ignoreIpi herr hmain =>
    refine h.shift herr hmain id rfl (by simp!) (by simp!) (by simp!) fun d ↦ ?_
    by_cases hd : d = a.core
    · exact .inr (.inl (by simp [hd]))
    · exact .inl (by simp [hd])
  | @request target core _ herr hmain =>
    refine h.shift herr hmain id rfl (by simp!) (fun _ ↦ .inl) (fun _ ↦ .inl) fun d ↦ ?_
    by_cases hd : d = core
    · exact .inr (.inr (by simp [hd, kills]))
    · exact .inl (by simp [hd])
  | @withdraw target core _ herr hmain =>
    refine h.shift herr hmain id rfl (by simp!) (fun _ ↦ .inl) (fun _ ↦ .inl) fun d ↦ ?_
    by_cases hd : d = core
    · exact .inr (.inl (by simp [hd]))
    · exact .inl (by simp [hd])
  | record herr hmain hP => exact h.recordCall herr hmain hP
  | allocate herr hmain =>
    have hallocates := allocates_of_next herr hmain hs
    exact h.allocate herr hmain ⟨rfl, rfl, rfl⟩ (hwrap hallocates) rfl
      (fun p hp ↦ (h.current_of_caller hmain rfl).trans hp) rfl rfl rfl rfl
  | load herr hmain =>
    refine h.shift herr hmain id rfl (by simp!) (by simp!) (by simp!) (fun _ ↦ .inl rfl)
      fun P hP ↦ ?_
    cases hP
    exact ⟨(h.current_of_caller hmain rfl).symm, rfl, rfl, rfl⟩
  | release herr hmain => exact h.release herr hmain
  | spawn herr hmain hspawn => exact h.spawn herr hmain hspawn
  | spawnFail herr hmain hspawn => exact h.spawnFail herr hmain hspawn
  | grant herr hmain hP => exact h.granted herr hmain hP
  | start herr hmain hstart => exact h.start herr hmain hstart
  | collect herr hmain hwait => exact h.collected herr hmain hwait
  | kill herr hmain howner => exact h.kill herr hmain howner
  | exit herr hmain => exact h.exit herr hmain
  | dispatch herr hmain hyields hpop hswitch hkeeping =>
    exact h.dispatched herr hmain hyields hkeeping hpop hswitch
  | abandon herr hmain hyields hpop hkeeping =>
    exact h.abandoned herr hmain hyields hkeeping hpop
  | resumeTick herr hmain hpre hpop => exact absurd hpop (h.preempted_pop hmain hpre)
  | rest herr hmain hpop hnew hkeeping =>
    obtain ⟨htable, hhonest⟩ := table_pop_none hpop
    rcases hnew with rfl | rfl <;>
      exact h.shift herr hmain hhonest htable (by simp!) (by simp!) (by simp!) (fun _ ↦ .inl rfl)
        (by simp!) (errandsTokens_housekeeping hkeeping)

end State

end Tarnos.Kernel
