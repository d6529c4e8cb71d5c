import Tarnos.Kernel.Scene

namespace Tarnos.Kernel

open Abi Arch Kcore Tarnos.Task Function Table

variable {E : Type} {tokens : Pid → ℕ}

/-- A point of the kernel that holds nothing: no caller, no reservation, no target. -/
structure Main.Plain (m : Main E) : Prop where
  caller : m.caller = none
  child : m.child = none
  reserves : m.reserves = none
  kills : m.kills = none
  parks : m.parks = false

theorem Account.quiet {strict parked : Prop} {tokens : ℕ} {state : ProcessState}
    {pending : Option WakeResult} {waits : Pid → Prop} (htokens : tokens = 0)
    (hpending : pending = none) (hstate : state ≠ .blocked) (hparked : ¬ parked)
    (hwaits : ∀ q, ¬ waits q) : Account strict tokens state pending parked waits :=
  ⟨by simp [htokens, hpending, pendingTokens], fun _ _ ↦ ⟨htokens, hpending⟩,
    fun q hq ↦ absurd hq (hwaits q), fun _ hst ↦ absurd hst hstate,
    fun _ hpark ↦ absurd hpark hparked⟩

variable {main : CoreId → Main E}

namespace Scene

variable {x : Scene E} {strict : Prop} {c : CoreId} {m : Main E} {p q r : Pid} {P P' Q : Process E}

def goto (x : Scene E) (c : CoreId) (m : Main E) : Scene E := { x with main := update x.main c m }

@[simp] theorem goto_main_self : (x.goto c m).main c = m := by simp [goto]

theorem goto_main_ne {d : CoreId} (h : d ≠ c) : (x.goto c m).main d = x.main d := by
  simp [goto, h]

theorem parked_iff {t : Table E} (ht : t.Sound) (hc : t.current c = some p) :
    Parked t main p ↔ (main c).parks = true := by
  constructor
  · rintro ⟨d, hd, hp⟩
    rw [ht.injective c d p hc hd]
    exact hp
  · intro h
    exact ⟨c, hc, h⟩

theorem not_parked {t : Table E} (ht : t.Sound) (hP : t.view p = .occupied P)
    (hstate : P.state ≠ .running) : ¬ Parked t main p := by
  rintro ⟨d, hd, -⟩
  exact ht.not_current hP hstate d hd

theorem parked_congr {t t' : Table E} {main' : CoreId → Main E}
    (hmain : ∀ d, d ≠ c → main' d = main d) (hcurrent : ∀ d, d ≠ c → t'.current d = t.current d)
    (hold : t.current c = some p → (main c).parks = false)
    (hnew : t'.current c = some p → (main' c).parks = false) :
    Parked t' main' p ↔ Parked t main p := by
  constructor
  · rintro ⟨d, hd, hp⟩
    by_cases hdc : d = c
    · subst hdc
      rw [hnew hd] at hp
      cases hp
    · exact ⟨d, by rw [← hcurrent d hdc]; exact hd, by rw [← hmain d hdc]; exact hp⟩
  · rintro ⟨d, hd, hp⟩
    by_cases hdc : d = c
    · subst hdc
      rw [hold hd] at hp
      cases hp
    · exact ⟨d, by rw [hcurrent d hdc]; exact hd, by rw [hmain d hdc]; exact hp⟩

theorem Inv.coresPlain (h : x.Inv strict) {t : Table E} (hcaller : m.caller = none)
    (hchild : m.child = none) (hreserves : m.reserves = none) (hkills : m.kills = none)
    (hold : (x.main c).reserves = none)
    (hcurrent : ∀ d, d ≠ c → t.current d = x.table.current d)
    (hattached : m.attached = (t.current c).isSome)
    (hreserved : ∀ r, t.view r = .reserved ↔ x.table.view r = .reserved)
    (hfamily : ∀ d q r, d ≠ c → x.table.current d = some q → ChildOf x.table q r → ChildOf t q r) :
    Cores t (x.goto c m).main := by
  refine h.cores.step (fun _ ↦ goto_main_ne) hcurrent ?_ ?_ ?_ (fun r ↦ ?_) ?_ ?_ hfamily
  · rw [goto_main_self, hattached]
  · simp [hcaller]
  · simp [hchild]
  · simp [hreserves, hold, hreserved]
  · simp [hreserves]
  · simp [hkills]

theorem Inv.move (h : x.Inv strict) {evict : CoreId → UInt64}
    (hattached : m.attached = (x.main c).attached)
    (hcaller : ∀ p, m.caller = some p → x.table.current c = some p)
    (hchild : ∀ P, m.child = some P → P.parent = x.table.current c ∧ P.state = .suspended ∧
      P.waitWaiter = none ∧ P.pendingWake = none)
    (hreserves : m.reserves = (x.main c).reserves)
    (hkills : ∀ r, m.kills = some r → ∃ q, x.table.current c = some q ∧ ChildOf x.table q r)
    (hkept : ∀ r, (x.main c).kills = some r → m.kills = some r ∨ ¬ x.table.Live r)
    (hparks : m.parks = (x.main c).parks)
    (hevict : ∀ d, evict d = x.evict d ∨ evict d = 0 ∨ m.kills = some ⟨evict d⟩) :
    ({ x.goto c m with evict := evict } : Scene E).Inv strict := by
  have hmain : ∀ d, d ≠ c → (x.goto c m).main d = x.main d := fun d hd ↦ goto_main_ne hd
  have hcores : Cores x.table (x.goto c m).main := by
    refine h.cores.step hmain (fun _ _ ↦ rfl) ?_ ?_ ?_ (fun r ↦ ?_) (fun r hr ↦ ?_) ?_
      (fun _ _ _ _ _ hr ↦ hr)
    · rw [goto_main_self, hattached, h.cores.attached c]
    · rw [goto_main_self]
      exact hcaller
    · rw [goto_main_self]
      exact hchild
    · rw [goto_main_self, hreserves]
      constructor
      · intro hr
        by_cases hrc : (x.main c).reserves = some r
        · exact .inl hrc
        · exact .inr ⟨hr, hrc⟩
      · rintro (hr | hr)
        · exact h.cores.reserves c r hr
        · exact hr.1
    · rw [goto_main_self, hreserves] at hr
      exact .inl hr
    · rw [goto_main_self]
      exact hkills
  refine ⟨h.sound, hcores, ?_, ?_⟩
  · refine h.evictions.step h.sound hcores hmain (fun _ _ ↦ rfl) (fun p P hP hrun ↦ ?_)
      (fun _ hp ↦ hp) (fun _ _ hp ↦ hp) (fun p hp ↦ ?_) (fun d ↦ ?_)
    · exact .inr ⟨P, hP, hrun, .inl⟩
    · rw [goto_main_self]
      exact hkept p hp
    · rw [goto_main_self]
      exact hevict d
  · refine h.accounts.step h.accounts.known fun p P hP ↦ .inr
      ⟨P, hP, rfl, rfl, rfl, ?_, fun _ ↦ Iff.rfl⟩
    constructor
    · rintro ⟨d, hd, hp⟩
      by_cases hdc : d = c
      · subst hdc
        rw [goto_main_self, hparks] at hp
        exact ⟨d, hd, hp⟩
      · exact ⟨d, hd, by rw [← hmain d hdc]; exact hp⟩
    · rintro ⟨d, hd, hp⟩
      by_cases hdc : d = c
      · subst hdc
        exact ⟨d, hd, by rw [goto_main_self, hparks]; exact hp⟩
      · exact ⟨d, hd, by rw [hmain d hdc]; exact hp⟩

theorem childOf_revises {t t' : Table E} (h : t.Revises t') : ChildOf t q r → ChildOf t' q r := by
  rintro (⟨R, hR, hpar⟩ | ⟨status, hR⟩)
  · rcases h.slot r with heq | ⟨R₀, R', hR₀, hR', -, hpar'⟩
    · exact .inl ⟨R, by rw [heq, hR], hpar⟩
    · rw [hR] at hR₀
      cases hR₀
      exact .inl ⟨R', hR', hpar'.trans hpar⟩
  · exact .inr ⟨status, (h.other (by simp)).mpr hR⟩

theorem Inv.revise (h : x.Inv strict) {t : Table E} (hsound : t.Sound)
    (hrev : x.table.Revises t) (hcurrent : t.current = x.table.current)
    (hrunning : ∀ p P', t.view p = .occupied P' → P'.state = .running →
      ∃ P, x.table.view p = .occupied P ∧ P.state = .running)
    (haccounts : Accounts strict t x.main tokens) :
    ({ x with table := t, tokens := tokens } : Scene E).Inv strict := by
  have hreserved : ∀ r, t.view r = .reserved ↔ x.table.view r = .reserved :=
    fun r ↦ hrev.other (by simp)
  have hcores : Cores t x.main := by
    constructor
    · rw [hcurrent]
      exact h.cores.attached
    · rw [hcurrent]
      exact h.cores.caller
    · rw [hcurrent]
      exact h.cores.child
    · intro d r hr
      exact (hreserved r).mpr (h.cores.reserves d r hr)
    · exact h.cores.reserver
    · intro r hr
      exact h.cores.owner r ((hreserved r).mp hr)
    · intro d r hr
      obtain ⟨q, hq, hchild⟩ := h.cores.kills d r hr
      exact ⟨q, by rw [hcurrent]; exact hq, childOf_revises hrev hchild⟩
  refine ⟨hsound, hcores, ⟨fun p P' hP' hrun ↦ ?_, fun d hd ↦ ?_⟩, haccounts⟩
  · obtain ⟨P, hP, hrun'⟩ := hrunning p P' hP' hrun
    change (∃ d, t.current d = some p) ∨ _
    rw [hcurrent]
    exact h.evictions.evicted p P hP hrun'
  · obtain ⟨hk, hl⟩ := h.evictions.requests d hd
    exact ⟨hrev.known_iff.mpr hk, fun hlive ↦ hl (hrev.live_iff.mp hlive)⟩

/-- The record of `p` is replaced and at most the wakes for `p` change; no core moves. -/
theorem Inv.replace (h : x.Inv strict) {t : Table E} (hsound : t.Sound)
    (hrep : x.table.Replaces t p P P') (hcurrent : t.current = x.table.current)
    (hwaiter : P'.waitWaiter = P.waitWaiter) (hrunning : P'.state = .running → P.state = .running)
    (htokens : tokens p ≤ x.tokens p) (hother : ∀ q, q ≠ p → tokens q = x.tokens q)
    (haccount : Account strict (tokens p) P'.state P'.pendingWake (Parked x.table x.main p)
      (x.table.Waits p)) : ({ x with table := t, tokens := tokens } : Scene E).Inv strict := by
  have hparked : ∀ q, Parked t x.main q ↔ Parked x.table x.main q := fun q ↦ by
    unfold Parked
    rw [hcurrent]
  refine h.revise hsound hrep.revises hcurrent (fun q Q hQ hrun ↦ ?_)
    (h.accounts.step (fun q hq ↦ hrep.revises.known_iff.mpr (h.accounts.known q ?_)) fun q Q hQ ↦ ?_)
  · rcases hrep.occupied hQ with ⟨rfl, rfl⟩ | ⟨-, hQ⟩
    · exact ⟨P, hrep.old, hrunning hrun⟩
    · exact ⟨Q, hQ, hrun⟩
  · obtain rfl | hqp := eq_or_ne q p
    · omega
    · rwa [← hother q hqp]
  · rw [propext (hparked q), hrep.waits hwaiter]
    rcases hrep.occupied hQ with ⟨rfl, rfl⟩ | ⟨hqp, hQ⟩
    · exact .inl haccount
    · exact .inr ⟨Q, hQ, rfl, rfl, hother q hqp, Iff.rfl, fun _ ↦ Iff.rfl⟩

section

variable (h : x.Inv strict) (hP : x.table.view p = .occupied P)

include h hP

theorem Inv.touch (hpid : P'.pid = P.pid) (hstate : P'.state = P.state)
    (hparent : P'.parent = P.parent) (hwaiter : P'.waitWaiter = P.waitWaiter)
    (hpending : P'.pendingWake = P.pendingWake) :
    ({ x with table := x.table.set p (.occupied P') } : Scene E).Inv strict := by
  have hsound := h.sound.touch hP hpid hstate hparent hwaiter fun hb ↦
    hpending.trans (h.sound.blocked p P hP hb)
  refine h.replace hsound (replaces_set hP hpid hparent) rfl hwaiter
    (fun hrun ↦ hstate ▸ hrun) le_rfl (fun _ _ ↦ rfl) ?_
  rw [hstate, hpending]
  exact h.accounts.account p P hP

theorem Inv.makeReady (hpid : P'.pid = P.pid) (hparent : P'.parent = P.parent)
    (hwaiter : P'.waitWaiter = P.waitWaiter) (hready : P'.state = .ready)
    (hpending : P'.pendingWake = none) (hnot : P.state ≠ .ready)
    (hcur : ∀ c, x.table.current c ≠ some p) (hwaits : ∀ q, ¬ x.table.Waits p q)
    (htokens : tokens p = 0) (hother : ∀ q, q ≠ p → tokens q = x.tokens q) :
    ({ x with table := (x.table.set p (.occupied P')).enqueue p, tokens := tokens } :
      Scene E).Inv strict := by
  have hsound := h.sound.makeReady hP hpid hparent hwaiter hready hnot hcur hwaits
  refine h.replace hsound (replaces_enqueue hP hpid hparent) rfl hwaiter (by simp [hready])
    (by omega) hother (.quiet htokens hpending (by simp [hready]) ?_ hwaits)
  rintro ⟨d, hd, -⟩
  exact hcur d hd

theorem Inv.start (hsuspended : P.state = .suspended) :
    ({ x with table := (x.table.set p (.occupied { P with state := .ready })).enqueue p } :
      Scene E).Inv strict := by
  have hnready : P.state ≠ .ready := by rw [hsuspended]; simp
  have hnrun : P.state ≠ .running := by rw [hsuspended]; simp
  have hnblock : P.state ≠ .blocked := by rw [hsuspended]; simp
  obtain ⟨htokens, hpending⟩ :=
    (h.accounts.account p P hP).calm hnblock (not_parked h.sound hP hnrun)
  exact h.makeReady hP rfl rfl rfl rfl
    hpending hnready (h.sound.not_current hP hnrun) (h.sound.not_waits hP hnblock) htokens
    fun _ _ ↦ rfl

end

def spend (tokens : Pid → ℕ) (p : Pid) : Pid → ℕ := update tokens p (tokens p - 1)

theorem spend_ne (h : q ≠ p) : spend tokens p q = tokens q := by
  simp [spend, h]

theorem spend_le (tokens : Pid → ℕ) (p q : Pid) : spend tokens p q ≤ tokens q := by
  unfold spend
  by_cases h : q = p
  · subst h
    simp
  · simp [h]

theorem Inv.wake (h : x.Inv strict) (hp : 0 < x.tokens p) (result : WakeResult) :
    ({ x with table := x.table.wake p result, tokens := spend x.tokens p } :
      Scene E).Inv strict := by
  unfold Table.wake
  cases hP : x.table.view p with
  | occupied P =>
    have hacc := h.accounts.account p P hP
    have hone := hacc.single
    have hzero : spend x.tokens p p = 0 := by
      simp only [spend, update_self]
      omega
    have hnowait : ∀ q, ¬ x.table.Waits p q := by
      intro q hq
      have := (hacc.waiting q hq).1
      omega
    by_cases hblocked : P.state = .blocked
    · simp only [hblocked, if_true]
      have hnready : P.state ≠ .ready := by rw [hblocked]; simp
      have hnrun : P.state ≠ .running := by rw [hblocked]; simp
      exact h.makeReady hP (by simp) (by simp) (by simp) (by simp)
        (by simp [h.sound.blocked p P hP hblocked]) hnready (h.sound.not_current hP hnrun) hnowait
        hzero fun q hq ↦ spend_ne hq
    · simp only [hblocked, if_false]
      -- a wake for a process that is not blocked finds it about to block
      have hparked : Parked x.table x.main p := by
        by_contra hnot
        have := (hacc.calm hblocked hnot).1
        omega
      have hpid : { P with pendingWake := some result }.pid = P.pid := rfl
      have hwaiter : { P with pendingWake := some result }.waitWaiter = P.waitWaiter := rfl
      have hsound := h.sound.touch hP hpid rfl rfl hwaiter fun hb ↦ absurd hb hblocked
      refine h.replace hsound (Table.replaces_set hP hpid rfl) rfl hwaiter id (spend_le ..)
        (fun q hq ↦ spend_ne hq) ⟨?_, fun _ hnot ↦ absurd hparked hnot, fun r hr ↦ ?_, fun _ hst ↦ ?_,
          fun _ _ ↦ ?_⟩
      · simp [hzero, pendingTokens]
      · exact absurd hr (hnowait r)
      · exact absurd hst hblocked
      · simp [hzero, pendingTokens]
  | _ =>
    refine h.revise h.sound ⟨rfl, fun _ ↦ .inl rfl⟩ rfl (fun q Q hQ hrun ↦ ⟨Q, hQ, hrun⟩) ?_
    refine h.accounts.step (fun q hq ↦ ?_) fun q Q hQ ↦ ?_
    · have := spend_le x.tokens p q
      exact h.accounts.known q (by omega)
    · have hqp : q ≠ p := by
        rintro rfl
        rw [hP] at hQ
        cases hQ
      exact .inr ⟨Q, hQ, rfl, rfl, spend_ne hqp, Iff.rfl, fun _ ↦ Iff.rfl⟩

theorem Inv.lose (h : x.Inv strict) (hlossy : ¬ strict) (p : Pid) :
    ({ x with tokens := spend x.tokens p } : Scene E).Inv strict := by
  refine h.revise h.sound ⟨rfl, fun _ ↦ .inl rfl⟩ rfl (fun q Q hQ hrun ↦ ⟨Q, hQ, hrun⟩) ?_
  refine ⟨fun q hq ↦ ?_, fun q Q hQ ↦ ?_⟩
  · have := spend_le x.tokens p q
    exact h.accounts.known q (by omega)
  · have hle := spend_le x.tokens p q
    have hacc := h.accounts.account q Q hQ
    refine ⟨?_, fun hb hpark ↦ ?_, fun r hr ↦ ?_, fun hs ↦ absurd hs hlossy, fun hs ↦ absurd hs hlossy⟩
    · have := hacc.single
      omega
    · obtain ⟨hzero, hpend⟩ := hacc.calm hb hpark
      exact ⟨by omega, hpend⟩
    · obtain ⟨hzero, hunique⟩ := hacc.waiting r hr
      exact ⟨by omega, hunique⟩

theorem Inv.collect (h : x.Inv strict) {status : ExitStatus} (hc : x.table.current c = some q)
    (hz : x.table.view r = .zombie q status) (hkills : (x.main c).kills = none) :
    ({ x with table := x.table.set r .empty } : Scene E).Inv strict := by
  have hdead : ¬ x.table.Live r := by
    rintro ⟨R, hR⟩
    rw [hz] at hR
    cases hR
  have hocc : ∀ p P, (x.table.set r .empty).view p = .occupied P ↔ x.table.view p = .occupied P := by
    intro p P
    rw [set_view]
    split
    · rename_i hpr
      rw [hpr, hz]
      simp
    · rfl
  have hknown : ∀ p, x.table.Known p → (x.table.set r .empty).Known p := by
    rintro p ⟨hi, hr⟩
    refine ⟨hi, ?_⟩
    rw [set_view]
    split
    · simp
    · exact hr
  have hwaits : ∀ p q, (x.table.set r .empty).Waits p q ↔ x.table.Waits p q := by
    intro p q
    exact exists_congr fun Q ↦ and_congr (hocc q Q) Iff.rfl
  refine ⟨h.sound.vacate hdead, ?_, ⟨fun p P hP hrun ↦ ?_, fun d hd ↦ ?_⟩, ?_⟩
  · refine ⟨h.cores.attached, h.cores.caller, h.cores.child, fun d p hp ↦ ?_, h.cores.reserver,
      fun p hp ↦ ?_, fun d p hp ↦ ?_⟩
    · have hres := h.cores.reserves d p hp
      have hpr : p ≠ r := by
        rintro rfl
        rw [hz] at hres
        cases hres
      rw [set_of_ne hpr]
      exact hres
    · rw [set_view] at hp
      split at hp
      · cases hp
      · exact h.cores.owner p hp
    · obtain ⟨u, hu, hchild⟩ := h.cores.kills d p hp
      refine ⟨u, hu, ?_⟩
      have hpr : p ≠ r := by
        rintro rfl
        rcases hchild with ⟨R, hR, -⟩ | ⟨status', hR⟩
        · rw [hz] at hR
          cases hR
        · rw [hz] at hR
          cases hR
          rw [h.sound.injective d c q hu hc, hkills] at hp
          cases hp
      unfold ChildOf
      rw [set_of_ne hpr]
      exact hchild
  · exact h.evictions.evicted p P ((hocc p P).mp hP) hrun
  · obtain ⟨hk, hl⟩ := h.evictions.requests d hd
    refine ⟨hknown _ hk, fun ⟨P, hP⟩ ↦ hl ⟨P, (hocc _ P).mp hP⟩⟩
  · refine h.accounts.step (fun p hp ↦ hknown p (h.accounts.known p hp)) fun p P hP ↦ ?_
    exact .inr ⟨P, (hocc p P).mp hP, rfl, rfl, rfl, Iff.rfl, hwaits p⟩

theorem Inv.park (h : x.Inv strict) {f : TrapFrame}
    (hc : x.table.current c = some p) (hreserves : (x.main c).reserves = none)
    (hkills : (x.main c).kills = none) (hparks : (x.main c).parks = false)
    (htokens : tokens p = x.tokens p + 1) (hother : ∀ q, q ≠ p → tokens q = x.tokens q) :
    ({ x.goto c (.blockCurrent f) with tokens := tokens } : Scene E).Inv strict := by
  obtain ⟨P, hP, hrun⟩ := h.sound.running c p hc
  have hnblock : P.state ≠ .blocked := by rw [hrun]; simp
  have hmain : ∀ d, d ≠ c → (x.goto c (.blockCurrent f)).main d = x.main d :=
    fun d hd ↦ goto_main_ne hd
  have hcores : Cores x.table (x.goto c (.blockCurrent f)).main :=
    h.coresPlain rfl rfl rfl rfl hreserves (fun _ _ ↦ rfl) (by rw [hc]; rfl) (fun _ ↦ Iff.rfl)
      (fun _ _ _ _ _ hr ↦ hr)
  have hevictions : Evictions x.table (x.goto c (.blockCurrent f)).main x.evict :=
    h.evictions.step h.sound hcores hmain (fun _ _ ↦ rfl)
      (fun q Q hQ hq ↦ .inr ⟨Q, hQ, hq, .inl⟩) (fun _ hq ↦ hq) (fun _ _ hq ↦ hq)
      (by simp [hkills]) (fun d ↦ .inl rfl)
  have haccounts : Accounts strict x.table (x.goto c (.blockCurrent f)).main tokens := by
    have hnpark : ¬ Parked x.table x.main p := by
      rw [parked_iff h.sound hc, hparks]
      simp
    obtain ⟨hzero, hpending⟩ := (h.accounts.account p P hP).calm hnblock hnpark
    refine h.accounts.step (fun q hq ↦ ?_) fun q Q hQ ↦ ?_
    · by_cases hqp : q = p
      · rw [hqp]
        exact Table.Live.known ⟨P, hP⟩ h.sound
      · rw [hother q hqp] at hq
        exact h.accounts.known q hq
    · by_cases hqp : q = p
      · subst hqp
        rw [hP] at hQ
        cases hQ
        have hpark : Parked x.table (x.goto c (.blockCurrent f)).main q := ⟨c, hc, by simp [Main.parks]⟩
        refine .inl ⟨?_, fun _ hnot ↦ absurd hpark hnot, fun r hr ↦ ?_, fun _ hst ↦ ?_, fun _ _ ↦ ?_⟩
        · simp [htokens, hzero, hpending, pendingTokens]
        · exact absurd hr (h.sound.not_waits hP hnblock r)
        · exact absurd hst hnblock
        · simp [htokens, hzero, hpending, pendingTokens]
      · refine .inr ⟨Q, hQ, rfl, rfl, hother q hqp, ?_, fun _ ↦ Iff.rfl⟩
        refine parked_congr hmain (fun _ _ ↦ rfl) (fun _ ↦ hparks) fun hcq ↦ absurd ?_ hqp
        rw [hc] at hcq
        exact (Option.some.inj hcq).symm
  exact ⟨h.sound, hcores, hevictions, haccounts⟩

section Reservations

variable {t : Table E}

/-- A reservation is made, given up or filled: one slot without a process changes, and core `c`
goes on with `m`. -/
theorem Inv.relabel (h : x.Inv strict) (hsound : t.Sound) (hcurrent : t.current = x.table.current)
    (hview : ∀ q, q ≠ r → t.view q = x.table.view q) (hdead : ¬ x.table.Live r)
    (hknown : ∀ q, x.table.Known q → t.Known q) (hfresh : ¬ x.table.Known r)
    (hnew : ∀ R, t.view r = .occupied R → R.state ≠ .running ∧ R.state ≠ .blocked ∧
      R.waitWaiter = none ∧ R.pendingWake = none)
    (hattached : m.attached = (x.main c).attached)
    (hcaller : ∀ p, m.caller = some p → x.table.current c = some p) (hchild : m.child = none)
    (hreserved : ∀ q, t.view q = .reserved ↔ m.reserves = some q ∨
      (x.table.view q = .reserved ∧ (x.main c).reserves ≠ some q))
    (hfreshReserve : ∀ q, m.reserves = some q →
      (x.main c).reserves = some q ∨ x.table.view q ≠ .reserved)
    (hkills : (x.main c).kills = none) (hkills' : m.kills = none)
    (hparks : (x.main c).parks = false) (hparks' : m.parks = false) :
    ({ x.goto c m with table := t } : Scene E).Inv strict := by
  have hmain : ∀ d, d ≠ c → (x.goto c m).main d = x.main d := fun d hd ↦ goto_main_ne hd
  have hocc : ∀ q Q, x.table.view q = .occupied Q → t.view q = .occupied Q := by
    intro q Q hQ
    have hqr : q ≠ r := by
      rintro rfl
      exact hdead ⟨Q, hQ⟩
    rw [hview q hqr, hQ]
  have hback : ∀ q Q, t.view q = .occupied Q → q ≠ r → x.table.view q = .occupied Q := by
    intro q Q hQ hqr
    rw [← hview q hqr, hQ]
  have hcores : Cores t (x.goto c m).main := by
    refine h.cores.step hmain (fun d _ ↦ by rw [hcurrent]) ?_ ?_ ?_ ?_ ?_ ?_ ?_
    · rw [goto_main_self, hattached, hcurrent, h.cores.attached c]
    · rw [goto_main_self, hcurrent]
      exact hcaller
    · rw [goto_main_self, hchild]
      simp
    · rw [goto_main_self]
      exact hreserved
    · rw [goto_main_self]
      exact hfreshReserve
    · rw [goto_main_self, hkills']
      simp
    · rintro d q p - - hp
      have hpr : p ≠ r := by
        rintro rfl
        exact hfresh (hp.known h.sound)
      unfold ChildOf
      rw [hview p hpr]
      exact hp
  have hevictions : Evictions t (x.goto c m).main x.evict := by
    refine h.evictions.step hsound hcores hmain (fun d _ ↦ by rw [hcurrent]) (fun q Q hQ hrun ↦ ?_)
      hknown (fun q hk hl ↦ ?_) (by simp [hkills]) (fun d ↦ .inl rfl)
    · have hqr : q ≠ r := by
        rintro rfl
        exact (hnew Q hQ).1 hrun
      rw [hcurrent]
      exact .inr ⟨Q, hback q Q hQ hqr, hrun, .inl⟩
    · have hqr : q ≠ r := by
        rintro rfl
        exact hfresh hk
      obtain ⟨Q, hQ⟩ := hl
      exact ⟨Q, hback q Q hQ hqr⟩
  have hnowait : ∀ q w, q = r → ¬ t.Waits w q := by
    rintro q w rfl ⟨Q, hQ, hw⟩
    rw [(hnew Q hQ).2.2.1] at hw
    cases hw
  have hwaits : ∀ w q, t.Waits w q ↔ x.table.Waits w q := by
    intro w q
    by_cases hqr : q = r
    · refine iff_of_false (hnowait q w hqr) ?_
      rintro ⟨Q, hQ, -⟩
      exact hdead ⟨Q, hqr ▸ hQ⟩
    · unfold Table.Waits
      rw [hview q hqr]
  have haccounts : Accounts strict t (x.goto c m).main x.tokens := by
    refine h.accounts.step (fun q hq ↦ hknown q (h.accounts.known q hq)) fun q Q hQ ↦ ?_
    by_cases hqr : q = r
    · subst hqr
      obtain ⟨hrun, hblocked, -, hpending⟩ := hnew Q hQ
      have hzero : x.tokens q = 0 := by
        by_contra hne
        exact hfresh (h.accounts.known q (by omega))
      refine .inl (.quiet hzero hpending hblocked (not_parked hsound hQ hrun) fun p hp ↦ ?_)
      -- whoever is waited for by `q` would make `q` known
      obtain ⟨P, hP, hw⟩ := (hwaits q p).mp hp
      rcases h.sound.waiter p P q hP hw with ⟨-, W, hW, -⟩ | ⟨-, hk, -⟩
      · exact hdead ⟨W, hW⟩
      · exact hfresh hk
    · refine .inr ⟨Q, hback q Q hQ hqr, rfl, rfl, rfl, ?_, hwaits q⟩
      exact parked_congr hmain (fun d _ ↦ by rw [hcurrent]) (fun _ ↦ hparks)
        fun _ ↦ by rw [goto_main_self]; exact hparks'
  exact ⟨hsound, hcores, hevictions, haccounts⟩

theorem Inv.reserve (h : x.Inv strict) (hfresh : ¬ x.table.issued r)
    (hattached : m.attached = (x.main c).attached)
    (hcaller : ∀ p, m.caller = some p → x.table.current c = some p) (hchild : m.child = none)
    (hreserves : (x.main c).reserves = none) (hreserves' : m.reserves = some r)
    (hkills : (x.main c).kills = none) (hkills' : m.kills = none)
    (hparks : (x.main c).parks = false) (hparks' : m.parks = false) :
    ({ x.goto c m with table := (x.table.set r .reserved).issue r } : Scene E).Inv strict := by
  have hempty : x.table.view r = .empty := by
    by_contra hne
    exact hfresh (h.sound.issued r hne)
  refine h.relabel (r := r) (h.sound.reserve hfresh) rfl (fun q hq ↦ ?_) ?_ ?_
    (fun hk ↦ hfresh hk.1) (fun R hR ↦ ?_) hattached hcaller hchild (fun q ↦ ?_) (fun q hq ↦ ?_)
    hkills hkills' hparks hparks'
  · rw [issue_view, set_of_ne hq]
  · rintro ⟨R, hR⟩
    rw [hempty] at hR
    cases hR
  · rintro q ⟨hi, hr⟩
    refine ⟨.inr hi, ?_⟩
    have hqr : q ≠ r := by
      rintro rfl
      exact hfresh hi
    rw [issue_view, set_of_ne hqr]
    exact hr
  · simp at hR
  · rw [hreserves, hreserves', issue_view, set_view]
    by_cases hqr : q = r
    · simp [hqr]
    · have hrq : ¬ r = q := fun h ↦ hqr h.symm
      simp [hqr, hrq]
  · rw [hreserves'] at hq
    cases hq
    rw [hempty]
    exact .inr (by simp)

theorem Inv.settle (h : x.Inv strict) (slot : Slot E) (hsound : t.Sound)
    (hcurrent : t.current = x.table.current) (hissued : t.issued = x.table.issued)
    (hview : ∀ q, t.view q = if q = r then slot else x.table.view q)
    (hslot : slot ≠ .reserved)
    (hnew : ∀ R, slot = .occupied R → R.state ≠ .running ∧ R.state ≠ .blocked ∧
      R.waitWaiter = none ∧ R.pendingWake = none)
    (hreserves : (x.main c).reserves = some r) (hattached : m.attached = (x.main c).attached)
    (hplain : m.Plain) (hkills : (x.main c).kills = none) (hparks : (x.main c).parks = false) :
    ({ x.goto c m with table := t } : Scene E).Inv strict := by
  have hr := h.cores.reserves c r hreserves
  have hself : t.view r = slot := by rw [hview, if_pos rfl]
  refine h.relabel (r := r) hsound hcurrent (fun q hq ↦ ?_) ?_ ?_ (fun hk ↦ hk.2 hr)
    (fun R hR ↦ hnew R (hself ▸ hR)) hattached ?_ hplain.child (fun q ↦ ?_) ?_ hkills hplain.kills
    hparks hplain.parks
  · rw [hview, if_neg hq]
  · rintro ⟨R, hR⟩
    rw [hr] at hR
    cases hR
  · rintro q ⟨hi, hres⟩
    refine ⟨by rw [hissued]; exact hi, ?_⟩
    rw [hview]
    split
    · exact hslot
    · exact hres
  · intro p hp
    rw [hplain.caller] at hp
    cases hp
  · rw [hplain.reserves, hreserves, hview]
    by_cases hqr : q = r
    · simp [hqr, hslot]
    · have hrq : ¬ r = q := fun h ↦ hqr h.symm
      simp [hqr, hrq]
  · intro q hq
    rw [hplain.reserves] at hq
    cases hq

end Reservations

section Leaving

variable {t : Table E} {evict : CoreId → UInt64}

/-- Core `c` changes its process, or lets go of it, and goes on at a plain point. -/
theorem Inv.switch (h : x.Inv strict) (hsound : t.Sound) (hrev : x.table.Revises t)
    (hcurrent : ∀ d, d ≠ c → t.current d = x.table.current d)
    (hrunning : ∀ q Q', t.view q = .occupied Q' → Q'.state = .running → t.current c = some q ∨
      ∃ Q, x.table.view q = .occupied Q ∧ Q.state = .running ∧
        (x.table.current c = some q → ∃ d, (x.main d).kills = some q))
    (haccount : ∀ q Q', t.view q = .occupied Q' →
      Account strict (x.tokens q) Q'.state Q'.pendingWake (Parked t (x.goto c m).main q) (t.Waits q) ∨
      ∃ Q, x.table.view q = .occupied Q ∧ Q'.state = Q.state ∧ Q'.pendingWake = Q.pendingWake ∧
        x.table.current c ≠ some q ∧ ∀ r, t.Waits q r ↔ x.table.Waits q r)
    (hattached : m.attached = (t.current c).isSome) (hplain : m.Plain)
    (hreserves : (x.main c).reserves = none) (hkills : (x.main c).kills = none)
    (hevict : ∀ d, evict d = x.evict d ∨ evict d = 0) :
    ({ x.goto c m with table := t, evict := evict } : Scene E).Inv strict := by
  have hmain : ∀ d, d ≠ c → (x.goto c m).main d = x.main d := fun d hd ↦ goto_main_ne hd
  have hcores : Cores t (x.goto c m).main :=
    h.coresPlain hplain.caller hplain.child hplain.reserves hplain.kills hreserves hcurrent hattached
      (fun r ↦ hrev.other (by simp)) fun d q r _ _ hr ↦ childOf_revises hrev hr
  have hevictions : Evictions t (x.goto c m).main evict := by
    refine h.evictions.step hsound hcores hmain hcurrent (fun q Q' hQ' hrun' ↦ ?_)
      (fun q hq ↦ hrev.known_iff.mpr hq) (fun q _ hl ↦ hrev.live_iff.mp hl) (by simp [hkills])
      (fun d ↦ (hevict d).imp_right .inl)
    rcases hrunning q Q' hQ' hrun' with hnew | ⟨Q, hQ, hrun, hleft⟩
    · exact .inl hnew
    · refine .inr ⟨Q, hQ, hrun, fun hcq ↦ .inr ?_⟩
      obtain ⟨d, hd⟩ := hleft hcq
      have hdc : d ≠ c := by
        rintro rfl
        rw [hkills] at hd
        cases hd
      exact ⟨d, by rw [hmain d hdc]; exact hd⟩
  have haccounts : Accounts strict t (x.goto c m).main x.tokens := by
    refine h.accounts.step (fun q hq ↦ hrev.known_iff.mpr (h.accounts.known q hq)) fun q Q' hQ' ↦ ?_
    rcases haccount q Q' hQ' with hnew | ⟨Q, hQ, hst, hpend, hne, hwaits⟩
    · exact .inl hnew
    · exact .inr ⟨Q, hQ, hst, hpend, rfl, parked_congr hmain hcurrent (fun hcq ↦ absurd hcq hne)
        fun _ ↦ by rw [goto_main_self, hplain.parks], hwaits⟩
  exact ⟨hsound, hcores, hevictions, haccounts⟩

theorem Inv.detach (h : x.Inv strict) (hc : x.table.current c = some p) (hsound : t.Sound)
    (hrev : x.table.Revises t) (hcurrent : t.current = update x.table.current c none)
    (hrunning : ∀ P', t.view p = .occupied P' → P'.state = .running →
      ∃ d, (x.main d).kills = some p)
    (hsame : ∀ q Q', q ≠ p → t.view q = .occupied Q' →
      ∃ Q, x.table.view q = .occupied Q ∧ Q'.state = Q.state ∧ Q'.pendingWake = Q.pendingWake)
    (hwaits : ∀ w q, w ≠ p → (t.Waits w q ↔ x.table.Waits w q))
    (haccount : ∀ P', t.view p = .occupied P' →
      Account strict (x.tokens p) P'.state P'.pendingWake False (t.Waits p))
    (hattached : m.attached = false) (hplain : m.Plain) (hreserves : (x.main c).reserves = none)
    (hkills : (x.main c).kills = none) (hevict : ∀ d, evict d = x.evict d ∨ evict d = 0) :
    ({ x.goto c m with table := t, evict := evict } : Scene E).Inv strict := by
  have hcur : ∀ d, d ≠ c → t.current d = x.table.current d := by
    intro d hd
    rw [hcurrent, update_of_ne hd]
  have hnone : t.current c = none := by rw [hcurrent, update_self]
  have hleft : ∀ q, q ≠ p → x.table.current c ≠ some q := by
    intro q hqp hcq
    rw [hc] at hcq
    exact hqp (Option.some.inj hcq).symm
  obtain ⟨P, hP, hrun⟩ := h.sound.running c p hc
  refine h.switch hsound hrev hcur (fun q Q' hQ' hrun' ↦ .inr ?_) (fun q Q' hQ' ↦ ?_)
    (by rw [hattached, hnone]; rfl) hplain hreserves hkills hevict
  · obtain rfl | hqp := eq_or_ne q p
    · exact ⟨P, hP, hrun, fun _ ↦ hrunning Q' hQ' hrun'⟩
    · obtain ⟨Q, hQ, hst, -⟩ := hsame q Q' hqp hQ'
      exact ⟨Q, hQ, hst ▸ hrun', fun hcq ↦ absurd hcq (hleft q hqp)⟩
  · obtain rfl | hqp := eq_or_ne q p
    · have hnot : Parked t (x.goto c m).main q ↔ False := by
        refine iff_false_intro ?_
        rintro ⟨d, hd, -⟩
        obtain rfl | hdc := eq_or_ne d c
        · rw [hnone] at hd
          cases hd
        · rw [hcur d hdc] at hd
          exact hdc (h.sound.injective d c q hd hc)
      rw [propext hnot]
      exact .inl (haccount Q' hQ')
    · obtain ⟨Q, hQ, hst, hpend⟩ := hsame q Q' hqp hQ'
      exact .inr ⟨Q, hQ, hst, hpend, hleft q hqp, fun r ↦ hwaits q r hqp⟩

section

variable (h : x.Inv strict) (hc : x.table.current c = some p) (hP : x.table.view p = .occupied P)
  (hattached : m.attached = false) (hplain : m.Plain) (hreserves : (x.main c).reserves = none)
  (hkills : (x.main c).kills = none)

include h hc hP

theorem Inv.state_running : P.state = .running := by
  obtain ⟨P₀, hP₀, hrun⟩ := h.sound.running c p hc
  rw [hP] at hP₀
  cases hP₀
  exact hrun

theorem Inv.not_waits_current (q : Pid) : ¬ x.table.Waits p q :=
  h.sound.not_waits hP (by rw [h.state_running hc hP]; simp) q

theorem Inv.calm_current (hparks : (x.main c).parks = false) :
    x.tokens p = 0 ∧ P.pendingWake = none := by
  refine (h.accounts.account p P hP).calm (by rw [h.state_running hc hP]; simp) ?_
  rw [parked_iff h.sound hc, hparks]
  simp

omit hP in
theorem released_not_current (d : CoreId) : (x.table.setCurrent c none).current d ≠ some p := by
  rw [setCurrent_current]
  split
  · simp
  · rename_i hdc
    exact fun hd ↦ hdc (h.sound.injective d c p hd hc)

include hattached hplain hreserves hkills

theorem Inv.detach_set (hsound : t.Sound) (hrep : x.table.Replaces t p P P')
    (hcurrent : t.current = update x.table.current c none) (hwaiter : P'.waitWaiter = P.waitWaiter)
    (hrunning : P'.state = .running → ∃ d, (x.main d).kills = some p)
    (haccount : Account strict (x.tokens p) P'.state P'.pendingWake False fun _ ↦ False)
    (hevict : ∀ d, evict d = x.evict d ∨ evict d = 0) :
    ({ x.goto c m with table := t, evict := evict } : Scene E).Inv strict := by
  have hwaits := hrep.waits hwaiter
  refine h.detach hc hsound hrep.revises hcurrent (fun Q hQ ↦ ?_) (fun q Q' hqp hQ' ↦ ?_)
    (fun w q _ ↦ by rw [hwaits]) (fun Q hQ ↦ ?_) hattached hplain hreserves hkills hevict
  · cases hrep.self.symm.trans hQ
    exact hrunning
  · rw [hrep.of_ne hqp] at hQ'
    exact ⟨Q', hQ', rfl, rfl⟩
  · cases hrep.self.symm.trans hQ
    have hnone : t.Waits p = fun _ ↦ False :=
      funext fun q ↦ eq_false fun hq ↦ h.not_waits_current hc hP q (hwaits ▸ hq)
    rw [hnone]
    exact haccount

theorem Inv.detach_ready (htokens : x.tokens p = 0) (hpid : P'.pid = P.pid)
    (hparent : P'.parent = P.parent) (hwaiter : P'.waitWaiter = P.waitWaiter)
    (hpending : P'.pendingWake = none) (hready : P'.state = .ready) :
    ({ x.goto c m with table := x.table.letGo c p P' [p] } : Scene E).Inv strict := by
  have hsound := (h.sound.release c).makeReady (p := p) hP hpid hparent hwaiter hready
    (by rw [h.state_running hc hP]; simp) (released_not_current h hc) (h.not_waits_current hc hP)
  exact h.detach_set hc hP hattached hplain hreserves hkills hsound
    (replaces_letGo hP hpid hparent) rfl hwaiter (by simp [hready])
    (.quiet htokens hpending (by simp [hready]) id fun _ ↦ id) fun _ ↦ .inl rfl

theorem Inv.preempt (hparks : (x.main c).parks = false) (hpid : P'.pid = P.pid)
    (hparent : P'.parent = P.parent) (hwaiter : P'.waitWaiter = P.waitWaiter)
    (hpending : P'.pendingWake = P.pendingWake) (hready : P'.state = .ready) :
    ({ x.goto c m with table := x.table.letGo c p P' [p] } : Scene E).Inv strict := by
  obtain ⟨htokens, hnone⟩ := h.calm_current hc hP hparks
  exact h.detach_ready hc hP hattached hplain hreserves hkills htokens hpid hparent hwaiter
    (hpending.trans hnone) hready

theorem Inv.block (hparks : (x.main c).parks = true) (hpid : P'.pid = P.pid)
    (hparent : P'.parent = P.parent) (hwaiter : P'.waitWaiter = P.waitWaiter)
    (hpending : P'.pendingWake = none) (hnone : P.pendingWake = none) (hblocked : P'.state = .blocked) :
    ({ x.goto c m with table := x.table.letGo c p P' [] } : Scene E).Inv strict := by
  have hacc := h.accounts.account p P hP
  have hrun := h.state_running hc hP
  have hsound : (x.table.letGo c p P' []).Sound := by
    rw [show x.table.letGo c p P' [] = (x.table.setCurrent c none).set p (.occupied P') by
      simp [Table.letGo, Table.set, Table.setCurrent]]
    exact (h.sound.release c).makeBlocked (p := p) hP hpid hparent hwaiter hblocked hpending hrun
      (released_not_current h hc)
  refine h.detach_set hc hP hattached hplain hreserves hkills hsound
    (Table.replaces_letGo hP hpid hparent) rfl hwaiter (by simp [hblocked]) ?_
    fun _ ↦ .inl rfl
  have hsingle := hacc.single
  rw [hnone] at hsingle
  rw [hblocked, hpending]
  refine ⟨hsingle, fun hne _ ↦ absurd rfl hne, fun _ hf ↦ hf.elim, fun hs _ _ ↦ ?_,
    fun _ hf ↦ hf.elim⟩
  have hone := hacc.parking hs ((parked_iff h.sound hc).mpr hparks)
  rw [hnone] at hone
  simpa [pendingTokens] using hone

theorem Inv.blockWoken (hpid : P'.pid = P.pid) (hparent : P'.parent = P.parent)
    (hwaiter : P'.waitWaiter = P.waitWaiter) (hpending : P'.pendingWake = none)
    (hsome : P.pendingWake.isSome) (hready : P'.state = .ready) :
    ({ x.goto c m with table := x.table.letGo c p P' [p] } : Scene E).Inv strict := by
  refine h.detach_ready hc hP hattached hplain hreserves hkills ?_ hpid hparent hwaiter hpending hready
  have hsingle := (h.accounts.account p P hP).single
  simp only [pendingTokens, hsome, if_true] at hsingle
  omega

theorem Inv.evictCurrent (hparks : (x.main c).parks = false) (hraw : x.evict c = p.raw)
    (hne : x.evict c ≠ 0) :
    ({ x.goto c m with
        table := x.table.setCurrent c none
        evict := update x.evict c 0 } : Scene E).Inv strict := by
  obtain ⟨htokens, hnone⟩ := h.calm_current hc hP hparks
  have hself : (⟨x.evict c⟩ : Pid) = p := by rw [hraw]
  refine h.detach_set hc hP hattached hplain hreserves hkills (h.sound.release c)
    ⟨hP, fun q ↦ ?_, rfl, rfl, rfl⟩ rfl rfl (fun _ ↦ ?_) ?_ fun d ↦ ?_
  · rw [setCurrent_view]
    split
    · rename_i hqp
      rw [hqp, hP]
    · rfl
  · have hrequest := (h.evictions.requests c hne).2
    rw [hself] at hrequest
    exact hrequest ⟨P, hP⟩
  · exact .quiet htokens hnone (by simp [h.state_running hc hP]) id fun _ ↦ id
  · by_cases hdc : d = c
    · subst hdc
      exact .inr (by simp)
    · exact .inl (by simp [hdc])

theorem Inv.wait (hparks : (x.main c).parks = false) (hpid : P'.pid = P.pid)
    (hparent : P'.parent = P.parent) (hwaiter : P'.waitWaiter = P.waitWaiter)
    (hpending : P'.pendingWake = none) (hblocked : P'.state = .blocked)
    (hQ : x.table.view q = .occupied Q) (hchild : Q.parent = some p) :
    ({ x.goto c m with
        table := (x.table.set q (.occupied { Q with waitWaiter := some p })).letGo c p P' [] } :
      Scene E).Inv strict := by
  obtain ⟨htokens, hnone⟩ := h.calm_current hc hP hparks
  have hrun := h.state_running hc hP
  have hqp : q ≠ p := ((h.sound.parent q Q p hQ hchild).1).symm
  have hsound := (h.sound.release c).makeWaiting (p := p) (q := q) hP hpid hparent hwaiter hblocked
    hpending hrun (released_not_current h hc) hQ hchild
  -- nobody was registered with the child yet: only its running parent could have been
  have hfree : ∀ w, Q.waitWaiter ≠ some w := by
    intro w hw
    rcases h.sound.waiter q Q w hQ hw with ⟨hw', W, hW, hst⟩ | ⟨hw', -⟩
    · rw [hchild] at hw'
      cases hw'
      rw [hP] at hW
      cases hW
      rw [hrun] at hst
      cases hst
    · rw [hchild] at hw'
      cases hw'
  rw [show ((x.table.setCurrent c none).set q (.occupied { Q with waitWaiter := some p })).set p
      (.occupied P') = (x.table.set q (.occupied { Q with waitWaiter := some p })).letGo c p P' [] by
    simp [Table.letGo, Table.set, Table.setCurrent]] at hsound
  generalize ht : (x.table.set q (.occupied { Q with waitWaiter := some p })).letGo c p P' [] = t
    at hsound ⊢
  have hself : t.view p = .occupied P' := by rw [← ht]; simp
  have hq : t.view q = .occupied { Q with waitWaiter := some p } := by rw [← ht]; simp [hqp]
  have hother : ∀ r, r ≠ p → r ≠ q → t.view r = x.table.view r := by
    intro r hrp hrq
    rw [← ht]
    simp [hrp, hrq]
  have hwaits : ∀ w r, t.Waits w r ↔ x.table.Waits w r ∨ (w = p ∧ r = q) := by
    intro w r
    unfold Table.Waits
    by_cases hrp : r = p
    · subst hrp
      simp [hself, hP, hwaiter, hqp.symm]
    · by_cases hrq : r = q
      · subst hrq
        simp [hq, hQ, hfree w, eq_comm]
      · simp [hother r hrp hrq, hrq]
  refine h.detach hc hsound ⟨by rw [← ht]; rfl, fun r ↦ ?_⟩ (by rw [← ht]; rfl) (fun R hR hst ↦ ?_)
    (fun r R hrp hR ↦ ?_) (fun w r hwp ↦ ?_) (fun R hR ↦ ?_) hattached hplain hreserves hkills
    fun _ ↦ .inl rfl
  · by_cases hrp : r = p
    · subst hrp
      exact .inr ⟨P, P', hP, hself, hpid, hparent⟩
    · by_cases hrq : r = q
      · subst hrq
        exact .inr ⟨Q, _, hQ, hq, rfl, rfl⟩
      · exact .inl (hother r hrp hrq)
  · rw [hself] at hR
    cases hR
    rw [hblocked] at hst
    cases hst
  · by_cases hrq : r = q
    · subst hrq
      rw [hq] at hR
      cases hR
      exact ⟨Q, hQ, rfl, rfl⟩
    · exact ⟨R, by rw [← hother r hrp hrq, hR], rfl, rfl⟩
  · rw [hwaits]
    simp [hwp]
  · rw [hself] at hR
    cases hR
    have hnow := h.not_waits_current hc hP
    rw [hblocked, hpending, htokens]
    refine ⟨by simp [pendingTokens], fun hne _ ↦ absurd rfl hne, fun r hr ↦ ⟨rfl, fun r' hr' ↦ ?_⟩,
      fun _ _ hnot ↦ absurd ((hwaits p q).mpr (.inr ⟨rfl, rfl⟩)) (hnot q), fun _ hf ↦ hf.elim⟩
    rcases (hwaits p r).mp hr with hr | ⟨-, rfl⟩
    · exact absurd hr (hnow r)
    rcases (hwaits p r').mp hr' with hr' | ⟨-, rfl⟩
    · exact absurd hr' (hnow r')
    · rfl

end

end Leaving

theorem Inv.dispatch (h : x.Inv strict) {rest : List Pid} (hqueue : x.table.queue = p :: rest)
    (hP : x.table.view p = .occupied P) (hidle : (x.main c).attached = false)
    (hreserves : (x.main c).reserves = none) (hkills : (x.main c).kills = none)
    (hattached : m.attached = true) (hplain : m.Plain) :
    ({ x.goto c m with table := x.table.dispatch c p P } : Scene E).Inv strict := by
  have hsound := h.sound.dispatch (c := c) hqueue hP
  have hrep := replaces_dispatch (c := c) hP
  have hself : (x.table.dispatch c p P).current c = some p := by
    rw [dispatch_current, if_pos rfl]
  have hnone : x.table.current c = none := by
    have := h.cores.attached c
    rw [hidle] at this
    simpa using this.symm
  have hready : P.state = .ready := by
    obtain ⟨P₀, hP₀, hst⟩ := (h.sound.queued p).mp (by rw [hqueue]; exact List.mem_cons_self)
    rw [hP] at hP₀
    cases hP₀
    exact hst
  have hnblock : P.state ≠ .blocked := by rw [hready]; simp
  have hcur : ∀ q, x.table.current c ≠ some q := by simp [hnone]
  refine h.switch hsound hrep.revises (fun d hd ↦ ?_) (fun q Q hQ hrun ↦ ?_) (fun q Q hQ ↦ ?_)
    (by rw [hattached, hself]; rfl) hplain hreserves hkills fun _ ↦ .inl rfl
  · rw [dispatch_current, if_neg hd]
  · rcases hrep.occupied hQ with ⟨rfl, rfl⟩ | ⟨-, hQ⟩
    · exact .inl hself
    · exact .inr ⟨Q, hQ, hrun, fun hcq ↦ absurd hcq (hcur q)⟩
  · rw [hrep.waits rfl]
    rcases hrep.occupied hQ with ⟨rfl, rfl⟩ | ⟨-, hQ⟩
    · obtain ⟨hzero, hpending⟩ := (h.accounts.account q P hP).calm hnblock
        (not_parked h.sound hP (by rw [hready]; simp))
      refine .inl (.quiet hzero hpending (by simp) ?_ (h.sound.not_waits hP hnblock))
      rw [parked_iff hsound hself, goto_main_self, hplain.parks]
      simp
    · exact .inr ⟨Q, hQ, rfl, rfl, hcur q, fun _ ↦ Iff.rfl⟩

section Finalize

variable {status : ExitStatus} (h : x.Inv strict) (hP : x.table.view p = .occupied P)

include h hP

theorem Inv.waiter_unique (w q : Pid) (hw : P.waitWaiter = some w) (hlive : x.table.Live w)
    (hq : x.table.Waits w q) : q = p := by
  obtain ⟨W, hW⟩ := hlive
  exact ((h.accounts.account w W hW).waiting p ⟨P, hP, hw⟩).2 q hq

theorem Inv.finalize_childOf {d : CoreId} (hd : x.table.current d = some q) (hqp : q ≠ p)
    (hr : ChildOf x.table q r) : ChildOf (x.table.finalize p P status) q r := by
  obtain ⟨Q, hQ, hrun⟩ := h.sound.running d q hd
  rcases hr with ⟨R, hR, hpar⟩ | ⟨st, hR⟩
  · by_cases hrp : r = p
    · subst hrp
      rw [hP] at hR
      cases hR
      -- a running parent is not waiting, so the child leaves a zombie
      have hwait : P.waitWaiter = none := by
        cases hw : P.waitWaiter with
        | none => rfl
        | some w =>
          rcases h.sound.waiter r P w hP hw with ⟨hw', W, hW, hst⟩ | ⟨hw', -⟩
          · rw [hpar] at hw'
            cases hw'
            rw [hQ] at hW
            cases hW
            rw [hrun] at hst
            cases hst
          · rw [hpar] at hw'
            cases hw'
      refine .inr ⟨status, ?_⟩
      rw [finalize_view h.sound hP, if_pos rfl]
      simp [remains, hwait, hpar, reapedSlot, hqp]
    · have hne : R.parent ≠ some p := by
        rw [hpar]
        exact fun h ↦ hqp (Option.some.inj h)
      obtain ⟨R', hR', hout⟩ := finalize_survives h.sound hP hrp hR fun h ↦ hne h.1
      rcases hout.parent with ⟨hbad, -⟩ | ⟨-, hsame⟩
      · exact absurd hbad hne
      · exact .inl ⟨R', hR', hsame.trans hpar⟩
  · have hrp : r ≠ p := by
      rintro rfl
      rw [hP] at hR
      cases hR
    refine .inr ⟨st, ?_⟩
    rw [finalize_view h.sound hP, if_neg hrp, hR]
    simp [wokenSlot, reapedSlot, hqp]

theorem Inv.finalize_waits {w : Pid} (hlive : (x.table.finalize p P status).Live w) :
    (x.table.finalize p P status).Waits w q ↔ x.table.Waits w q ∧ q ≠ p := by
  obtain ⟨W', hW'⟩ := hlive
  have hwp : w ≠ p := (finalize_occupied h.sound hP hW').1
  constructor
  · rintro ⟨Q', hQ', hw⟩
    obtain ⟨hqp, Q, hQ, hout⟩ := finalize_occupied h.sound hP hQ'
    exact ⟨⟨Q, hQ, hout.waitWaiter ▸ hw⟩, hqp⟩
  · rintro ⟨⟨Q, hQ, hw⟩, hqp⟩
    obtain ⟨Q', hQ', hout⟩ := finalize_survives h.sound hP hqp hQ (by
      rintro ⟨hpar, -⟩
      rcases h.sound.waiter q Q w hQ hw with ⟨hw', -⟩ | ⟨hw', -⟩
      · rw [hpar] at hw'
        exact hwp (Option.some.inj hw').symm
      · rw [hpar] at hw'
        cases hw')
    exact ⟨Q', hQ', hout.waitWaiter.trans hw⟩

theorem Inv.finalize (hcur : ∀ d, d ≠ c → x.table.current d ≠ some p)
    (hreserves : (x.main c).reserves = none) (hkills : ∀ r, (x.main c).kills = some r → r = p)
    (hparks : (x.main c).parks = false)
    (hattached : m.attached = ((x.table.finalize p P status).current c).isSome) (hplain : m.Plain) :
    ({ x.goto c m with table := x.table.finalize p P status } : Scene E).Inv strict := by
  have hmain : ∀ d, d ≠ c → (x.goto c m).main d = x.main d := fun d hd ↦ goto_main_ne hd
  have hsound : (x.table.finalize p P status).Sound :=
    h.sound.finalize hP (h.waiter_unique hP)
  have hcurrent : ∀ d, d ≠ c → (x.table.finalize p P status).current d = x.table.current d := by
    intro d hd
    rw [finalize_current, if_neg (hcur d hd)]
  have hcores : Cores (x.table.finalize p P status) (x.goto c m).main := by
    refine h.coresPlain hplain.caller hplain.child hplain.reserves hplain.kills hreserves hcurrent
      hattached (fun r ↦ finalize_reserved h.sound hP) fun d q r hd hq hr ↦ ?_
    have hqp : q ≠ p := by
      rintro rfl
      exact hcur d hd hq
    exact h.finalize_childOf hP hq hqp hr
  have hevictions : Evictions (x.table.finalize p P status) (x.goto c m).main x.evict := by
    refine h.evictions.step hsound hcores hmain hcurrent (fun q Q' hQ' hrun' ↦ ?_)
      (fun q hq ↦ (finalize_known h.sound hP).mpr hq)
      (fun q _ hl ↦ finalize_live h.sound hP hl) (fun q hq ↦ ?_) (fun d ↦ .inl rfl)
    · obtain ⟨hqp, Q, hQ, hout⟩ := finalize_occupied h.sound hP hQ'
      rcases hout.state with ⟨-, hst⟩ | ⟨-, -, hst⟩
      · refine .inr ⟨Q, hQ, hst ▸ hrun', fun hcq ↦ .inl ?_⟩
        rw [finalize_current, if_neg, hcq]
        rw [hcq]
        exact fun h ↦ hqp (Option.some.inj h)
      · rw [hrun'] at hst
        cases hst
    · rw [hkills q hq]
      exact .inr (finalize_dead h.sound hP)
  have haccounts : Accounts strict (x.table.finalize p P status) (x.goto c m).main x.tokens := by
    refine h.accounts.step
      (fun q hq ↦ (finalize_known h.sound hP).mpr (h.accounts.known q hq)) fun q Q' hQ' ↦ ?_
    have hlive : (x.table.finalize p P status).Live q := ⟨Q', hQ'⟩
    obtain ⟨hqp, Q, hQ, hout⟩ := finalize_occupied h.sound hP hQ'
    rcases hout.state with ⟨hne, hst⟩ | ⟨hw, hblocked, hready⟩
    · refine .inr ⟨Q, hQ, hst, hout.pendingWake, rfl, ?_, fun r ↦ ?_⟩
      · exact parked_congr hmain hcurrent (fun _ ↦ hparks) fun _ ↦ by
          rw [goto_main_self, hplain.parks]
      · rw [h.finalize_waits hP hlive]
        refine and_iff_left_of_imp ?_
        rintro ⟨R, hR, hw⟩ rfl
        rw [hP] at hR
        cases hR
        exact hne hw
    · -- the parent that was waiting is ready again
      have hacc := h.accounts.account q Q hQ
      have hnrun : Q'.state ≠ .running := by rw [hready]; simp
      have hzero := (hacc.waiting p ⟨P, hP, hw⟩).1
      have hnone : Q'.pendingWake = none := hout.pendingWake.trans (h.sound.blocked q Q hQ hblocked)
      refine .inl (.quiet hzero hnone (by simp [hready]) (not_parked hsound hQ' hnrun) fun r hr ↦ ?_)
      obtain ⟨hr, hrp⟩ := (h.finalize_waits hP hlive).mp hr
      exact hrp (h.waiter_unique hP q r hw ⟨Q, hQ⟩ hr)
  exact ⟨hsound, hcores, hevictions, haccounts⟩

end Finalize

end Scene

end Tarnos.Kernel
