import Mathlib.Data.List.Nodup
import Tarnos.Foundation.Locking

namespace Tarnos.Foundation.Locking

open Function

variable {C L ι Op : Type} {guards : List (Guard L)} {todo : List (Code L ι)}
  {trace : List (Event C L)}

section Rules

variable (before : L → L → Prop)

def Context.May (x : Context L) (l : L) : Prop := ∀ k ∈ x.held, before k l

def Context.push (x : Context L) (l : L) : Context L :=
  ⟨⟨l, x.enabled⟩ :: x.guards, x.forgotten, false⟩

/-- The weakest condition under which the code keeps to the order `before`, drops its guards
newest first, enables interrupts only while it holds nothing, and ends in `post`. -/
def wp : Code L ι → (Context L → Prop) → Context L → Prop
  | .skip, post, x => post x
  | .lock l, post, x => x.May before l ∧ post (x.push l)
  | .acquire l were, post, x =>
    x.May before l ∧ x.enabled = false ∧ post { x with guards := ⟨l, were⟩ :: x.guards }
  | .drop l, post, x => ∃ were guards, x.guards = ⟨l, were⟩ :: guards ∧
    (were = true → guards = [] ∧ x.forgotten = []) ∧
    post ⟨guards, x.forgotten, x.enabled || were⟩
  | .restore were, post, x =>
    (were = true → x.guards = [] ∧ x.forgotten = []) ∧
    post { x with enabled := x.enabled || were }
  | .forget l, post, x => ∃ were guards, x.guards = ⟨l, were⟩ :: guards ∧
    post ⟨guards, l :: x.forgotten, x.enabled⟩
  | .forceUnlock l, post, x => ∃ forgotten, x.forgotten = l :: forgotten ∧
    post { x with forgotten := forgotten }
  | .cli, post, x => post { x with enabled := false }
  | .sti, post, x | .hlt, post, x => x.held = [] ∧ post { x with enabled := true }
  | .seq first second, post, x => wp first (wp second post) x
  | .either one other, post, x => wp one post x ∧ wp other post x
  | .loop body, post, x => ∃ I : Context L → Prop, I x ∧ ∀ y, I y → wp body I y ∧ post y
  | .each body, post, x =>
    ∃ I : Context L → Prop, I x ∧ ∀ y, I y → (∀ i, wp (body i) I y) ∧ post y
  | .forever body, _, x => ∃ I : Context L → Prop, I x ∧ ∀ y, I y → wp body I y
  | .leave, _, x | .halt, _, x => x.held = []

variable {before} {P Q : Context L → Prop} {x : Context L}

theorem held_eq_nil : x.held = [] ↔ x.guards = [] ∧ x.forgotten = [] := by
  unfold Context.held
  rw [List.append_eq_nil_iff, List.map_eq_nil_iff]

theorem wp_mono (himp : ∀ y, P y → Q y) (code : Code L ι) (h : wp before code P x) :
    wp before code Q x := by
  induction code generalizing P Q x with
  | skip => exact himp x h
  | lock l | restore were | sti | hlt => exact ⟨h.1, himp _ h.2⟩
  | acquire l were => exact ⟨h.1, h.2.1, himp _ h.2.2⟩
  | drop l =>
    obtain ⟨were, guards, hguards, hquiet, hpost⟩ := h
    exact ⟨were, guards, hguards, hquiet, himp _ hpost⟩
  | forget l =>
    obtain ⟨were, guards, hguards, hpost⟩ := h
    exact ⟨were, guards, hguards, himp _ hpost⟩
  | forceUnlock l =>
    obtain ⟨forgotten, hforgotten, hpost⟩ := h
    exact ⟨forgotten, hforgotten, himp _ hpost⟩
  | cli => exact himp _ h
  | seq first second ihfirst ihsecond => exact ihfirst (fun y hy ↦ ihsecond himp hy) h
  | either one other ihone ihother => exact ⟨ihone himp h.1, ihother himp h.2⟩
  | loop body | each body =>
    obtain ⟨I, hI, hbody⟩ := h
    exact ⟨I, hI, fun y hy ↦ ⟨(hbody y hy).1, himp y (hbody y hy).2⟩⟩
  | forever body | leave | halt => exact h

variable (before) in
/-- The code keeps to the order and gives back the locks and the interrupt flag it found. -/
def Neutral (code : Code L ι) (x : Context L) : Prop := ∀ post, post x → wp before code post x

def Context.Calm (x : Context L) : Prop := x.enabled = true → x.held = []

theorem neutral_skip : Neutral before (.skip : Code L ι) x := fun _ h ↦ h

theorem Neutral.seq {first second : Code L ι} (h₁ : Neutral before first x)
    (h₂ : Neutral before second x) : Neutral before (.seq first second) x :=
  fun _ hpost ↦ h₁ _ (h₂ _ hpost)

theorem Neutral.either {one other : Code L ι} (h₁ : Neutral before one x)
    (h₂ : Neutral before other x) : Neutral before (.either one other) x :=
  fun _ hpost ↦ ⟨h₁ _ hpost, h₂ _ hpost⟩

theorem Neutral.loop {body : Code L ι} (h : Neutral before body x) :
    Neutral before (.loop body) x := by
  intro post hpost
  refine ⟨fun y ↦ y = x, rfl, ?_⟩
  rintro y rfl
  exact ⟨h _ rfl, hpost⟩

theorem Neutral.each {body : ι → Code L ι} (h : ∀ i, Neutral before (body i) x) :
    Neutral before (.each body) x := by
  intro post hpost
  refine ⟨fun y ↦ y = x, rfl, ?_⟩
  rintro y rfl
  exact ⟨fun i ↦ h i _ rfl, hpost⟩

theorem wp_drop_push {l : L} (hcalm : x.Calm) (h : Q x) :
    wp before (.drop l : Code L ι) Q (x.push l) := by
  refine ⟨x.enabled, x.guards, rfl, fun henabled ↦ held_eq_nil.mp (hcalm henabled), ?_⟩
  have hflag : ((x.push l).enabled || x.enabled) = x.enabled := Bool.false_or x.enabled
  rw [hflag]
  exact h

theorem calm_push (l : L) : (x.push l).Calm := fun h ↦ nomatch h

theorem Neutral.within {l : L} {body : Code L ι} (hcalm : x.Calm) (hmay : x.May before l)
    (h : Neutral before body (x.push l)) : Neutral before (.within l body) x :=
  fun _ hpost ↦ ⟨hmay, h _ (wp_drop_push hcalm hpost)⟩

end Rules

section Soundness

variable {before : L → L → Prop} {x : Context L}

variable (before) in
def Follows : List (Code L ι) → Context L → Prop
  | [], x => x.held = []
  | code :: rest, x => wp before code (Follows rest) x

/-- What one core keeps: it follows the rules from where it is, and interrupts are masked while
it holds a lock. -/
structure Core.Sound (before : L → L → Prop) (core : Core L ι) : Prop where
  follows : Follows before core.todo core.context
  calm : core.context.Calm
  nodup : core.context.held.Nodup

/-- How a change of the locks shows in what the core holds before and after. -/
def Change.Fits (held held' : List L) : Change L → Prop
  | .keep => ∀ k, k ∈ held' ↔ k ∈ held
  | .take l => l ∉ held ∧ ∀ k, k ∈ held' ↔ k = l ∨ k ∈ held
  | .free l => l ∈ held ∧ ∀ k, k ∈ held' ↔ k ∈ held ∧ k ≠ l

theorem held_cons {l : L} {were : Bool} (h : x.guards = ⟨l, were⟩ :: guards) :
    x.held = l :: (guards.map (·.lock) ++ x.forgotten) := by
  unfold Context.held
  rw [h]
  rfl

theorem Context.Calm.masked {l : L} (h : x.Calm) (hl : l ∈ x.held) : x.enabled = false := by
  cases henabled : x.enabled with
  | false => rfl
  | true =>
    rw [h henabled] at hl
    cases hl

theorem calm_of_masked (h : x.enabled = false) : x.Calm := by
  intro henabled
  rw [h] at henabled
  cases henabled

variable {core core' : Core L ι} {rest : List (Code L ι)} {change : Change L} {l : L} {were : Bool}
  {pick : Pick ι}

theorem Core.Sound.goto (h : core.Sound before)
    (hfollows : Follows before todo core.context) : Core.Sound before ⟨todo, core.context⟩ :=
  ⟨hfollows, h.calm, h.nodup⟩

theorem sound_enable (hheld : x.held = []) {enabled : Bool}
    (hfollows : Follows before todo { x with enabled := enabled }) :
    Core.Sound before ⟨todo, { x with enabled := enabled }⟩ := by
  refine ⟨hfollows, fun _ ↦ hheld, ?_⟩
  have hnil : ({ x with enabled := enabled } : Context L).held = [] := hheld
  exact hnil ▸ List.nodup_nil

theorem Core.Sound.mask (h : core.Sound before)
    (hfollows : Follows before todo { core.context with enabled := false }) :
    Core.Sound before ⟨todo, { core.context with enabled := false }⟩ :=
  ⟨hfollows, calm_of_masked rfl, h.nodup⟩

theorem sound_acquire (hirrefl : ∀ k, ¬ before k k)
    (h : Core.Sound before ⟨.acquire l were :: rest, x⟩) :
    Core.Sound before ⟨rest, { x with guards := ⟨l, were⟩ :: x.guards }⟩ ∧ l ∉ x.held := by
  obtain ⟨hmay, hmasked, hfollows⟩ := h.follows
  have hfresh : l ∉ x.held := fun hl ↦ hirrefl l (hmay l hl)
  exact ⟨⟨hfollows, calm_of_masked hmasked, List.nodup_cons.mpr ⟨hfresh, h.nodup⟩⟩, hfresh⟩

theorem sound_drop (h : Core.Sound before ⟨.drop l :: rest, x⟩) :
    ∃ were guards, x.guards = ⟨l, were⟩ :: guards ∧
      Core.Sound before ⟨.restore were :: rest, { x with guards := guards }⟩ := by
  obtain ⟨were, guards, hguards, hquiet, hfollows⟩ := h.follows
  have hheld := held_cons hguards
  have hmasked : x.enabled = false := h.calm.masked (hheld ▸ List.mem_cons_self)
  have hnodup : (l :: (guards.map (·.lock) ++ x.forgotten)).Nodup := hheld ▸ h.nodup
  exact ⟨were, guards, hguards, ⟨hquiet, hfollows⟩, calm_of_masked hmasked,
    (List.nodup_cons.mp hnodup).2⟩

theorem sound_forget (h : Core.Sound before ⟨.forget l :: rest, x⟩) :
    ∃ were guards, x.guards = ⟨l, were⟩ :: guards ∧
      Core.Sound before ⟨rest, ⟨guards, l :: x.forgotten, x.enabled⟩⟩ := by
  obtain ⟨were, guards, hguards, hfollows⟩ := h.follows
  have hheld := held_cons hguards
  have hmasked : x.enabled = false := h.calm.masked (hheld ▸ List.mem_cons_self)
  have hnodup : (l :: (guards.map (·.lock) ++ x.forgotten)).Nodup := hheld ▸ h.nodup
  refine ⟨were, guards, hguards, hfollows, calm_of_masked hmasked, ?_⟩
  exact (List.perm_middle.nodup_iff).mpr hnodup

theorem sound_forceUnlock (h : Core.Sound before ⟨.forceUnlock l :: rest, x⟩) :
    ∃ forgotten, x.forgotten = l :: forgotten ∧
      Core.Sound before ⟨rest, { x with forgotten := forgotten }⟩ ∧
      l ∉ ({ x with forgotten := forgotten } : Context L).held := by
  obtain ⟨forgotten, hforgotten, hfollows⟩ := h.follows
  have hmem : l ∈ x.held := by
    unfold Context.held
    rw [hforgotten]
    exact List.mem_append_right _ List.mem_cons_self
  have hmasked : x.enabled = false := h.calm.masked hmem
  have hnodup : (x.guards.map (·.lock) ++ l :: forgotten).Nodup := by
    rw [← hforgotten]
    exact h.nodup
  obtain ⟨hfresh, hrest⟩ := List.nodup_cons.mp ((List.perm_middle.nodup_iff).mp hnodup)
  exact ⟨forgotten, hforgotten, ⟨hfollows, calm_of_masked hmasked, hrest⟩, hfresh⟩

variable [DecidableEq L]

omit [DecidableEq L] in
theorem fits_free {held : List L} (hnodup : (l :: held).Nodup) :
    (Change.free l).Fits (l :: held) held := by
  refine ⟨List.mem_cons_self, fun k ↦ ?_⟩
  have hfresh := (List.nodup_cons.mp hnodup).1
  constructor
  · intro hk
    exact ⟨List.mem_cons_of_mem l hk, fun heq ↦ hfresh (heq ▸ hk)⟩
  · rintro ⟨hk, hne⟩
    exact (List.mem_cons.mp hk).resolve_left hne

theorem find_newest : (⟨l, were⟩ :: guards).find? (fun g ↦ decide (g.lock = l)) = some ⟨l, were⟩ :=
  List.find?_cons_of_pos (decide_eq_true rfl)

theorem erase_newest : (⟨l, were⟩ :: guards).eraseP (fun g ↦ decide (g.lock = l)) = guards :=
  List.eraseP_cons_of_pos (decide_eq_true rfl)

theorem step_drop (h : x.guards = ⟨l, were⟩ :: guards) :
    (Code.drop l : Code L ι).step x rest .go =
      some (.free l, ⟨.restore were :: rest, { x with guards := guards }⟩) := by
  simp only [Code.step, h, find_newest, erase_newest, Option.map_some]

theorem step_forget (h : x.guards = ⟨l, were⟩ :: guards) :
    (Code.forget l : Code L ι).step x rest .go =
      some (.keep, ⟨rest, ⟨guards, l :: x.forgotten, x.enabled⟩⟩) := by
  simp only [Code.step, h, find_newest, erase_newest, Option.map_some]

theorem step_sound (hirrefl : ∀ k, ¬ before k k) {code : Code L ι}
    (h : Core.Sound before ⟨code :: rest, x⟩)
    (hstep : code.step x rest pick = some (change, core')) :
    core'.Sound before ∧ change.Fits x.held core'.context.held := by
  have hkeep : (Change.keep : Change L).Fits x.held x.held := fun _ ↦ Iff.rfl
  cases code with
  | skip | seq first second =>
    cases pick <;> cases hstep
    exact ⟨h.goto h.follows, hkeep⟩
  | lock l =>
    cases pick <;> cases hstep
    exact ⟨h.mask ⟨h.follows.1, rfl, h.follows.2⟩, hkeep⟩
  | acquire l were =>
    cases pick <;> cases hstep
    obtain ⟨hsound, hfresh⟩ := sound_acquire hirrefl h
    exact ⟨hsound, hfresh, fun k ↦ List.mem_cons⟩
  | drop l =>
    cases pick <;> try cases hstep
    obtain ⟨were, guards, hguards, hsound⟩ := sound_drop h
    rw [step_drop hguards] at hstep
    cases hstep
    have hheld := held_cons hguards
    refine ⟨hsound, ?_⟩
    rw [hheld]
    exact fits_free (hheld ▸ h.nodup)
  | restore were =>
    cases pick <;> cases hstep
    obtain ⟨hquiet, hfollows⟩ := h.follows
    refine ⟨⟨hfollows, fun henabled ↦ ?_, h.nodup⟩, hkeep⟩
    rcases Bool.or_eq_true_iff.mp henabled with hbefore | hwere
    · exact h.calm hbefore
    · exact held_eq_nil.mpr (hquiet hwere)
  | forget l =>
    cases pick <;> try cases hstep
    obtain ⟨were, guards, hguards, hsound⟩ := sound_forget h
    rw [step_forget hguards] at hstep
    cases hstep
    refine ⟨hsound, fun k ↦ ?_⟩
    rw [held_cons hguards]
    exact List.perm_middle.mem_iff
  | forceUnlock l =>
    cases pick <;> cases hstep
    obtain ⟨forgotten, hforgotten, hsound, hfresh⟩ := sound_forceUnlock h
    have herase : x.forgotten.erase l = forgotten := by
      rw [hforgotten, List.erase_cons_head]
    have hheld : ∀ k, k ∈ x.held ↔ k ∈ l :: ({ x with forgotten := forgotten } : Context L).held := by
      intro k
      unfold Context.held
      rw [hforgotten]
      exact List.perm_middle.mem_iff
    rw [herase]
    refine ⟨hsound, (hheld l).mpr List.mem_cons_self, fun k ↦ ?_⟩
    rw [hheld k]
    exact (fits_free (List.nodup_cons.mpr ⟨hfresh, hsound.nodup⟩)).2 k
  | cli =>
    cases pick <;> cases hstep
    exact ⟨h.mask h.follows, hkeep⟩
  | sti | hlt =>
    cases pick <;> cases hstep
    exact ⟨sound_enable h.follows.1 h.follows.2, hkeep⟩
  | either one other =>
    cases pick <;> cases hstep
    rename_i taken
    refine ⟨h.goto ?_, hkeep⟩
    cases taken
    · exact h.follows.2
    · exact h.follows.1
  | loop body =>
    cases pick <;> cases hstep
    rename_i taken
    obtain ⟨I, hI, hbody⟩ := h.follows
    refine ⟨h.goto ?_, hkeep⟩
    cases taken
    · exact (hbody x hI).2
    · exact wp_mono (fun y hy ↦ ⟨I, hy, hbody⟩) body (hbody x hI).1
  | each body =>
    obtain ⟨I, hI, hbody⟩ := h.follows
    cases pick <;> cases hstep
    · exact ⟨h.goto (hbody x hI).2, hkeep⟩
    · rename_i i
      refine ⟨h.goto ?_, hkeep⟩
      exact wp_mono (fun y hy ↦ ⟨I, hy, hbody⟩) (body i) ((hbody x hI).1 i)
  | forever body =>
    cases pick <;> cases hstep
    obtain ⟨I, hI, hbody⟩ := h.follows
    refine ⟨h.goto ?_, hkeep⟩
    exact wp_mono (fun y hy ↦ ⟨I, hy, hbody⟩) body (hbody x hI)
  | leave =>
    cases pick <;> cases hstep
    exact ⟨sound_enable h.follows h.follows, hkeep⟩
  | halt => cases pick <;> cases hstep

omit [DecidableEq L] in
theorem Core.Sound.may (h : core.Sound before) (hrequest : core.Requests l) :
    core.context.May before l := by
  have hfollows := h.follows
  rcases hrequest with ⟨rest, htodo⟩ | ⟨were, rest, htodo⟩
  · rw [htodo] at hfollows
    exact hfollows.1
  · rw [htodo] at hfollows
    exact hfollows.1

omit [DecidableEq L] in
theorem Core.Sound.holds_nothing (h : core.Sound before) (hrests : core.Rests) :
    core.context.held = [] := by
  have hfollows := h.follows
  rcases hrests with htodo | ⟨rest, htodo⟩ | ⟨rest, htodo⟩
  · rw [htodo] at hfollows
    exact hfollows
  · rw [htodo] at hfollows
    exact hfollows.1
  · rw [htodo] at hfollows
    exact hfollows

theorem Core.Sound.goes_on (h : core.Sound before) (hheld : core.context.held ≠ []) :
    (∃ l were rest, core.todo = .acquire l were :: rest) ∨
      ∃ first rest pick change core', core.todo = first :: rest ∧
        first.step core.context rest pick = some (change, core') ∧ ∀ l, change ≠ .take l := by
  obtain ⟨todo, x⟩ := core
  have hquiet := fun hrests ↦ hheld (h.holds_nothing hrests)
  cases todo with
  | nil => exact (hquiet (.inl rfl)).elim
  | cons first rest =>
    cases first with
    | acquire l were => exact .inl ⟨l, were, rest, rfl⟩
    | drop l =>
      obtain ⟨were, guards, hguards, -⟩ := sound_drop h
      exact .inr ⟨_, _, .go, _, _, rfl, step_drop hguards, nofun⟩
    | forget l =>
      obtain ⟨were, guards, hguards, -⟩ := sound_forget h
      exact .inr ⟨_, _, .go, _, _, rfl, step_forget hguards, nofun⟩
    | either one other | loop body => exact .inr ⟨_, _, .branch true, _, _, rfl, rfl, nofun⟩
    | halt => exact (hquiet (.inr (.inr ⟨rest, rfl⟩))).elim
    | forceUnlock l => exact .inr ⟨_, _, .go, _, _, rfl, rfl, nofun⟩
    | skip | lock | restore | cli | sti | hlt | seq | each | forever | leave =>
      exact .inr ⟨_, _, .go, _, _, rfl, rfl, nofun⟩

end Soundness

section Runs

variable [DecidableEq C] [DecidableEq L] {before : L → L → Prop} {code : Op → Code L ι}
  {handler : Code L ι} {s s' : Machine C L ι} {a : C × Move Op ι} {change : Change L}
  {core core' : Core L ι}

/-- The rules for a set of operations and an interrupt handler: each keeps to the order from a
core that holds nothing and gives everything back. -/
structure Lawful (before : L → L → Prop) (code : Op → Code L ι) (handler : Code L ι) : Prop where
  irrefl : ∀ k, ¬ before k k
  op : ∀ op x, x.held = [] → Neutral before (code op) x
  handler : ∀ x, x.held = [] → Neutral before handler x

structure Machine.Sound (before : L → L → Prop) (s : Machine C L ι) : Prop where
  core : ∀ c, (s.cores c).Sound before
  owner : ∀ l c, s.owner l = some c ↔ l ∈ (s.cores c).context.held

omit [DecidableEq C] in
theorem move_sound (hlawful : Lawful before code handler) (h : core.Sound before)
    {move : Move Op ι} (hmove : core.move code handler move = some (change, core')) :
    core'.Sound before ∧ change.Fits core.context.held core'.context.held := by
  obtain ⟨todo, x⟩ := core
  cases move with
  | run pick =>
    cases todo with
    | nil => cases hmove
    | cons first rest => exact step_sound hlawful.irrefl h hmove
  | enter op =>
    cases todo with
    | cons first rest => cases hmove
    | nil =>
      cases hmove
      have hheld : x.held = [] := h.follows
      exact ⟨h.mask (hlawful.op op { x with enabled := false } hheld _ hheld), fun _ ↦ Iff.rfl⟩
  | interrupt =>
    cases todo with
    | nil => cases hmove
    | cons first rest =>
      simp only [Core.move] at hmove
      split at hmove
      · rename_i henabled
        cases hmove
        have hheld : x.held = [] := h.calm henabled
        -- The flag the interrupt found is set, so the interrupted code goes on in its context.
        have hback : ({ x with enabled := true } : Context L) = x := by
          rw [← henabled]
        have hfollows : wp before (Code.sti : Code L ι) (Follows before (first :: rest))
            { x with enabled := false } := ⟨hheld, hback ▸ h.follows⟩
        exact ⟨h.mask (hlawful.handler { x with enabled := false } hheld _ hfollows),
          fun _ ↦ Iff.rfl⟩
      · cases hmove

theorem next_cases (h : s.next code handler a = some s') :
    ∃ change core', (s.cores a.1).move code handler a.2 = some (change, core') ∧
      s'.cores = update s.cores a.1 core' ∧
      match change with
      | .keep => s'.owner = s.owner
      | .take l => s.owner l = none ∧ s'.owner = update s.owner l (some a.1)
      | .free l => s'.owner = update s.owner l none := by
  obtain ⟨⟨change, core'⟩, hmove, hcommit⟩ := Option.bind_eq_some_iff.mp h
  refine ⟨change, core', hmove, ?_⟩
  cases change with
  | keep | free l =>
    cases hcommit
    exact ⟨rfl, rfl⟩
  | take l =>
    simp only [Machine.commit] at hcommit
    split at hcommit
    · rename_i hfree
      cases hcommit
      exact ⟨rfl, hfree, rfl⟩
    · cases hcommit

omit [DecidableEq C] [DecidableEq L] in
theorem Machine.Sound.owner_unique (h : s.Sound before) {l : L} {c d : C}
    (hc : l ∈ (s.cores c).context.held) (hd : l ∈ (s.cores d).context.held) : c = d := by
  have hownc := (h.owner l c).mpr hc
  have hownd := (h.owner l d).mpr hd
  exact Option.some.inj (hownc.symm.trans hownd)

section

variable (hlawful : Lawful before code handler)

include hlawful

theorem Machine.Sound.next (h : s.Sound before) (hnext : s.next code handler a = some s') :
    s'.Sound before := by
  obtain ⟨change, core', hmove, hcores, howner⟩ := next_cases hnext
  obtain ⟨hsound, hfits⟩ := move_sound hlawful (h.core a.1) hmove
  refine ⟨fun c ↦ ?_, fun l c ↦ ?_⟩
  · rw [hcores]
    by_cases hc : c = a.1
    · subst hc
      rw [update_self]
      exact hsound
    · rw [update_of_ne hc]
      exact h.core c
  · have hcore : c ≠ a.1 → s'.cores c = s.cores c := fun hc ↦ by rw [hcores, update_of_ne hc]
    have hself : s'.cores a.1 = core' := by rw [hcores, update_self]
    cases change with
    | keep =>
      rw [howner, h.owner]
      by_cases hc : c = a.1
      · rw [hc, hself, hfits]
      · rw [hcore hc]
    | take k =>
      obtain ⟨hfree, howner⟩ := howner
      rw [howner]
      by_cases hl : l = k
      · subst hl
        rw [update_self]
        by_cases hc : c = a.1
        · rw [hc, hself]
          exact ⟨fun _ ↦ (hfits.2 l).mpr (.inl rfl), fun _ ↦ rfl⟩
        · rw [hcore hc, ← h.owner, hfree]
          exact ⟨fun heq ↦ absurd (Option.some.inj heq).symm hc, nofun⟩
      · rw [update_of_ne hl, h.owner]
        by_cases hc : c = a.1
        · rw [hc, hself, hfits.2]
          exact ⟨.inr, fun hor ↦ hor.resolve_left hl⟩
        · rw [hcore hc]
    | free k =>
      rw [howner]
      by_cases hl : l = k
      · subst hl
        rw [update_self]
        by_cases hc : c = a.1
        · rw [hc, hself, hfits.2]
          exact ⟨nofun, fun hand ↦ absurd rfl hand.2⟩
        · rw [hcore hc]
          exact ⟨nofun, fun hl ↦ absurd (h.owner_unique hl hfits.1) hc⟩
      · rw [update_of_ne hl, h.owner]
        by_cases hc : c = a.1
        · rw [hc, hself, hfits.2]
          exact ⟨fun hmem ↦ ⟨hmem, hl⟩, And.left⟩
        · rw [hcore hc]

theorem sound_of_reach {start : Machine C L ι} (hstart : start.Sound before)
    (h : Transition.Reach (Machine.next code handler) (fun _ _ ↦ True) start s) : s.Sound before :=
  h.invariant hstart fun _ _ _ hsound _ hnext ↦ hsound.next hlawful hnext

theorem Machine.Sound.paired (h : s.Sound before) (htrace : ∀ l, Paired l trace (s.owner l))
    (hnext : s.next code handler a = some s') (l : L) :
    Paired l (s.note code handler a s' trace) (s'.owner l) := by
  obtain ⟨change, core', hmove, -, howner⟩ := next_cases hnext
  have hfits := (move_sound hlawful (h.core a.1) hmove).2
  have hl := htrace l
  unfold Machine.note
  rw [hmove]
  cases change with
  | keep =>
    rw [howner]
    exact hl
  | take k =>
    obtain ⟨hfree, howner⟩ := howner
    rw [howner]
    by_cases heq : l = k
    · subst heq
      rw [update_self]
      rw [hfree] at hl
      exact .acquired hl
    · rw [update_of_ne heq]
      exact .other (fun hk ↦ heq hk.symm) hl
  | free k =>
    rw [howner]
    by_cases heq : l = k
    · subst heq
      rw [update_self]
      rw [(h.owner l a.1).mpr hfits.1] at hl
      exact .released hl
    · rw [update_of_ne heq]
      exact .other (fun hk ↦ heq hk.symm) hl

theorem paired_of_reach {start : Machine C L ι}
    (hstart : start.Sound before) (hfree : ∀ l, start.owner l = none)
    (h : Transition.Reach (Transition.noted (Machine.next code handler)
      (Machine.note code handler)) (fun _ _ ↦ True) (start, []) (s, trace)) (l : L) :
    Paired l trace (s.owner l) := by
  have hall : ∀ l, Paired l trace (s.owner l) := by
    refine Transition.Reach.noted_invariant (I := fun t trace ↦ ∀ l, Paired l trace (t.owner l))
      (fun t ht ↦ sound_of_reach hlawful hstart ht) (fun k ↦ ?_) ?_ h
    · rw [hfree k]
      exact .nil
    · intro t a u g hsound hpaired _ hnext
      exact hsound.paired hlawful hpaired hnext
  exact hall l

end

theorem next_of_move {c : C} {move : Move Op ι}
    (hmove : (s.cores c).move code handler move = some (change, core'))
    (hfree : ∀ l, change = .take l → s.owner l = none) :
    ∃ s', s.next code handler (c, move) = some s' := by
  simp only [Machine.next, hmove, Option.bind_some]
  cases change with
  | keep | free l => exact ⟨_, rfl⟩
  | take l =>
    simp only [Machine.commit, hfree l rfl, if_true]
    exact ⟨_, rfl⟩

/-- While a lock is taken, a core that holds one can take a step: from a core that spins go on to
the owner of the lock it spins for, up the order. -/
theorem Machine.Sound.goes_on (hwf : WellFounded fun k l ↦ before l k) (h : s.Sound before)
    {l : L} {c : C} (howner : s.owner l = some c) :
    ∃ d pick s', (∃ k, s.owner k = some d) ∧ s.next code handler (d, .run pick) = some s' := by
  induction l using hwf.induction generalizing c with
  | _ l ih =>
    have hheld := (h.owner l c).mp howner
    rcases (h.core c).goes_on (List.ne_nil_of_mem hheld) with
      ⟨k, were, rest, htodo⟩ | ⟨first, rest, pick, change, core', htodo, hstep, hkeep⟩
    · have hbefore := (h.core c).may (.inr ⟨were, rest, htodo⟩) l hheld
      cases hk : s.owner k with
      | some d => exact ih k hbefore hk
      | none =>
        have hmove : (s.cores c).move code handler (.run .go) = some (.take k, ⟨rest,
            { (s.cores c).context with guards := ⟨k, were⟩ :: (s.cores c).context.guards }⟩) := by
          simp only [Core.move, htodo]
          rfl
        obtain ⟨s', hnext⟩ := next_of_move hmove fun l hl ↦ by cases hl; exact hk
        exact ⟨c, .go, s', ⟨l, howner⟩, hnext⟩
    · have hmove : (s.cores c).move code handler (.run pick) = some (change, core') := by
        simp only [Core.move, htodo, hstep]
      obtain ⟨s', hnext⟩ := next_of_move hmove fun l hl ↦ absurd hl (hkeep l)
      exact ⟨c, pick, s', ⟨l, howner⟩, hnext⟩

end Runs

end Tarnos.Foundation.Locking
