import Tarnos.Kernel.Tokens

namespace Tarnos.Kernel

open Abi Arch Kcore Tarnos.Task Function Inner

variable {E : Type}

namespace State

structure Inv [Fintype E] (strict : Prop) (s : State E) : Prop where
  honest : s.sched.Honest
  scene : s.scene.Inv strict

def allocates (s : State E) (a : Action E) : Bool :=
  match (s.cores a.core).errands, (s.cores a.core).main, a.choice with
  | [], .boot (_ :: _), _ => true
  | [], .allocatePid _ _, .refuse => false
  | [], .allocatePid _ _, _ => true
  | _, _, _ => false

def NoWrap (s : State E) (a : Action E) : Prop :=
  s.allocates a = true → ∀ i, s.sched.freeSlot s.stackBusy = some i →
    (s.sched.generations i).toNat + 1 < 2 ^ 32

/-- The step is no `try_recv` of `wake_receiver` that another waiting receiver turns down. -/
def Keeps (s : State E) (a : Action E) : Prop :=
  ∀ e pid rest, (s.cores a.core).errands = .wakeReceiver e pid :: rest →
    ∀ r, s.endpoints e ≠ .receiverWaiting r

variable {s b s' : State E} {c : CoreId} {errand : Errand E} {rest more : List (Errand E)}
  {strict : Prop} {p : Pid}

theorem main_resume (hcores : b.cores = s.cores) :
    (fun d ↦ ((b.goto c (b.cores c).main (more ++ rest)).cores d).main) =
      fun d ↦ (s.cores d).main := by
  funext d
  by_cases hd : d = c
  · subst hd
    simp [goto, setCore, hcores]
  · simp [goto, setCore, hd, hcores]

variable [Fintype E]

theorem tokens_resume (herr : (s.cores c).errands = errand :: rest) (hcores : b.cores = s.cores)
    (more : List (Errand E)) :
    (b.goto c (b.cores c).main (more ++ rest)).tokens p + errandTokens p errand =
      b.tokens p + errandsTokens p more := by
  have hset := tokens_setCore (s := b) (c := c) (p := p)
    { b.cores c with main := (b.cores c).main, errands := more ++ rest }
  have hold : errandsTokens p (b.cores c).errands = errandTokens p errand + errandsTokens p rest := by
    rw [hcores, herr, errandsTokens_cons]
  rw [hold, errandsTokens_append] at hset
  unfold goto
  omega

theorem Inv.room (h : s.Inv strict) (P : Process E) (hP : s.sched.view p = .occupied P)
    (hblocked : P.state = .blocked) : s.sched.queue.length < maxProcesses := by
  have hne : s.sched.view p ≠ .empty := by rw [hP]; simp
  exact queue_length_lt h.scene.sound hne
    (h.scene.sound.not_queued hP (by rw [hblocked]; simp))

theorem scene_resume (herr : (s.cores c).errands = errand :: rest) (hcores : b.cores = s.cores)
    (hsched : b.sched = s.sched) (hevict : b.evictRequest = s.evictRequest)
    (htokens : ∀ p, b.tokens p + errandsTokens p more = s.tokens p + errandTokens p errand) :
    (b.goto c (b.cores c).main (more ++ rest)).scene = s.scene := by
  have htok : (b.goto c (b.cores c).main (more ++ rest)).tokens = s.tokens := by
    funext p
    have h := tokens_resume (p := p) herr hcores more
    have := htokens p
    omega
  unfold scene
  rw [htok, main_resume hcores]
  simp [goto, setCore, hsched, hevict]

theorem scene_spend (herr : (s.cores c).errands = errand :: rest) (hcores : b.cores = s.cores)
    (hevict : b.evictRequest = s.evictRequest) (htokens : b.tokens = s.tokens)
    (hone : ∀ q, errandTokens q errand = if p = q then 1 else 0) :
    0 < s.tokens p ∧ (b.goto c (b.cores c).main ([] ++ rest)).scene =
      { s.scene with table := b.sched.table, tokens := Scene.spend s.tokens p } := by
  have htok : ∀ q, (b.goto c (b.cores c).main ([] ++ rest)).tokens q + (if p = q then 1 else 0) =
      s.tokens q := by
    intro q
    have h := tokens_resume (p := q) herr hcores []
    rw [hone, htokens, errandsTokens_nil] at h
    exact h
  have hp := htok p
  rw [if_pos rfl] at hp
  refine ⟨by omega, ?_⟩
  have hspend : (b.goto c (b.cores c).main ([] ++ rest)).tokens = Scene.spend s.tokens p := by
    funext q
    have hq := htok q
    by_cases hqp : q = p
    · subst hqp
      simp only [if_true] at hq
      simp only [Scene.spend, update_self]
      omega
    · rw [if_neg (fun h ↦ hqp h.symm)] at hq
      rw [Scene.spend_ne hqp]
      omega
  unfold scene
  rw [hspend, main_resume hcores]
  simp [goto, setCore, hevict]

theorem Inv.resume (h : s.Inv strict) (herr : (s.cores c).errands = errand :: rest)
    (hs : b.resume c more rest = .next s') (hcores : b.cores = s.cores) (hsched : b.sched = s.sched)
    (hevict : b.evictRequest = s.evictRequest)
    (htokens : ∀ p, b.tokens p + errandsTokens p more = s.tokens p + errandTokens p errand) :
    s'.Inv strict := by
  cases hs
  constructor
  · change b.sched.Honest
    rw [hsched]
    exact h.honest
  · rw [scene_resume herr hcores hsched hevict htokens]
    exact h.scene

theorem Inv.wakeErrand {result : WakeResult} (h : s.Inv strict)
    (herr : (s.cores c).errands = errand :: rest) (hs : b.resume c [] rest = .next s')
    (hcores : b.cores = s.cores)
    (hsched : b.sched = s.sched.wakeBlockedProcessLocked p result)
    (hevict : b.evictRequest = s.evictRequest) (htokens : b.tokens = s.tokens)
    (hone : ∀ q, errandTokens q errand = if p = q then 1 else 0) : s'.Inv strict := by
  cases hs
  obtain ⟨htable, hhonest⟩ := table_wake (s := s.sched) result h.room
  obtain ⟨hpos, hscene⟩ := scene_spend herr hcores hevict htokens hone
  constructor
  · change b.sched.Honest
    rw [hsched]
    exact hhonest h.honest
  · rw [hscene, hsched, htable]
    exact h.scene.wake hpos result

end State

end Tarnos.Kernel
