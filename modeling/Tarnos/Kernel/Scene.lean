import Mathlib.Algebra.BigOperators.Fin
import Tarnos.Kernel.Step
import Tarnos.Task.Lifecycle

namespace Tarnos.Kernel

open Abi Arch Kcore Tarnos.Task Function

variable {E : Type}

namespace Main

def attached : Main E → Bool
  | .boot _ | .bootSpawn _ _ _ | .switchNext _ _ | .idle _ | .halted => false
  | _ => true

def caller : Main E → Option Pid
  | .withProcess _ pid _ | .trySend _ _ pid _ | .tryRecv _ pid _ | .recvReturn _ pid _
  | .allocatePid pid _ | .fromElf pid _ _ | .grant _ _ _ pid _ | .startChild _ pid _
  | .waitForChild _ pid _ | .killCheck _ pid _ | .markStackBusy pid _ | .finalize pid _ => some pid
  | _ => none

def child : Main E → Option (Process E)
  | .spawnSuspended process _ => some process
  | _ => none

def unplaced (pid : Pid) : Option Pid := if pid.slot.isSome then some pid else none

def reserves : Main E → Option Pid
  | .bootSpawn pid _ _ | .fromElf _ pid _ | .releaseReservation pid _ => unplaced pid
  | .spawnSuspended process _ => unplaced process.pid
  | _ => none

def kills : Main E → Option Pid
  | .killScan target _ | .killEvict _ target _ | .killSpin _ target _ => some target
  | _ => none

/-- The caller of this core is registered as a waiter and about to block. -/
def parks : Main E → Bool
  | .blockCurrent _ => true
  | _ => false

end Main

/-- What the scheduling argument sees of the machine: the table, what each core is doing, how
many wakes are on record for each pid, and the eviction requests. -/
structure Scene (E : Type) where
  table : Table E
  main : CoreId → Main E
  tokens : Pid → ℕ
  evict : CoreId → UInt64

section Tokens

def waiterTokens (p : Pid) : EndpointWaiter → ℕ
  | .process q => if q = p then 1 else 0
  | _ => 0

def slotTokens (p : Pid) : EndpointSlot → ℕ
  | .empty => 0
  | .receiverWaiting receiver => waiterTokens p receiver
  | .sendersWaiting senders => (senders.toList.map fun entry ↦ waiterTokens p entry.2).sum

def errandTokens (p : Pid) : Errand E → ℕ
  | .wakeReceiver _ q | .wakeSender q _ | .handOver q _ | .peerClosed q => if q = p then 1 else 0
  | _ => 0

def coreTokens (p : Pid) (core : Core E) : ℕ := (core.errands.map (errandTokens p)).sum

/-- The number of places that hold a wake for `p`: waiters in endpoints and wakes a core carries. -/
def State.tokens [Fintype E] (s : State E) (p : Pid) : ℕ :=
  ∑ e, slotTokens p (s.endpoints e) + ∑ c, coreTokens p (s.cores c)

def State.scene [Fintype E] (s : State E) : Scene E :=
  ⟨s.sched.table, fun c ↦ (s.cores c).main, s.tokens, s.evictRequest⟩

end Tokens

def ChildOf (t : Table E) (q r : Pid) : Prop :=
  (∃ R, t.view r = .occupied R ∧ R.parent = some q) ∨ ∃ status, t.view r = .zombie q status

theorem ChildOf.known {t : Table E} {q r : Pid} (h : ChildOf t q r) (ht : t.Sound) : t.Known r := by
  have hne : t.view r ≠ .empty ∧ t.view r ≠ .reserved := by
    rcases h with ⟨R, hR, -⟩ | ⟨status, hR⟩ <;> rw [hR] <;> simp
  exact ⟨ht.issued r hne.1, hne.2⟩

/-- The cores agree with the table. -/
structure Cores (t : Table E) (main : CoreId → Main E) : Prop where
  attached : ∀ c, (main c).attached = (t.current c).isSome
  caller : ∀ c p, (main c).caller = some p → t.current c = some p
  child : ∀ c P, (main c).child = some P → P.parent = t.current c ∧ P.state = .suspended ∧
    P.waitWaiter = none ∧ P.pendingWake = none
  reserves : ∀ c r, (main c).reserves = some r → t.view r = .reserved
  reserver : ∀ c d r, (main c).reserves = some r → (main d).reserves = some r → c = d
  owner : ∀ r, t.view r = .reserved → ∃ c, (main c).reserves = some r
  kills : ∀ c r, (main c).kills = some r → ∃ q, t.current c = some q ∧ ChildOf t q r

/-- Whoever runs without a core, or is asked to leave its core, has a killer. -/
structure Evictions (t : Table E) (main : CoreId → Main E) (evict : CoreId → UInt64) : Prop where
  evicted : ∀ p P, t.view p = .occupied P → P.state = .running →
    (∃ c, t.current c = some p) ∨ ∃ c, (main c).kills = some p
  requests : ∀ d, evict d ≠ 0 → t.Known ⟨evict d⟩ ∧
    (t.Live ⟨evict d⟩ → ∃ c, (main c).kills = some ⟨evict d⟩)

def Parked (t : Table E) (main : CoreId → Main E) (p : Pid) : Prop :=
  ∃ c, t.current c = some p ∧ (main c).parks = true

def pendingTokens (pending : Option WakeResult) : ℕ := if pending.isSome then 1 else 0

/-- The wakes on record for one process fit its state: a process that neither is blocked nor
about to block has none, one that waits for a child has none, no process has two. If no wake
is ever lost (`strict`), a process that is blocked otherwise, or about to block, has one. -/
structure Account (strict : Prop) (tokens : ℕ) (state : ProcessState) (pending : Option WakeResult)
    (parked : Prop) (waits : Pid → Prop) : Prop where
  single : tokens + pendingTokens pending ≤ 1
  calm : state ≠ .blocked → ¬ parked → tokens = 0 ∧ pending = none
  waiting : ∀ q, waits q → tokens = 0 ∧ ∀ q', waits q' → q' = q
  blocked : strict → state = .blocked → (∀ q, ¬ waits q) → tokens = 1
  parking : strict → parked → tokens + pendingTokens pending = 1

structure Accounts (strict : Prop) (t : Table E) (main : CoreId → Main E) (tokens : Pid → ℕ) :
    Prop where
  known : ∀ p, 0 < tokens p → t.Known p
  account : ∀ p P, t.view p = .occupied P →
    Account strict (tokens p) P.state P.pendingWake (Parked t main p) (t.Waits p)

structure Scene.Inv (strict : Prop) (x : Scene E) : Prop where
  sound : x.table.Sound
  cores : Cores x.table x.main
  evictions : Evictions x.table x.main x.evict
  accounts : Accounts strict x.table x.main x.tokens

section Groups

variable {t t' : Table E} {main main' : CoreId → Main E} {c : CoreId} {strict : Prop}

/-- A step of core `c` keeps the agreement if it holds for `c` afterwards, the reservations of
the table are those of the cores and the running parents keep their children. -/
theorem Cores.step (h : Cores t main) (hmain : ∀ d, d ≠ c → main' d = main d)
    (hcurrent : ∀ d, d ≠ c → t'.current d = t.current d)
    (hattached : (main' c).attached = (t'.current c).isSome)
    (hcaller : ∀ p, (main' c).caller = some p → t'.current c = some p)
    (hchild : ∀ P, (main' c).child = some P → P.parent = t'.current c ∧ P.state = .suspended ∧
      P.waitWaiter = none ∧ P.pendingWake = none)
    (hreserved : ∀ r, t'.view r = .reserved ↔ (main' c).reserves = some r ∨
      (t.view r = .reserved ∧ (main c).reserves ≠ some r))
    (hfresh : ∀ r, (main' c).reserves = some r → (main c).reserves = some r ∨ t.view r ≠ .reserved)
    (hkills : ∀ r, (main' c).kills = some r → ∃ q, t'.current c = some q ∧ ChildOf t' q r)
    (hfamily : ∀ d q r, d ≠ c → t.current d = some q → ChildOf t q r → ChildOf t' q r) :
    Cores t' main' := by
  -- no other core holds the reservation of `c`
  have hother : ∀ d r, d ≠ c → (main d).reserves = some r → (main' c).reserves ≠ some r := by
    intro d r hd hr hr'
    rcases hfresh r hr' with hold | hnew
    · exact hd (h.reserver d c r hr hold)
    · exact hnew (h.reserves d r hr)
  constructor
  · intro d
    by_cases hd : d = c
    · subst hd
      exact hattached
    · rw [hmain d hd, hcurrent d hd]
      exact h.attached d
  · intro d p hp
    by_cases hd : d = c
    · subst hd
      exact hcaller p hp
    · rw [hmain d hd] at hp
      rw [hcurrent d hd]
      exact h.caller d p hp
  · intro d P hP
    by_cases hd : d = c
    · subst hd
      exact hchild P hP
    · rw [hmain d hd] at hP
      rw [hcurrent d hd]
      exact h.child d P hP
  · intro d r hr
    by_cases hd : d = c
    · subst hd
      exact (hreserved r).mpr (.inl hr)
    · rw [hmain d hd] at hr
      exact (hreserved r).mpr (.inr ⟨h.reserves d r hr, fun hc ↦ hd (h.reserver d c r hr hc)⟩)
  · intro d e r hd he
    by_cases hdc : d = c
    · by_cases hec : e = c
      · rw [hdc, hec]
      · rw [hmain e hec] at he
        rw [hdc] at hd
        exact absurd hd (hother e r hec he)
    · rw [hmain d hdc] at hd
      by_cases hec : e = c
      · rw [hec] at he
        exact absurd he (hother d r hdc hd)
      · rw [hmain e hec] at he
        exact h.reserver d e r hd he
  · intro r hr
    rcases (hreserved r).mp hr with hr | ⟨hr, hne⟩
    · exact ⟨c, hr⟩
    · obtain ⟨d, hd⟩ := h.owner r hr
      have hdc : d ≠ c := by
        rintro rfl
        exact hne hd
      exact ⟨d, by rw [hmain d hdc]; exact hd⟩
  · intro d r hr
    by_cases hd : d = c
    · subst hd
      exact hkills r hr
    · rw [hmain d hd] at hr
      obtain ⟨q, hq, hchild⟩ := h.kills d r hr
      exact ⟨q, by rw [hcurrent d hd]; exact hq, hfamily d q r hd hq hchild⟩

/-- A step of core `c` keeps the account of evictions if only fresh pids come alive, killers
stay until their target is dead, and `c` leaves a running process only to a killer. -/
theorem Evictions.step {evict evict' : CoreId → UInt64} (h : Evictions t main evict)
    (hsound : t'.Sound) (hcores : Cores t' main') (hmain : ∀ d, d ≠ c → main' d = main d)
    (hcurrent : ∀ d, d ≠ c → t'.current d = t.current d)
    (hrunning : ∀ p P', t'.view p = .occupied P' → P'.state = .running →
      t'.current c = some p ∨ ∃ P, t.view p = .occupied P ∧ P.state = .running ∧
        (t.current c = some p → t'.current c = some p ∨ ∃ d, (main' d).kills = some p))
    (hknown : ∀ p, t.Known p → t'.Known p)
    (hlive : ∀ p, t.Known p → t'.Live p → t.Live p)
    (hkill : ∀ p, (main c).kills = some p → (main' c).kills = some p ∨ ¬ t'.Live p)
    (hevict : ∀ d, evict' d = evict d ∨ evict' d = 0 ∨ (main' c).kills = some ⟨evict' d⟩) :
    Evictions t' main' evict' := by
  have hkiller : ∀ p, t'.Live p → (∃ d, (main d).kills = some p) → ∃ d, (main' d).kills = some p := by
    rintro p hp ⟨d, hd⟩
    by_cases hdc : d = c
    · subst hdc
      rcases hkill p hd with hd' | hdead
      · exact ⟨d, hd'⟩
      · exact absurd hp hdead
    · exact ⟨d, by rw [hmain d hdc]; exact hd⟩
  constructor
  · intro p P' hP' hrun'
    rcases hrunning p P' hP' hrun' with hc | ⟨P, hP, hrun, hleft⟩
    · exact .inl ⟨c, hc⟩
    · rcases h.evicted p P hP hrun with ⟨d, hd⟩ | hd
      · by_cases hdc : d = c
        · subst hdc
          exact (hleft hd).imp_left fun hd' ↦ ⟨d, hd'⟩
        · exact .inl ⟨d, by rw [hcurrent d hdc]; exact hd⟩
      · exact .inr (hkiller p ⟨P', hP'⟩ hd)
  · intro d hd
    rcases hevict d with hsame | hzero | hnew
    · rw [hsame] at hd ⊢
      obtain ⟨hk, hkilled⟩ := h.requests d hd
      exact ⟨hknown _ hk, fun hl ↦ hkiller _ hl (hkilled (hlive _ hk hl))⟩
    · exact absurd hzero hd
    · obtain ⟨q, -, hchild⟩ := hcores.kills c _ hnew
      exact ⟨hchild.known hsound, fun _ ↦ ⟨c, hnew⟩⟩

theorem Accounts.step {tokens tokens' : Pid → ℕ} (h : Accounts strict t main tokens)
    (hknown : ∀ p, 0 < tokens' p → t'.Known p)
    (hsame : ∀ p P', t'.view p = .occupied P' →
      Account strict (tokens' p) P'.state P'.pendingWake (Parked t' main' p) (t'.Waits p) ∨
      ∃ P, t.view p = .occupied P ∧ P'.state = P.state ∧ P'.pendingWake = P.pendingWake ∧
        tokens' p = tokens p ∧ (Parked t' main' p ↔ Parked t main p) ∧
        ∀ q, t'.Waits p q ↔ t.Waits p q) : Accounts strict t' main' tokens' := by
  refine ⟨hknown, fun p P' hP' ↦ ?_⟩
  rcases hsame p P' hP' with hnew | ⟨P, hP, hstate, hpending, htokens, hparked, hwaits⟩
  · exact hnew
  · have hwaits' : t'.Waits p = t.Waits p := funext fun q ↦ propext (hwaits q)
    rw [hstate, hpending, htokens, propext hparked, hwaits']
    exact h.account p P hP

end Groups

end Tarnos.Kernel
