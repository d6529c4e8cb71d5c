import Tarnos.Foundation.Sums
import Tarnos.Kernel.Moves

namespace Tarnos.Kernel

open Abi Arch Kcore Tarnos.Task Foundation.Sums Function

variable {E : Type} {p : Pid}

theorem slotTokens_eq (slot : EndpointSlot) :
    slotTokens p slot = (slot.entries.map fun entry ↦ waiterTokens p entry.2).sum +
      slot.receiver?.elim 0 (waiterTokens p) := by
  cases slot <;> simp [slotTokens, Endpoint.Slot.entries, Endpoint.Slot.receiver?]

theorem entries_tryRecv {slot slot' : EndpointSlot} {receiver : EndpointWaiter}
    {outcome : Endpoint.RecvOutcome Parcel Pid}
    (h : slot.tryRecv receiver = some (outcome, slot')) :
    (∀ entry ∈ slot'.entries, entry ∈ slot.entries) ∧
      ∀ parcel sender, outcome = .delivered parcel sender → (parcel, sender) ∈ slot.entries := by
  rcases Endpoint.Slot.tryRecv_cases h with
    ⟨parcel, sender, rest, hentries, -, rfl, hrest, -⟩ | ⟨rfl, rfl, rfl⟩ | ⟨r, rfl, rfl, rfl⟩
  · rw [hentries, hrest]
    refine ⟨fun entry ↦ List.mem_cons_of_mem _, fun parcel' sender' hout ↦ ?_⟩
    cases hout
    exact List.mem_cons_self
  · exact ⟨fun entry hentry ↦ (by cases hentry), fun _ _ hout ↦ by cases hout⟩
  · exact ⟨fun entry hentry ↦ hentry, fun _ _ hout ↦ by cases hout⟩

def errandsTokens (p : Pid) (errands : List (Errand E)) : ℕ := (errands.map (errandTokens p)).sum

@[simp] theorem errandsTokens_nil : errandsTokens p ([] : List (Errand E)) = 0 := rfl

@[simp] theorem errandsTokens_cons (errand : Errand E) (rest : List (Errand E)) :
    errandsTokens p (errand :: rest) = errandTokens p errand + errandsTokens p rest := by
  simp [errandsTokens]

@[simp] theorem errandsTokens_append (l₁ l₂ : List (Errand E)) :
    errandsTokens p (l₁ ++ l₂) = errandsTokens p l₁ + errandsTokens p l₂ := by
  simp [errandsTokens]

@[simp] theorem errandsTokens_dropBox (drops : List (Process E)) :
    errandsTokens p (drops.map Errand.dropBox) = 0 := by
  induction drops with
  | nil => rfl
  | cons process drops ih => simp [ih, errandTokens]

@[simp] theorem errandsTokens_take (es : List E) :
    errandsTokens p (es.map Errand.takeWaitingReceiver) = 0 := by
  induction es with
  | nil => rfl
  | cons e es ih => simp [ih, errandTokens]

@[simp] theorem errandsTokens_sender (sender : EndpointWaiter) (id : ℕ) :
    errandsTokens p (State.senderErrands sender id : List (Errand E)) = waiterTokens p sender := by
  cases sender <;> simp [State.senderErrands, errandTokens, waiterTokens]

@[simp] theorem errandsTokens_receiver (e : E) (receiver : EndpointWaiter) :
    errandsTokens p (State.receiverErrands e receiver) = waiterTokens p receiver := by
  cases receiver <;> simp [State.receiverErrands, errandTokens, waiterTokens]

namespace State

variable [Fintype E] {s : State E} {c : CoreId}

theorem tokens_setCore (core : Core E) :
    (s.setCore c core).tokens p + errandsTokens p (s.cores c).errands =
      s.tokens p + errandsTokens p core.errands := by
  have hsum := sum_comp_update (coreTokens p) s.cores c core
  simp only [tokens, setCore, coreTokens, errandsTokens] at hsum ⊢
  omega

@[simp] theorem tokens_accept : s.accept.tokens p = s.tokens p := rfl

@[simp] theorem tokens_record (event : Event E) : (s.record event).tokens p = s.tokens p := rfl

theorem tokens_setEndpoint [DecidableEq E] (e : E) (slot : EndpointSlot) :
    (s.setEndpoint e slot).tokens p + slotTokens p (s.endpoints e) =
      s.tokens p + slotTokens p slot := by
  have hsum := sum_comp_update (slotTokens p) s.endpoints e slot
  simp only [tokens, setEndpoint] at hsum ⊢
  omega

theorem scene_setCore {core : Core E}
    (h : ∀ p, errandsTokens p core.errands = errandsTokens p (s.cores c).errands) :
    (s.setCore c core).scene = s.scene.goto c core.main := by
  have htokens : (s.setCore c core).tokens = s.tokens := by
    funext p
    have hset := tokens_setCore (s := s) (c := c) (p := p) core
    rw [h p] at hset
    omega
  have hmain : (fun d ↦ ((s.setCore c core).cores d).main) =
      update (fun d ↦ (s.cores d).main) c core.main := by
    funext d
    by_cases hd : d = c
    · subst hd
      simp [setCore]
    · simp [setCore, hd]
  simp only [scene, Scene.goto, htokens, hmain]
  rfl

end State

end Tarnos.Kernel
