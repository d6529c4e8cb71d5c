import Tarnos.Kernel.Syscall
import Tarnos.Memory.Grow

namespace Tarnos.Memory

open Abi Arch Tarnos.Task Kernel Foundation.Transition BitmapFrameAllocator

variable {W : ℕ} {page : Page} {space' : AddressSpace} {ram' : Ram W}

def alignUp (addr align : UInt64) : UInt64 := (addr + align - 1) &&& ~~~(align - 1)

/-- The pages of the loop `while addr < high`, which adds 4096 each time. -/
def pagesBetween (low high : ℕ) : List Page :=
  (List.range ((high - low + 4095) / 4096)).map fun i ↦ .containingAddress (low + i * 4096)

def sbrkEnds (heapEnd increment : UInt64) : Except SyscallError (UInt64 × UInt64) :=
  if increment.toInt64 < 0 then .error .invalidArgument
  else if 2 ^ 64 ≤ heapEnd.toNat + increment.toNat then .error .invalidArgument
  else if userHeapMaxSize < heapEnd + increment - userHeapStart then .error .invalidArgument
  else .ok (heapEnd, heapEnd + increment)

/-- The kernel's record of a process's heap. -/
structure Heap where
  space : AddressSpace
  heapEnd : UInt64

def heapFlags : PageFlags := ⟨true, false⟩

def heapPages (oldEnd newEnd : UInt64) : List Page :=
  pagesBetween (alignUp oldEnd 4096).toNat (alignUp newEnd 4096).toNat

def sysSbrk [Mapper] (heap : Heap) (increment : UInt64) (ram : Ram W) :
    Except SyscallError UInt64 × Heap × Ram W :=
  match sbrkEnds heap.heapEnd increment with
  | .error e => (.error e, heap, ram)
  | .ok (oldEnd, newEnd) =>
    match mapPages false heapFlags (heapPages oldEnd newEnd) heap.space ram with
    | (.error _, space, ram) => (.error .resourceExhausted, { heap with space := space }, ram)
    | (.ok (), space, ram) => (.ok oldEnd, ⟨space, newEnd⟩, ram)

theorem toNat_alignUp {addr : UInt64} (h : addr.toNat + 4096 ≤ 2 ^ 64) :
    (alignUp addr 4096).toNat = (addr.toNat + 4095) / 4096 * 4096 := by
  have hsum : (addr + 4096 - 1).toNat = addr.toNat + 4095 := by
    rw [UInt64.toNat_sub, UInt64.toNat_add]
    change (2 ^ 64 - 1 + (addr.toNat + 4096) % 2 ^ 64) % 2 ^ 64 = addr.toNat + 4095
    omega
  have hmask : (alignUp addr 4096).toNat = (((addr + 4096 - 1).toBitVec >>> 12) <<< 12).toNat :=
    congrArg BitVec.toNat (and_not_mask (addr + 4096 - 1).toBitVec)
  rw [hmask, BitVec.toNat_shiftLeft, BitVec.toNat_ushiftRight, Nat.shiftRight_eq_div_pow,
    Nat.shiftLeft_eq, UInt64.toNat_toBitVec, hsum]
  omega

theorem mem_pagesBetween {low high : ℕ} (hlow : low % 4096 = 0) (hhigh : high % 4096 = 0)
    (hbound : high ≤ 2 ^ 47) :
    page ∈ pagesBetween low high ↔ low ≤ page.number * 4096 ∧ page.number * 4096 < high := by
  rw [pagesBetween, List.mem_map]
  constructor
  · rintro ⟨i, hi, rfl⟩
    have hi' := List.mem_range.mp hi
    simp only [Page.containingAddress]
    omega
  · rintro ⟨hle, hlt⟩
    refine ⟨page.number - low / 4096, List.mem_range.mpr (by omega), ?_⟩
    apply Page.ext
    have huser := page.user
    simp only [Page.containingAddress]
    omega

theorem nodup_pagesBetween {low high : ℕ} (hlow : low % 4096 = 0) (hhigh : high % 4096 = 0)
    (hbound : high ≤ 2 ^ 47) : (pagesBetween low high).Nodup := by
  refine List.Nodup.map_on (fun i hi j hj heq ↦ ?_) List.nodup_range
  have hi' := List.mem_range.mp hi
  have hj' := List.mem_range.mp hj
  have hnumber := congrArg Page.number heq
  simp only [Page.containingAddress] at hnumber
  omega

def Page.InHeap (page : Page) : Prop :=
  userHeapStart.toNat ≤ page.number * 4096 ∧
    page.number * 4096 < userHeapStart.toNat + userHeapMaxSize.toNat

namespace Heap

/-- The end stays in its region, and exactly the pages up to it are mapped. -/
structure Sound (heap : Heap) : Prop where
  start : userHeapStart ≤ heap.heapEnd
  bounded : heap.heapEnd.toNat - userHeapStart.toNat ≤ userHeapMaxSize.toNat
  mapped : ∀ page : Page, page.InHeap → ((heap.space.translatePage page).isSome ↔
    page.number * 4096 < (alignUp heap.heapEnd 4096).toNat)

/-- What a call promises: a success returns the old end and moves it by the increment, an error
changes nothing. -/
structure Atomic [Mapper] (heap : Heap) (increment : UInt64) (ram : Ram W) : Prop where
  ok : ∀ value heap' ram', sysSbrk heap increment ram = (.ok value, heap', ram') →
    value = heap.heapEnd ∧ heap'.heapEnd.toNat = heap.heapEnd.toNat + increment.toNat ∧ heap'.Sound
  error : ∀ e heap' ram', sysSbrk heap increment ram = (.error e, heap', ram') →
    heap'.heapEnd = heap.heapEnd ∧
      (∀ page, heap'.space.translatePage page = heap.space.translatePage page) ∧ ram'.free = ram.free

/-- The frames are enough for all pages of the call and the tables they lack, or there is not even
one. -/
def Affords (heap : Heap) (increment : UInt64) (ram : Ram W) : Prop :=
  ∀ oldEnd newEnd, sbrkEnds heap.heapEnd increment = .ok (oldEnd, newEnd) →
    heapPages oldEnd newEnd = [] ∨ ram.free = ∅ ∨
      heap.space.needs (heapPages oldEnd newEnd) ≤ ram.free.card

variable {heap : Heap} {increment oldEnd newEnd : UInt64} {ram : Ram W}

theorem sbrkEnds_ok (hsound : heap.Sound)
    (h : sbrkEnds heap.heapEnd increment = .ok (oldEnd, newEnd)) :
    oldEnd = heap.heapEnd ∧ newEnd.toNat = heap.heapEnd.toNat + increment.toNat ∧
      newEnd.toNat ≤ userHeapStart.toNat + userHeapMaxSize.toNat := by
  unfold sbrkEnds at h
  split at h
  · cases h
  split at h
  · cases h
  split at h
  · cases h
  rename_i _ hfits hmax
  cases h
  have hstart := UInt64.le_iff_toNat_le.mp hsound.start
  have hsum : (heap.heapEnd + increment).toNat = heap.heapEnd.toNat + increment.toNat := by
    rw [UInt64.toNat_add, Nat.mod_eq_of_lt (by omega)]
  have hle : userHeapStart ≤ heap.heapEnd + increment := by
    rw [UInt64.le_iff_toNat_le, hsum]
    omega
  have hmax' := UInt64.le_iff_toNat_le.mp (UInt64.not_lt.mp hmax)
  rw [UInt64.toNat_sub_of_le _ _ hle] at hmax'
  exact ⟨rfl, hsum, by omega⟩

theorem heapLimit : userHeapStart.toNat + userHeapMaxSize.toNat + 4096 ≤ 2 ^ 47 := by decide

theorem toNat_alignUp_end {endAt : UInt64}
    (h : endAt.toNat ≤ userHeapStart.toNat + userHeapMaxSize.toNat) :
    (alignUp endAt 4096).toNat = (endAt.toNat + 4095) / 4096 * 4096 := by
  have hlimit := heapLimit
  exact toNat_alignUp (by omega)

theorem Sound.le_limit (hsound : heap.Sound) :
    heap.heapEnd.toNat ≤ userHeapStart.toNat + userHeapMaxSize.toNat := by
  have hstart := UInt64.le_iff_toNat_le.mp hsound.start
  have hbounded := hsound.bounded
  omega

section

variable (hsound : heap.Sound) (h : sbrkEnds heap.heapEnd increment = .ok (oldEnd, newEnd))

include hsound h

theorem Sound.mem_heapPages :
    page ∈ heapPages oldEnd newEnd ↔ (alignUp heap.heapEnd 4096).toNat ≤ page.number * 4096 ∧
      page.number * 4096 < (alignUp newEnd 4096).toNat := by
  obtain ⟨rfl, -, hmax⟩ := sbrkEnds_ok hsound h
  have hlimit := heapLimit
  apply mem_pagesBetween
  · rw [toNat_alignUp_end hsound.le_limit]
    omega
  · rw [toNat_alignUp_end hmax]
    omega
  · rw [toNat_alignUp_end hmax]
    omega

theorem Sound.nodup_heapPages : (heapPages oldEnd newEnd).Nodup := by
  obtain ⟨rfl, -, hmax⟩ := sbrkEnds_ok hsound h
  have hlimit := heapLimit
  apply nodup_pagesBetween
  · rw [toNat_alignUp_end hsound.le_limit]
    omega
  · rw [toNat_alignUp_end hmax]
    omega
  · rw [toNat_alignUp_end hmax]
    omega

theorem Sound.inHeap (hpage : page ∈ heapPages oldEnd newEnd) : page.InHeap := by
  obtain ⟨hlow, hhigh⟩ := (hsound.mem_heapPages h).mp hpage
  obtain ⟨-, -, hmax⟩ := sbrkEnds_ok hsound h
  have hstart := UInt64.le_iff_toNat_le.mp hsound.start
  rw [toNat_alignUp_end hsound.le_limit] at hlow
  rw [toNat_alignUp_end hmax] at hhigh
  have hround : (userHeapStart.toNat + userHeapMaxSize.toNat) % 4096 = 0 := by decide
  constructor
  · omega
  · omega

theorem Sound.unmapped :
    ∀ page ∈ heapPages oldEnd newEnd, heap.space.translatePage page = none := by
  intro page hpage
  have hlow := ((hsound.mem_heapPages h).mp hpage).1
  have hiff := hsound.mapped page (hsound.inHeap h hpage)
  rw [← Option.not_isSome_iff_eq_none, hiff]
  omega

end

variable [Mapper]

theorem Sound.grown (hsound : heap.Sound)
    (h : sbrkEnds heap.heapEnd increment = .ok (oldEnd, newEnd))
    (hmaps : mapPages false heapFlags (heapPages oldEnd newEnd) heap.space ram =
      (.ok (), space', ram')) : Sound ⟨space', newEnd⟩ := by
  obtain ⟨-, hnew, hmax⟩ := sbrkEnds_ok hsound h
  have hstart := UInt64.le_iff_toNat_le.mp hsound.start
  have hle : userHeapStart ≤ newEnd := UInt64.le_iff_toNat_le.mpr (by omega)
  refine ⟨hle, Nat.sub_le_iff_le_add'.mpr hmax, ?_⟩
  intro page hpage
  rw [mapPages_mapped hmaps rfl, hsound.mapped page hpage, hsound.mem_heapPages h]
  have hgrows : (alignUp heap.heapEnd 4096).toNat ≤ (alignUp newEnd 4096).toNat := by
    rw [toNat_alignUp_end hsound.le_limit, toNat_alignUp_end hmax]
    omega
  simp only
  omega

theorem Sound.isOk_iff {result : Except GrowError Unit}
    (hsound : heap.Sound) (h : sbrkEnds heap.heapEnd increment = .ok (oldEnd, newEnd))
    (hmaps : mapPages false heapFlags (heapPages oldEnd newEnd) heap.space ram =
      (result, space', ram')) :
    result.isOk = true ↔ heap.space.needs (heapPages oldEnd newEnd) ≤ ram.free.card :=
  mapPages_isOk (hsound.nodup_heapPages h) (hsound.unmapped h) hmaps

theorem sysSbrk_cases (heap : Heap) (increment : UInt64) (ram : Ram W) :
    (∃ e, sbrkEnds heap.heapEnd increment = .error e ∧
      sysSbrk heap increment ram = (.error e, heap, ram)) ∨
    ∃ oldEnd newEnd result space' ram', sbrkEnds heap.heapEnd increment = .ok (oldEnd, newEnd) ∧
      mapPages false heapFlags (heapPages oldEnd newEnd) heap.space ram = (result, space', ram') ∧
      sysSbrk heap increment ram = match result with
        | .error _ => (.error .resourceExhausted, { heap with space := space' }, ram')
        | .ok () => (.ok oldEnd, ⟨space', newEnd⟩, ram') := by
  unfold sysSbrk
  cases hends : sbrkEnds heap.heapEnd increment with
  | error e => exact .inl ⟨e, rfl, rfl⟩
  | ok ends =>
    obtain ⟨oldEnd, newEnd⟩ := ends
    right
    simp only
    generalize hmaps : mapPages false heapFlags (heapPages oldEnd newEnd) heap.space ram = out
    obtain ⟨result, space', ram'⟩ := out
    refine ⟨oldEnd, newEnd, result, space', ram', rfl, hmaps, ?_⟩
    cases result <;> rfl

theorem Sound.succeeds (hsound : heap.Sound)
    (h : sbrkEnds heap.heapEnd increment = .ok (oldEnd, newEnd))
    (hneeds : heap.space.needs (heapPages oldEnd newEnd) ≤ ram.free.card) :
    (sysSbrk heap increment ram).1 = .ok heap.heapEnd := by
  obtain ⟨e, he, -⟩ | ⟨old, new, result, space', ram', hends, hmaps, heq⟩ :=
    sysSbrk_cases heap increment ram
  · rw [h] at he
    cases he
  · rw [h] at hends
    cases hends
    have hok := (hsound.isOk_iff h hmaps).mpr hneeds
    cases result with
    | error e => cases hok
    | ok _ => rw [heq, (sbrkEnds_ok hsound h).1]

theorem Sound.atomic_of_affords (hsound : heap.Sound) (hafford : heap.Affords increment ram) :
    heap.Atomic increment ram := by
  obtain ⟨e, he, heq⟩ | ⟨oldEnd, newEnd, result, space', ram', hends, hmaps, heq⟩ :=
    sysSbrk_cases heap increment ram
  · constructor
    · intro value heap' ram' h
      rw [heq] at h
      cases h
    · intro e' heap' ram' h
      rw [heq] at h
      cases h
      exact ⟨rfl, fun _ ↦ rfl, rfl⟩
  · constructor
    · intro value heap' ram'' h
      rw [heq] at h
      cases result with
      | error e => cases h
      | ok _ =>
        cases h
        obtain ⟨hold, hnew, -⟩ := sbrkEnds_ok hsound hends
        exact ⟨hold, hnew, hsound.grown hends hmaps⟩
    · intro e heap' ram'' h
      rw [heq] at h
      cases result with
      | ok _ => cases h
      | error err =>
        cases h
        have hfails : ¬ heap.space.needs (heapPages oldEnd newEnd) ≤ ram.free.card := by
          rw [← hsound.isOk_iff hends hmaps]
          exact Bool.false_ne_true
        -- no page at all is mapped successfully, and enough frames are too
        obtain hnil | hfree | hneeds := hafford oldEnd newEnd hends
        · rw [hnil] at hmaps
          cases hmaps
        · by_cases hne : heapPages oldEnd newEnd = []
          · rw [hne] at hmaps
            cases hmaps
          · obtain ⟨-, rfl, rfl⟩ := mapPages_exhausted hne hfree hmaps
            exact ⟨rfl, fun _ ↦ rfl, rfl⟩
        · exact absurd hneeds hfails

theorem Sound.affords_of_atomic (hsound : heap.Sound) (hatomic : heap.Atomic increment ram) :
    heap.Affords increment ram := by
  intro oldEnd newEnd h
  by_cases hne : heapPages oldEnd newEnd = []
  · exact .inl hne
  by_cases hfree : ram.free = ∅
  · exact .inr (.inl hfree)
  right
  right
  obtain ⟨e, he, -⟩ | ⟨old, new, result, space', ram', hends, hmaps, heq⟩ :=
    sysSbrk_cases heap increment ram
  · rw [h] at he
    cases he
  · rw [h] at hends
    cases hends
    cases result with
    | ok _ => exact (hsound.isOk_iff h hmaps).mp rfl
    | error e =>
      have hsame := (hatomic.error _ _ _ heq).2.2
      have hlost := mapPages_card hne hfree hmaps
      rw [hsame] at hlost
      exact absurd hlost (Nat.lt_irrefl _)

theorem Sound.atomic_iff (hsound : heap.Sound) :
    heap.Atomic increment ram ↔ heap.Affords increment ram :=
  ⟨hsound.affords_of_atomic, hsound.atomic_of_affords⟩

theorem Sound.sysSbrk (hsound : heap.Sound) (hatomic : heap.Atomic increment ram) :
    (sysSbrk heap increment ram).2.1.Sound := by
  generalize hout : Memory.sysSbrk heap increment ram = out
  obtain ⟨result, heap', ram'⟩ := out
  cases result with
  | ok value => exact (hatomic.ok value heap' ram' hout).2.2
  | error e =>
    obtain ⟨hend, hspace, -⟩ := hatomic.error e heap' ram' hout
    refine ⟨?_, ?_, fun page hpage ↦ ?_⟩
    · rw [hend]
      exact hsound.start
    · rw [hend]
      exact hsound.bounded
    · rw [hspace page, hend]
      exact hsound.mapped page hpage

end Heap

/-- A process's heap and the memory it grows from. -/
structure Growth (W : ℕ) where
  heap : Heap
  ram : Ram W

namespace Growth

section

variable [Mapper]

/-- A call of the process, or anything the rest of the kernel does to the memory in between. -/
inductive Action (W : ℕ) where
  | sbrk (increment : UInt64)
  | others (ram : Ram W)

def next (s : Growth W) : Action W → Option (Growth W)
  | .sbrk increment =>
    let out := sysSbrk s.heap increment s.ram
    some ⟨out.2.1, out.2.2⟩
  | .others ram => some ⟨s.heap, ram⟩

theorem next_sbrk (heap : Heap) (increment : UInt64) (ram : Ram W) :
    next ⟨heap, ram⟩ (.sbrk increment) =
      some ⟨(sysSbrk heap increment ram).2.1, (sysSbrk heap increment ram).2.2⟩ := rfl

/-- Every call is made with enough free frames for all its pages, or with none. -/
def Affords (s : Growth W) : Action W → Prop
  | .sbrk increment => s.heap.Affords increment s.ram
  | .others _ => True

theorem next_sound {s s' : Growth W} {a : Action W} (hsound : s.heap.Sound) (hafford : s.Affords a)
    (h : s.next a = some s') : s'.heap.Sound := by
  cases a with
  | sbrk increment =>
    cases h
    exact hsound.sysSbrk (hsound.atomic_of_affords hafford)
  | others ram =>
    cases h
    exact hsound

/-- From a sound heap, by calls that the memory affords, only sound heaps are reached; there a call
keeps its promise exactly if the memory affords it, and one that is accepted and whose pages and
tables the free frames cover succeeds. -/
theorem sbrk_of_reach {s t : Growth W} (hsound : s.heap.Sound) (h : Reach next Affords s t) :
    t.heap.Sound ∧
      (∀ increment, t.heap.Atomic increment t.ram ↔ t.heap.Affords increment t.ram) ∧
      ∀ increment oldEnd newEnd, sbrkEnds t.heap.heapEnd increment = .ok (oldEnd, newEnd) →
        t.heap.space.needs (heapPages oldEnd newEnd) ≤ t.ram.free.card →
        (sysSbrk t.heap increment t.ram).1 = .ok t.heap.heapEnd := by
  have ht : t.heap.Sound :=
    h.invariant (I := fun s ↦ s.heap.Sound) hsound fun _ _ _ hs hok hnext ↦ next_sound hs hok hnext
  exact ⟨ht, fun _ ↦ ht.atomic_iff, fun _ _ _ hends hneeds ↦ ht.succeeds hends hneeds⟩

end

def bare : Heap := ⟨⟨⟨0⟩, .empty 3, AddressSpace.lower_empty⟩, userHeapStart⟩

theorem bare_sound : bare.Sound := by
  refine ⟨UInt64.le_refl _, by decide, fun page hpage ↦ ?_⟩
  have hround : (alignUp bare.heapEnd 4096).toNat = userHeapStart.toNat := by decide
  have hnone : (bare.space.translatePage page).isSome = false := rfl
  have hlow := hpage.1
  rw [hround, hnone]
  exact ⟨fun h ↦ Bool.noConfusion h, fun h ↦ by omega⟩

def framesFrom (n : ℕ) : Ram bitmapWords :=
  ⟨new.populate [⟨0x1000, n * 0x1000, true⟩], fun _ _ ↦ 0⟩

theorem card_framesFrom {n : ℕ} (hn : n < 2 ^ 20) : (framesFrom n).free.card = n := by
  have hfree : (framesFrom n).free = (Finset.Icc 1 n).map
      ⟨PhysFrame.mk, fun _ _ h ↦ congrArg PhysFrame.index h⟩ := by
    ext frame
    have hentries : ∀ entry ∈ [(⟨0x1000, n * 0x1000, true⟩ : Entry)],
        entry.usable = true → entry.base + entry.length < 2 ^ 64 := by
      simp only [List.mem_singleton, forall_eq, forall_const]
      omega
    have hmem := (free_populate (W := bitmapWords) (a := .new)
      hentries frame).1
    have hwords : bitmapWords * 64 = 4194304 := by decide
    rw [free_new, mem_tracked, hwords] at hmem
    rw [Ram.free, framesFrom, hmem, Finset.mem_map]
    simp only [Finset.notMem_empty, false_or, List.mem_singleton, exists_eq_left, Entry.Covers,
      PhysFrame.startAddress, frameSize, Finset.mem_Icc, true_and]
    constructor
    · intro h
      exact ⟨frame.index, by omega, rfl⟩
    · rintro ⟨i, hi, heq⟩
      have hindex : i = frame.index := congrArg PhysFrame.index heq
      omega
  rw [hfree, Finset.card_map, Nat.card_Icc, Nat.add_sub_cancel]

theorem sbrk_of_reach_page : ∃ t : Growth bitmapWords,
    next ⟨bare, framesFrom 5⟩ (.sbrk 4096) = some t ∧ t.heap.Sound ∧
      (∀ increment, t.heap.Atomic increment t.ram ↔ t.heap.Affords increment t.ram) := by
  have hafford : Affords ⟨bare, framesFrom 5⟩ (.sbrk 4096) := by
    intro oldEnd newEnd hends
    right
    right
    rw [card_framesFrom (by decide)]
    have hneeds : ∀ ends, sbrkEnds bare.heapEnd 4096 = .ok ends →
        bare.space.needs (heapPages ends.1 ends.2) ≤ 5 := by
      intro ends h
      cases h
      decide +kernel
    exact hneeds (oldEnd, newEnd) hends
  have ht := next_sbrk bare 4096 (framesFrom 5)
  have hreach := sbrk_of_reach bare_sound (Reach.one hafford ht)
  exact ⟨_, ht, hreach.1, hreach.2.1⟩

theorem mapPages_pair {cleared : Bool} {flags : PageFlags} {later : Page} {space : AddressSpace}
    {ram : Ram W} {e : GrowError}
    (hfits : space.translatePage page = none ∧ space.missingTables page + 1 ≤ ram.free.card)
    (h : mapPages cleared flags [page, later] space ram = (.error e, space', ram')) :
    (space'.translatePage page).isSome := by
  rw [mapPages] at h
  generalize hfirst : mapFresh cleared flags page space ram = first at h
  obtain ⟨result, space₁, ram₁⟩ := first
  have hmaps := mapFresh_maps hfirst
  cases result with
  | error e' => exact absurd (hmaps.isOk.mpr hfits) Bool.false_ne_true
  | ok _ =>
    have hmapped := (hmaps.isSome_translatePage page).mpr (.inr rfl)
    simp only [mapPages] at h
    split at h
    · cases h
    · rename_i e' space₂ ram₂ hsecond
      cases h
      rw [(mapFresh_maps hsecond).translatePage page fun hok ↦ absurd hok Bool.false_ne_true]
      exact hmapped

theorem sysSbrk_of_mapped {heap : Heap} {increment oldEnd newEnd : UInt64}
    {pages : List Page} {ram : Ram W} (h : sbrkEnds heap.heapEnd increment = .ok (oldEnd, newEnd))
    (hpages : heapPages oldEnd newEnd = page :: pages)
    (hmapped : (heap.space.translatePage page).isSome) (value : UInt64) :
    (sysSbrk heap increment ram).1 ≠ .ok value := by
  intro hvalue
  simp only [sysSbrk, h, hpages, mapPages] at hvalue
  generalize hfirst : mapFresh false heapFlags page heap.space ram = first at hvalue
  obtain ⟨result, space₁, ram₁⟩ := first
  cases result with
  | error e => cases hvalue
  | ok _ =>
    have hnone := ((mapFresh_maps hfirst).isOk.mp rfl).1
    rw [hnone] at hmapped
    cases hmapped

/-- With four free frames the first of two pages is mapped and the call fails at the second. The
end stays, the page and its tables are kept, and the next call trips over that page however much
memory there is by then. -/
theorem sbrk_leaves_page : bare.Sound ∧ ∃ heap ram,
    sysSbrk bare 8192 (framesFrom 4) = (.error .resourceExhausted, heap, ram) ∧
      heap.heapEnd = bare.heapEnd ∧
      bare.space.translatePage (.containingAddress userHeapStart.toNat) = none ∧
      heap.space.translatePage (.containingAddress userHeapStart.toNat) ≠ none ∧
      ram.free ≠ (framesFrom 4).free ∧
      ∀ later : Ram bitmapWords, ∀ value, (sysSbrk heap 4096 later).1 ≠ .ok value := by
  have hcard : (framesFrom 4).free.card = 4 := card_framesFrom (by decide)
  have hends : sbrkEnds bare.heapEnd 8192 = .ok (userHeapStart, userHeapStart + 8192) := rfl
  have hpages : heapPages userHeapStart (userHeapStart + 8192) =
      [.containingAddress userHeapStart.toNat, .containingAddress (userHeapStart.toNat + 4096)] := by
    decide +kernel
  refine ⟨bare_sound, ?_⟩
  obtain ⟨e, he, -⟩ | ⟨oldEnd, newEnd, result, space', ram', hends', hmaps, heq⟩ :=
    Heap.sysSbrk_cases bare 8192 (framesFrom 4)
  · rw [hends] at he
    cases he
  rw [hends] at hends'
  cases hends'
  have hneeds : bare.space.needs (heapPages userHeapStart (userHeapStart + 8192)) = 5 := by
    decide +kernel
  cases result with
  | ok _ =>
    have hle := (bare_sound.isOk_iff hends hmaps).mp rfl
    omega
  | error e =>
    have hfree : (framesFrom 4).free ≠ ∅ := by
      intro hnone
      rw [hnone] at hcard
      cases hcard
    have hlost := mapPages_card (by rw [hpages]; exact List.cons_ne_nil _ _) hfree hmaps
    rw [hpages] at hmaps
    have hmapped := mapPages_pair ⟨rfl, by rw [hcard]; decide +kernel⟩ hmaps
    refine ⟨_, _, heq, rfl, rfl, Option.isSome_iff_ne_none.mp hmapped, fun h ↦ ?_, ?_⟩
    · rw [h] at hlost
      exact absurd hlost (Nat.lt_irrefl _)
    · intro later
      have hends : sbrkEnds userHeapStart 4096 = .ok (userHeapStart, userHeapStart + 4096) := rfl
      have hpages : heapPages userHeapStart (userHeapStart + 4096) =
          [.containingAddress userHeapStart.toNat] := by decide +kernel
      exact sysSbrk_of_mapped hends hpages hmapped

end Growth

end Tarnos.Memory
