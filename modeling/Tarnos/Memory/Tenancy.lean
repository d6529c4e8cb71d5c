import Tarnos.Memory.Sbrk
import Tarnos.Memory.Segment

namespace Tarnos.Memory

open Arch Foundation Foundation.Transition Tarnos.Task AddressSpace Growth

variable {W : ℕ} {k : ℕ}

def userStackPages : ℕ := 4
def userStackTop : ℕ := 0x7ffffffff000

def stackPages : List Page :=
  Page.rangeInclusive (.containingAddress (userStackTop - userStackPages * 4096))
    (.containingAddress (userStackTop - 1))

def stackFlags : PageFlags := ⟨true, false⟩

def stackErrorFrom : GrowError → String
  | .noFrame => "out of memory mapping user stack"
  | .map _ => "failed to map user stack"

section

variable [Mapper]

/-- The memory of `Process::new`. An address space that gets no stack is dropped on the way out;
`none` is a panic. -/
def processNew (space : AddressSpace) (entry : ℕ) (ram : Ram W) :
    Option (Except String (Heap × ℕ) × Ram W) :=
  match mapPages false stackFlags stackPages space ram with
  | (.error e, space, ram) => (space.drop ram).map fun ram ↦ (.error (stackErrorFrom e), ram)
  | (.ok (), space, ram) => some (.ok (⟨space, userHeapStart⟩, entry), ram)

/-- The memory of `Process::from_elf`. -/
def fromElf (data : List UInt8) (ram : Ram W) : Option (Except String (Heap × ℕ) × Ram W) :=
  match new ram with
  | (.error _, ram) => some (.error "out of memory creating address space", ram)
  | (.ok space, ram) =>
    match load data space ram with
    | (.error .panic, _, _) => none
    | (.error (.error _), space, ram) =>
      (space.drop ram).map fun ram ↦ (.error "failed to load ELF image", ram)
    | (.ok entry, space, ram) => processNew space entry ram

def creationSites (data : List UInt8) (ram : Ram W) : List (Site W) :=
  match new ram with
  | (.error _, _) => []
  | (.ok space, ram) =>
    loadSites data space ram ++
      match load data space ram with
      | (.error _, _, _) => []
      | (.ok _, space, ram) => pageSites false stackFlags stackPages space ram

def sbrkSites (heap : Heap) (increment : UInt64) (ram : Ram W) : List (Site W) :=
  match sbrkEnds heap.heapEnd increment with
  | .error _ => []
  | .ok (oldEnd, newEnd) => pageSites false heapFlags (heapPages oldEnd newEnd) heap.space ram

def createdFrames : Except String (Heap × ℕ) → Multiset PhysFrame
  | .ok (heap, _) => heap.space.owned
  | .error _ => 0

variable {space : AddressSpace} {ram : Ram W}

theorem processNew_spends (hram : Ordered ram space.owned) (entry : ℕ) :
    ∃ result ram', processNew space entry ram = some (result, ram') ∧
      Spends ram space.owned (pageSites false stackFlags stackPages space ram) ram'
        (createdFrames result) := by
  unfold processNew
  generalize hmaps : mapPages false stackFlags stackPages space ram = out
  obtain ⟨outcome, space', next⟩ := out
  have hspends := (mapPages_backing hmaps).spends
  cases outcome with
  | ok _ => exact ⟨_, _, rfl, hspends⟩
  | error e =>
    obtain ⟨last, hdrop, hfreed⟩ := drop_spends (hspends.ordered hram)
    have hall := hspends.trans hfreed
    rw [List.append_nil] at hall
    exact ⟨.error (stackErrorFrom e), last, by simp only [hdrop, Option.map_some], hall⟩

theorem fromElf_cases (hram : Ordered ram 0) (data : List UInt8) :
    (fromElf data ram = none ∧ ∃ space next, new ram = (.ok space, next) ∧
      (load data space next).1 = .error .panic) ∨
    ∃ result ram', fromElf data ram = some (result, ram') ∧
      Spends ram 0 (creationSites data ram) ram' (createdFrames result) := by
  unfold fromElf creationSites
  generalize hnew : new ram = out
  obtain ⟨outcome, next⟩ := out
  cases outcome with
  | error e =>
    right
    refine ⟨_, _, rfl, ?_⟩
    unfold new at hnew
    split at hnew
    · rename_i taken htake
      cases hnew
      rw [(Ram.allocateFrame_none htake).2]
      exact .refl ram 0
    · cases hnew
  | ok space =>
    have hspace := new_spends hnew
    simp only
    generalize hload : load data space next = out
    obtain ⟨outcome, space', after⟩ := out
    have hloaded := hspace.trans (load_backing hload).spends
    rw [List.nil_append] at hloaded
    have hordered := hloaded.ordered hram
    cases outcome with
    | ok entry =>
      obtain ⟨result, ram', heq, hrest⟩ := processNew_spends hordered entry
      exact .inr ⟨result, ram', heq, hloaded.trans hrest⟩
    | error fault =>
      cases fault with
      | panic => exact .inl ⟨rfl, space, next, rfl, by rw [hload]⟩
      | error e =>
        obtain ⟨last, hdrop, hfreed⟩ := drop_spends hordered
        right
        exact ⟨.error "failed to load ELF image", last, by simp only [hdrop, Option.map_some],
          hloaded.trans hfreed⟩

theorem sysSbrk_backing (heap : Heap) (increment : UInt64) (ram : Ram W) :
    Backing heap.space ram (sbrkSites heap increment ram) (sysSbrk heap increment ram).2.1.space
      (sysSbrk heap increment ram).2.2 := by
  unfold sysSbrk sbrkSites
  cases sbrkEnds heap.heapEnd increment with
  | error e => exact .done _ _
  | ok ends =>
    simp only
    generalize hmaps : mapPages false heapFlags (heapPages ends.1 ends.2) heap.space ram = out
    obtain ⟨outcome, space', next⟩ := out
    cases outcome <;> exact mapPages_backing hmaps

end

/-- The memory and the processes in it. -/
structure Tenancy (W : ℕ) where
  ram : Ram W
  heaps : List Heap

namespace Tenancy

/-- A process is created, grows its heap or is torn down, or somebody writes into a frame that is
not free. -/
inductive Action
  | create (data : List UInt8)
  | sbrk (k : ℕ) (increment : UInt64)
  | drop (k : ℕ)
  | write (frame : PhysFrame) (offset : ℕ) (data : List UInt8)

def next [Mapper] (s : Tenancy W) : Action → Option (Tenancy W)
  | .create data =>
    match fromElf data s.ram with
    | none => none
    | some (.error _, ram) => some ⟨ram, s.heaps⟩
    | some (.ok (heap, _), ram) => some ⟨ram, heap :: s.heaps⟩
  | .sbrk k increment =>
    match s.heaps[k]? with
    | none => none
    | some heap =>
      let out := sysSbrk heap increment s.ram
      some ⟨out.2.2, s.heaps.set k out.2.1⟩
  | .drop k =>
    match s.heaps[k]? with
    | none => none
    | some heap => (heap.space.drop s.ram).map fun ram ↦ ⟨ram, s.heaps.eraseIdx k⟩
  | .write frame offset data =>
    if frame ∈ s.ram.free then none else some ⟨s.ram.write frame offset data, s.heaps⟩

def sites [Mapper] (s : Tenancy W) : Action → List (Site W)
  | .create data => creationSites data s.ram
  | .sbrk k increment =>
    match s.heaps[k]? with
    | none => []
    | some heap => sbrkSites heap increment s.ram
  | .drop _ => []
  | .write _ _ _ => []

def runSites [Mapper] (s : Tenancy W) : List Action → List (Site W)
  | [] => []
  | a :: actions => s.sites a ++ match s.next a with
    | none => []
    | some s' => runSites s' actions

def owned (s : Tenancy W) : Multiset PhysFrame := (s.heaps.map fun heap ↦ heap.space.owned).sum

variable {s s' t : Tenancy W} {a : Action}

theorem owned_perm {heaps heaps' : List Heap} (h : heaps.Perm heaps') :
    (heaps.map fun heap ↦ heap.space.owned).sum = (heaps'.map fun heap ↦ heap.space.owned).sum :=
  (h.map _).sum_eq

theorem owned_eq {heap : Heap} (h : s.heaps[k]? = some heap) :
    s.owned = heap.space.owned + (⟨s.ram, s.heaps.eraseIdx k⟩ : Tenancy W).owned := by
  obtain ⟨hk, rfl⟩ := List.getElem?_eq_some_iff.mp h
  rw [owned, owned, ← owned_perm (List.getElem_cons_eraseIdx_perm hk), List.map_cons, List.sum_cons]

theorem owned_set {ram : Ram W} {heaps : List Heap} (hk : k < heaps.length) (heap : Heap) :
    (⟨ram, heaps.set k heap⟩ : Tenancy W).owned =
      heap.space.owned + (⟨ram, heaps.eraseIdx k⟩ : Tenancy W).owned := by
  rw [owned, owned, owned_perm (List.set_perm_cons_eraseIdx hk heap), List.map_cons, List.sum_cons]

theorem ordered_of_getElem? {heap : Heap} (hs : Ordered s.ram s.owned)
    (h : s.heaps[k]? = some heap) : Ordered s.ram heap.space.owned := by
  rw [owned_eq h] at hs
  exact hs.left

theorem ordered_zero (hs : Ordered s.ram s.owned) : Ordered s.ram 0 := by
  rw [← zero_add s.owned] at hs
  exact hs.left

def vacant (allocator : BitmapFrameAllocator W) (bytes : PhysFrame → ℕ → UInt8) : Tenancy W :=
  ⟨⟨allocator, bytes⟩, []⟩

theorem vacant_ordered {allocator : BitmapFrameAllocator W}
    (h : allocator.free ⊆ allocator.pool) (bytes : PhysFrame → ℕ → UInt8) :
    Ordered (vacant allocator bytes).ram (vacant allocator bytes).owned := by
  have hnone : (vacant allocator bytes).owned = 0 := rfl
  rw [hnone]
  constructor
  · rw [add_zero]
    exact allocator.free.nodup
  · rw [add_zero]
    exact fun frame hframe ↦ h hframe

section

variable [Mapper]

theorem next_spends (hs : Ordered s.ram s.owned) (h : s.next a = some s') :
    Spends s.ram s.owned (s.sites a) s'.ram s'.owned := by
  cases a with
  | create data =>
    rw [next] at h
    obtain ⟨hnone, -⟩ | ⟨result, ram', heq, hspends⟩ := fromElf_cases (ordered_zero hs) data
    · rw [hnone] at h
      cases h
    · rw [heq] at h
      have hall := hspends.add s.owned
      rw [zero_add] at hall
      cases result with
      | error e =>
        cases h
        rw [createdFrames, zero_add] at hall
        exact hall
      | ok created =>
        cases h
        exact hall
  | sbrk k increment =>
    rw [next] at h
    rw [sites]
    split at h
    · cases h
    · rename_i heap hheap
      cases h
      obtain ⟨hk, -⟩ := List.getElem?_eq_some_iff.mp hheap
      rw [owned_eq hheap, owned_set hk]
      exact (sysSbrk_backing heap increment s.ram).spends.add _
  | drop k =>
    rw [next] at h
    split at h
    · cases h
    · rename_i heap hheap
      obtain ⟨ram', hdrop, hspends⟩ := drop_spends (ordered_of_getElem? hs hheap)
      rw [hdrop] at h
      cases h
      have hall := hspends.add (⟨s.ram, s.heaps.eraseIdx k⟩ : Tenancy W).owned
      rw [← owned_eq hheap, zero_add] at hall
      exact hall
  | write frame offset data =>
    rw [next] at h
    split at h
    · cases h
    · cases h
      exact .of_eq rfl rfl

theorem run_spends {actions : List Action} (hs : Ordered s.ram s.owned)
    (h : run next s actions = some t) :
    Spends s.ram s.owned (runSites s actions) t.ram t.owned := by
  induction actions generalizing s with
  | nil =>
    cases h
    exact .refl _ _
  | cons a actions ih =>
    rw [run, Option.bind_eq_some_iff] at h
    obtain ⟨s', hnext, hrest⟩ := h
    have hfirst := next_spends hs hnext
    rw [runSites, hnext]
    exact hfirst.trans (ih (hfirst.ordered hs) hrest)

theorem drop_isSome (hs : Ordered s.ram s.owned) (hk : k < s.heaps.length) :
    ∃ ram', s.next (.drop k) = some ⟨ram', s.heaps.eraseIdx k⟩ := by
  have hheap : s.heaps[k]? = some s.heaps[k] := List.getElem?_eq_getElem hk
  obtain ⟨ram', hdrop, -⟩ := drop_spends (ordered_of_getElem? hs hheap)
  refine ⟨ram', ?_⟩
  rw [next, hheap]
  simp only [hdrop, Option.map_some]

theorem free_eq_iff {actions : List Action} (hs : Ordered s.ram s.owned)
    (h : run next s actions = some t) (hstart : s.heaps = []) (hend : t.heaps = []) :
    t.ram.free = s.ram.free ↔
      ∀ site ∈ runSites s actions, Fits site.page site.space site.ram := by
  obtain ⟨lost, hlost, hfits⟩ := (run_spends hs h).lost
  have hnone : ∀ u : Tenancy W, u.heaps = [] → u.owned = 0 := by
    intro u hu
    rw [owned, hu]
    rfl
  rw [hnone s hstart, hnone t hend, add_zero, add_zero] at hlost
  rw [← hfits]
  constructor
  · intro heq
    rw [heq] at hlost
    exact right_eq_add.mp hlost
  · rintro rfl
    rw [zero_add] at hlost
    exact Finset.val_inj.mp hlost.symm

/-- From every state of the allocator: once the processes of a run are all torn down, the free
frames are the ones at the start exactly if every page fitted when its turn came. No frame is ever
freed twice: a teardown goes through, and a creation panics only where the loader does. -/
theorem conserves (entries : List Entry) (c : Custody bitmapWords)
    (hc : Reach Custody.next Custody.Returns (Custody.start entries) c)
    (bytes : PhysFrame → ℕ → UInt8) (actions : List Action) (t : Tenancy bitmapWords)
    (h : run next (vacant c.allocator bytes) actions = some t) :
    (t.heaps = [] → (t.ram.free = c.allocator.free ↔
      ∀ site ∈ runSites (vacant c.allocator bytes) actions,
        Fits site.page site.space site.ram)) ∧
    (∀ k < t.heaps.length, ∃ t', t.next (.drop k) = some t') ∧
    ∀ data, t.next (.create data) = none → ∃ space ram,
      new t.ram = (.ok space, ram) ∧ (load data space ram).1 = .error .panic := by
  have hstart := vacant_ordered (Custody.free_subset_pool hc) bytes
  have ht := (run_spends hstart h).ordered hstart
  have hfree : (vacant c.allocator bytes).ram.free = c.allocator.free := rfl
  rw [← hfree]
  refine ⟨fun hempty ↦ free_eq_iff hstart h rfl hempty, fun k hk ↦ ?_, fun data hnone ↦ ?_⟩
  · obtain ⟨ram', hdrop⟩ := drop_isSome ht hk
    exact ⟨_, hdrop⟩
  obtain ⟨-, hpanic⟩ | ⟨result, ram', heq, -⟩ := fromElf_cases (ordered_zero ht) data
  · exact hpanic
  · rw [next, heq] at hnone
    cases result <;> cases hnone

end

/-! Images with small segments. -/

def phdrBytes (phdr : ProgramHeader) : List UInt8 :=
  leBytes 4 phdr.pType ++ leBytes 4 phdr.pFlags ++ leBytes 8 phdr.pOffset ++
    leBytes 8 phdr.pVaddr ++ leBytes 8 0 ++ leBytes 8 phdr.pFilesz ++ leBytes 8 phdr.pMemsz ++
    leBytes 8 0x1000

def image (phdrs : List ProgramHeader) : List UInt8 :=
  eiMag ++ [2, 1, 1] ++ List.replicate 9 0 ++ leBytes 2 etExec ++ leBytes 2 emX8664 ++
    leBytes 4 1 ++ leBytes 8 0x400000 ++ leBytes 8 64 ++ leBytes 8 0 ++ leBytes 4 0 ++
    leBytes 2 64 ++ leBytes 2 56 ++ leBytes 2 phdrs.length ++ List.replicate 6 0 ++
    phdrs.flatMap phdrBytes

def segment : ProgramHeader := ⟨ptLoad, 5, 0, 0x400000, 0, 0x1000⟩

/-- Four bytes of the file across a page boundary, and two behind them. -/
def crossing : ProgramHeader := ⟨ptLoad, 5, 2, 0x400ffe, 4, 6⟩

theorem reads_image : readHeader (image []) = .ok ⟨0x400000, 64, 56, 0⟩ ∧
    segments (image []) = [] ∧ readHeader (image [crossing]) = .ok ⟨0x400000, 64, 56, 1⟩ ∧
    segments (image [crossing]) = [crossing] ∧ crossing.check (image [crossing]) = .ok () := by
  decide +kernel

theorem reads_overlap : readHeader (image [segment, segment]) = .ok ⟨0x400000, 64, 56, 2⟩ ∧
    readProgramHeader (image [segment, segment]) 64 = .ok segment ∧
    readProgramHeader (image [segment, segment]) 120 = .ok segment ∧
    segment.check (image [segment, segment]) = .ok () ∧
    segment.pages = [.containingAddress 0x400000] := by
  decide +kernel

def emptySpace (frame : PhysFrame) : AddressSpace := ⟨frame, .empty 3, lower_empty⟩

theorem new_eq {ram : Ram W} {n : ℕ} (h : ram.free.card = n + 1) : ∃ frame next,
    new ram = (.ok (emptySpace frame), next) ∧ next.free.card = n := by
  unfold new
  generalize htake : ram.allocateFrame = out
  obtain ⟨frame, taken⟩ := out
  cases frame with
  | none =>
    rw [(Ram.allocateFrame_none htake).1] at h
    cases h
  | some frame =>
    have hval := congrArg Multiset.card (Ram.allocateFrame_some htake).1
    rw [Multiset.card_cons, Finset.card_val, Finset.card_val, h] at hval
    exact ⟨frame, taken.zero frame, rfl, (Nat.succ.inj hval).symm⟩

/-- With room for its pages, the stack and all tables, an image without overlap becomes a process. -/
theorem fromElf_ok {data : List UInt8} {header : Header} (hheader : readHeader data = .ok header)
    (hcanonical : canonical header.eEntry = true) {ram opened : Ram W} {frame : PhysFrame}
    (hnew : new ram = (.ok (emptySpace frame), opened))
    (hchecks : ∀ phdr ∈ segments data, phdr.check data = .ok ())
    (hapart : ((segments data).flatMap ProgramHeader.pages ++ stackPages).Nodup)
    (hneeds : (emptySpace frame).needs ((segments data).flatMap ProgramHeader.pages ++ stackPages) ≤
      opened.free.card) :
    ∃ space loaded heap ram', load data (emptySpace frame) opened = (.ok header.eEntry, space, loaded) ∧
      Loads data (segments data) (emptySpace frame) opened space loaded ∧
      mapPages false stackFlags stackPages space loaded = (.ok (), heap.space, ram') ∧
      fromElf data ram = some (.ok (heap, header.eEntry), ram') := by
  obtain ⟨hpages, hstack, hdisjoint⟩ := List.nodup_append.mp hapart
  have hloadable : Loadable data (segments data) (emptySpace frame) opened :=
    ⟨hchecks, hpages, fun _ _ ↦ Trie.entry_empty,
      ((emptySpace frame).needs_le_append _ _).trans hneeds⟩
  obtain ⟨space, loaded, hload, hloads⟩ := load_ok hheader hcanonical hloadable
  generalize hmaps : mapPages false stackFlags stackPages space loaded = out
  obtain ⟨result, space', ram'⟩ := out
  have hcount := hloads.needs stackPages
  have hok := (mapPages_isOk hstack (fun page hp ↦ entry_eq_none.mp
    (hloads.entry_eq_none Trie.entry_empty fun hin ↦ hdisjoint page hin page hp rfl)) hmaps).mpr
      (by omega)
  cases result with
  | error e => cases hok
  | ok _ =>
    refine ⟨space, loaded, ⟨space', userHeapStart⟩, ram', hload, hloads, hmaps, ?_⟩
    rw [fromElf, hnew]
    simp only [hload, processNew, hmaps]

theorem fromElf_plain {ram : Ram W} {n : ℕ} (h : ram.free.card = n + 8) :
    ∃ frame opened heap ram', new ram = (.ok (emptySpace frame), opened) ∧
      load (image []) (emptySpace frame) opened = (.ok 0x400000, emptySpace frame, opened) ∧
      mapPages false stackFlags stackPages (emptySpace frame) opened =
        (.ok (), heap.space, ram') ∧
      fromElf (image []) ram = some (.ok (heap, 0x400000), ram') ∧ ram'.free.card = n := by
  obtain ⟨frame, opened, hnew, hcard⟩ := new_eq h
  have hneeds : (emptySpace frame).needs stackPages = 7 :=
    (rfl : _ = (emptySpace ⟨0⟩).needs stackPages).trans (by decide +kernel)
  obtain ⟨hheader, hsegments, -⟩ := reads_image
  obtain ⟨space, loaded, heap, ram', hload, hloads, hmaps, hcreated⟩ :=
    fromElf_ok hheader (by decide) hnew (by simp [hsegments])
      (by rw [hsegments]; decide +kernel) (by rw [hsegments, List.flatMap_nil, List.nil_append]; omega)
  rw [hsegments] at hloads
  cases hloads
  have hused : (emptySpace frame).needs (stackPages ++ []) + ram'.free.card =
      heap.space.needs [] + opened.free.card := mapPages_needs hmaps
  rw [List.append_nil, hneeds, hcard] at hused
  exact ⟨frame, opened, heap, ram', hnew, hload, hmaps, hcreated, Nat.add_left_cancel
    (hused.trans ((Nat.zero_add _).trans (Nat.add_comm n 7)))⟩

theorem framesFrom_eq (n : ℕ) : framesFrom n =
    ⟨(Custody.start [⟨0x1000, n * 0x1000, true⟩]).allocator, fun _ _ ↦ 0⟩ := rfl

theorem framesFrom_ordered (n : ℕ) : Ordered (framesFrom n) 0 :=
  vacant_ordered (BitmapFrameAllocator.free_subset_pool_populate
    (by rw [BitmapFrameAllocator.free_new]; exact Finset.empty_subset _)) _

/-- A process is created from an image without segments and torn down again. -/
theorem conserves_plain : ∃ t : Tenancy bitmapWords,
    run next ⟨framesFrom 16, []⟩ [.create (image []), .drop 0] = some t ∧ t.heaps = [] ∧
      (t.ram.free = (framesFrom 16).free ↔
        ∀ site ∈ runSites ⟨framesFrom 16, []⟩ [.create (image []), .drop 0],
          Fits site.page site.space site.ram) := by
  obtain ⟨_, _, heap, ram', -, -, -, hcreated, -⟩ :=
    fromElf_plain (n := 8) (card_framesFrom (n := 16) (by decide))
  have hnext : next ⟨framesFrom 16, []⟩ (.create (image [])) = some ⟨ram', [heap]⟩ := by
    rw [next, hcreated]
  have hspends := next_spends (framesFrom_ordered 16) hnext
  obtain ⟨last, hlast⟩ := drop_isSome (hspends.ordered (framesFrom_ordered 16)) (k := 0) Nat.one_pos
  have hrun : run next ⟨framesFrom 16, []⟩ [.create (image []), .drop 0] =
      some ⟨last, []⟩ := by
    rw [run, hnext, Option.bind_some, run, hlast]
    rfl
  refine ⟨_, hrun, rfl, ?_⟩
  rw [framesFrom_eq] at hrun ⊢
  exact (conserves _ _ .refl _ _ _ hrun).1 rfl

theorem loadSegment_twice {space : AddressSpace} {ram : Ram W}
    (hmapped : (space.translatePage (.containingAddress 0x400000)).isSome) (hfree : ram.free ≠ ∅) :
    (∃ e, (loadSegment segment (image [segment, segment]) space ram).1 = .error (.error e)) ∧
      ∃ site ∈ segmentSites segment (image [segment, segment]) space ram,
        ¬ Fits site.page site.space site.ram := by
  have hunfit : ¬ (space.translatePage (.containingAddress 0x400000) = none ∧
      space.missingTables (.containingAddress 0x400000) + 1 ≤ ram.free.card) := by
    rintro ⟨hnone, -⟩
    rw [hnone] at hmapped
    cases hmapped
  obtain ⟨-, -, -, hcheck, hpages⟩ := reads_overlap
  constructor
  · rw [loadSegment, hcheck, hpages]
    simp only [mapPages]
    generalize hmap : mapFresh true segment.flags (.containingAddress 0x400000) space ram = out
    obtain ⟨result, space', ram'⟩ := out
    cases result with
    | ok _ => exact absurd ((mapFresh_maps hmap).isOk.mp rfl) hunfit
    | error e => exact ⟨elfErrorFrom e, rfl⟩
  · refine ⟨⟨true, segment.flags, .containingAddress 0x400000, space, ram⟩, ?_, ?_⟩
    · rw [segmentSites, hcheck, hpages]
      exact List.mem_cons_self
    · rintro (hempty | hroom)
      · exact hfree hempty
      · exact hunfit hroom

theorem load_overlap {space space' : AddressSpace} {ram ram' : Ram W} {e : ElfError}
    (hfirst : loadSegment segment (image [segment, segment]) space ram = (.ok (), space', ram'))
    (hsecond : (loadSegment segment (image [segment, segment]) space' ram').1 = .error (.error e)) :
    (load (image [segment, segment]) space ram).1 = .error (.error e) ∧
      segmentSites segment (image [segment, segment]) space' ram' ⊆
        loadSites (image [segment, segment]) space ram := by
  obtain ⟨hheader, hread₀, hread₁, -⟩ := reads_overlap
  have hloads : segment.loads = true := by decide
  have hrange : List.range 2 = [0, 1] := by decide
  have hzero : (⟨0x400000, 64, 56, 2⟩ : Header).base 0 = 64 := by decide
  have hone : (⟨0x400000, 64, 56, 2⟩ : Header).base 1 = 120 := by decide
  constructor
  · simp only [load, hheader, hrange, loadSegments, hzero, hone, hread₀, hread₁, hloads, if_true,
      hfirst]
    generalize loadSegment segment (image [segment, segment]) space' ram' = out at hsecond ⊢
    obtain ⟨result, space'', ram''⟩ := out
    cases hsecond
    rfl
  · simp only [loadSites, hheader, hrange, segmentsSites, hzero, hone, hread₀, hread₁, hloads,
      if_true, hfirst]
    intro site hsite
    exact List.mem_append_right _ (List.mem_append_left _ hsite)

/-- With plenty of memory, an image of which two segments share a page: the load fails, the process
is torn down, and the frame taken for the second segment is gone. -/
theorem overlap_loses_frame : ∃ t : Tenancy bitmapWords,
    run next ⟨framesFrom 16, []⟩ [.create (image [segment, segment])] = some t ∧
      t.heaps = [] ∧ t.ram.free ≠ (framesFrom 16).free := by
  obtain ⟨frame, opened, hnew, hcard⟩ := new_eq (card_framesFrom (n := 16) (by decide))
  obtain ⟨-, -, -, hcheck, hpages⟩ := reads_overlap
  have hneeds : (emptySpace frame).needs segment.pages = 4 :=
    (rfl : _ = (emptySpace ⟨0⟩).needs segment.pages).trans (by decide +kernel)
  obtain ⟨space', ram', hfirst⟩ := loadSegment_ok hcheck (fun _ _ ↦ rfl)
    (show (emptySpace frame).needs segment.pages ≤ opened.free.card by omega)
  have hone := (loadSegment_cases (by decide) hfirst).2 rfl
  have hmapped : (space'.translatePage (.containingAddress 0x400000)).isSome := by
    rw [Option.isSome_iff_ne_none, ne_eq, ← entry_eq_none, hone.entry_eq_none, hpages]
    simp
  have hfree : ram'.free ≠ ∅ := by
    intro hempty
    have hcard' := hone.needs []
    rw [List.append_nil, hneeds, hempty, hcard] at hcard'
    cases hcard'
  obtain ⟨⟨e, he⟩, site, hsite, hunfit⟩ := loadSegment_twice hmapped hfree
  obtain ⟨hload, hsites⟩ := load_overlap hfirst he
  obtain ⟨-, space'', next'', hnew', hpanic⟩ | ⟨result, last, heq, hspends⟩ :=
    fromElf_cases (framesFrom_ordered 16) (image [segment, segment])
  · rw [hnew] at hnew'
    cases hnew'
    rw [hload] at hpanic
    cases hpanic
  · have hresult : ∃ text, result = .error text := by
      rw [fromElf, hnew] at heq
      simp only at heq
      generalize load (image [segment, segment]) _ opened = out at heq hload
      obtain ⟨outcome, space'', ram''⟩ := out
      cases hload
      obtain ⟨torn, -, hpair⟩ := Option.map_eq_some_iff.mp heq
      cases hpair
      exact ⟨_, rfl⟩
    obtain ⟨text, rfl⟩ := hresult
    refine ⟨⟨last, []⟩, ?_, rfl, fun hsame ↦ ?_⟩
    · rw [run, next, heq]
      rfl
    · obtain ⟨lost, hlost, hfits⟩ := hspends.lost
      rw [createdFrames, add_zero, add_zero, ← hsame] at hlost
      refine hunfit (hfits.mp (right_eq_add.mp hlost) site ?_)
      rw [creationSites, hnew]
      exact List.mem_append_left _ (hsites hsite)

end Tenancy

end Tarnos.Memory
