import Tarnos.Foundation.Transition
import Tarnos.Kcore.Bitmap

namespace Tarnos.Memory

open Kcore Foundation.Transition Bitmap

variable {W : ℕ}

def frameSize : ℕ := 4096

def maxTrackedBytes : ℕ := 16 * 1024 * 1024 * 1024

def maxTrackedFrames : ℕ := maxTrackedBytes / frameSize

def bitmapWords : ℕ := maxTrackedFrames / 64

def heapSize : ℕ := 8 * 1024 * 1024

/-- An entry of the boot loader's memory map. -/
structure Entry where
  base : ℕ
  length : ℕ
  usable : Bool
  deriving DecidableEq, Repr

@[ext]
structure PhysFrame where
  index : ℕ
  deriving DecidableEq, Repr

def PhysFrame.startAddress (frame : PhysFrame) : ℕ := frame.index * frameSize

def PhysFrame.containingAddress (address : ℕ) : PhysFrame := ⟨address / frameSize⟩

/-- `usable` never changes after `populate`; it tells an allocated frame from one that was never
the allocator's. -/
structure BitmapFrameAllocator (W : ℕ) where
  bitmap : Bitmap W
  usable : Bitmap W

namespace BitmapFrameAllocator

def new : BitmapFrameAllocator W := ⟨.new, .new⟩

section

variable (a : BitmapFrameAllocator W)

def addFrame (index : ℕ) : BitmapFrameAllocator W :=
  ⟨a.bitmap.setFree index, a.usable.setFree index⟩

def addEntry (entry : Entry) : BitmapFrameAllocator W :=
  if entry.usable then
    let range := usableFrameRange entry.base entry.length frameSize
    (List.range' range.1 (range.2 - range.1)).foldl addFrame a
  else a

def populate (entries : List Entry) : BitmapFrameAllocator W :=
  entries.foldl addEntry a

def allocateFrame : Option PhysFrame × BitmapFrameAllocator W :=
  match a.bitmap.allocate with
  | (some index, bitmap) => (some (.containingAddress (index * frameSize)), { a with bitmap := bitmap })
  | (none, bitmap) => (none, { a with bitmap := bitmap })

/-- `none` is a failed assertion: the frame was never part of the pool, or is free already. -/
def deallocateFrame (frame : PhysFrame) : Option (BitmapFrameAllocator W) :=
  let index := frame.startAddress / frameSize
  if a.usable.isFree index && !a.bitmap.isFree index then
    some { a with bitmap := a.bitmap.setFree index }
  else none

def freeFrameCount : ℕ := a.bitmap.freeCount

def free : Finset PhysFrame :=
  a.bitmap.free.map ⟨PhysFrame.mk, fun _ _ h ↦ congrArg PhysFrame.index h⟩

def pool : Finset PhysFrame :=
  a.usable.free.map ⟨PhysFrame.mk, fun _ _ h ↦ congrArg PhysFrame.index h⟩

end

variable {a a' : BitmapFrameAllocator W} {frame : PhysFrame}

theorem mem_free : frame ∈ a.free ↔ a.bitmap.isFree frame.index = true := by
  rw [free, Finset.mem_map, ← Bitmap.mem_free]
  exact ⟨fun ⟨i, hi, heq⟩ ↦ heq ▸ hi, fun h ↦ ⟨frame.index, h, rfl⟩⟩

theorem mem_pool : frame ∈ a.pool ↔ a.usable.isFree frame.index = true := by
  rw [pool, Finset.mem_map, ← Bitmap.mem_free]
  exact ⟨fun ⟨i, hi, heq⟩ ↦ heq ▸ hi, fun h ↦ ⟨frame.index, h, rfl⟩⟩

theorem containingAddress_start (index : ℕ) :
    PhysFrame.containingAddress (index * frameSize) = ⟨index⟩ := by
  rw [PhysFrame.containingAddress, Nat.mul_div_cancel _ (by decide)]

theorem startAddress_div (frame : PhysFrame) : frame.startAddress / frameSize = frame.index :=
  Nat.mul_div_cancel _ (by decide)

theorem allocateFrame_eq_none : a.allocateFrame.1 = none ↔ a.free = ∅ := by
  rw [free, Finset.map_eq_empty, ← allocate_eq_none, allocateFrame]
  split
  · rename_i index bitmap h
    simp [h]
  · rename_i bitmap h
    simp [h]

theorem allocateFrame_unchanged (h : a.allocateFrame = (none, a')) : a' = a := by
  unfold allocateFrame at h
  split at h
  · cases h
  · rename_i bitmap hnone
    cases h
    rw [allocate_unchanged hnone]

theorem allocateFrame_eq_some (h : a.allocateFrame = (some frame, a')) :
    frame ∈ a.free ∧ a'.free = a.free.erase frame ∧ a'.pool = a.pool := by
  unfold allocateFrame at h
  split at h
  · rename_i index bitmap hsome
    cases h
    obtain ⟨hmem, -, herase⟩ := allocate_eq_some hsome
    rw [containingAddress_start]
    refine ⟨Finset.mem_map_of_mem _ hmem, ?_, rfl⟩
    rw [free, herase, Finset.map_erase]
    rfl
  · cases h

theorem deallocateFrame_eq_some : (∃ a', a.deallocateFrame frame = some a') ↔
    frame ∈ a.pool ∧ frame ∉ a.free := by
  rw [mem_pool, mem_free, deallocateFrame, startAddress_div]
  cases a.usable.isFree frame.index <;> cases a.bitmap.isFree frame.index <;> simp

theorem free_deallocateFrame (h : a.deallocateFrame frame = some a') :
    a'.free = insert frame a.free ∧ a'.pool = a.pool := by
  unfold deallocateFrame at h
  rw [startAddress_div] at h
  dsimp only at h
  split at h
  · rename_i hcheck
    cases h
    have hlt : frame.index < W * 64 :=
      lt_of_isFree (Bool.and_eq_true_iff.mp hcheck).1
    refine ⟨?_, rfl⟩
    rw [free, free_setFree hlt, Finset.map_insert]
    rfl
  · cases h

theorem freeFrameCount_eq (a : BitmapFrameAllocator W) : a.freeFrameCount = a.free.card := by
  rw [freeFrameCount, freeCount_eq, free, Finset.card_map]

end BitmapFrameAllocator

/-- The whole frame lies inside the entry, and the entry is usable memory. -/
def Entry.Covers (entry : Entry) (frame : PhysFrame) : Prop :=
  entry.usable = true ∧ entry.base ≤ frame.startAddress ∧
    frame.startAddress + frameSize ≤ entry.base + entry.length

instance (entry : Entry) (frame : PhysFrame) : Decidable (entry.Covers frame) :=
  inferInstanceAs (Decidable (_ ∧ _))

/-- The usable frames of a memory map that `W` words have a bit for. -/
def tracked (W : ℕ) (entries : List Entry) : Finset PhysFrame :=
  ((Finset.range (W * 64)).map ⟨PhysFrame.mk, fun _ _ h ↦ congrArg PhysFrame.index h⟩).filter
    fun frame ↦ ∃ entry ∈ entries, entry.Covers frame

theorem mem_tracked {entries : List Entry} {frame : PhysFrame} :
    frame ∈ tracked W entries ↔ frame.index < W * 64 ∧ ∃ entry ∈ entries, entry.Covers frame := by
  rw [tracked, Finset.mem_filter, Finset.mem_map]
  refine and_congr_left fun _ ↦ ⟨?_, fun h ↦ ⟨frame.index, Finset.mem_range.mpr h, rfl⟩⟩
  rintro ⟨i, hi, rfl⟩
  exact Finset.mem_range.mp hi

namespace BitmapFrameAllocator

variable {a : BitmapFrameAllocator W} {frame : PhysFrame} {entry : Entry} {entries : List Entry}

theorem isFree_addFrames (indices : List ℕ) (b : Bitmap W) (j : ℕ) :
    (indices.foldl setFree b).isFree j = true ↔
      b.isFree j = true ∨ j ∈ indices ∧ j < W * 64 := by
  induction indices generalizing b with
  | nil => simp
  | cons i indices ih =>
    rw [List.foldl_cons, ih, isFree_setFree, List.mem_cons]
    constructor
    · rintro ((hj | ⟨rfl, hi⟩) | ⟨hj, hlt⟩)
      · exact .inl hj
      · exact .inr ⟨.inl rfl, hi⟩
      · exact .inr ⟨.inr hj, hlt⟩
    · rintro (hj | ⟨rfl | hj, hlt⟩)
      · exact .inl (.inl hj)
      · exact .inl (.inr ⟨rfl, hlt⟩)
      · exact .inr ⟨hj, hlt⟩

theorem foldl_addFrame (indices : List ℕ) (a : BitmapFrameAllocator W) :
    indices.foldl addFrame a =
      ⟨indices.foldl setFree a.bitmap, indices.foldl setFree a.usable⟩ := by
  induction indices generalizing a with
  | nil => rfl
  | cons i indices ih => rw [List.foldl_cons, ih, addFrame, List.foldl_cons, List.foldl_cons]

theorem mem_usableFrameRange (hentry : entry.base + entry.length < 2 ^ 64) (i : ℕ) :
    i ∈ List.range' (usableFrameRange entry.base entry.length frameSize).1
        ((usableFrameRange entry.base entry.length frameSize).2 -
          (usableFrameRange entry.base entry.length frameSize).1) ↔
      entry.base ≤ i * frameSize ∧ i * frameSize + frameSize ≤ entry.base + entry.length := by
  rw [List.mem_range'_1]
  simp only [usableFrameRange, frameSize, Nat.mod_eq_of_lt hentry]
  omega

theorem free_addEntry (hentry : entry.usable = true → entry.base + entry.length < 2 ^ 64)
    (frame : PhysFrame) :
    (frame ∈ (a.addEntry entry).free ↔
        frame ∈ a.free ∨ frame.index < W * 64 ∧ entry.Covers frame) ∧
      (frame ∈ (a.addEntry entry).pool ↔
        frame ∈ a.pool ∨ frame.index < W * 64 ∧ entry.Covers frame) := by
  rw [mem_free, mem_free, mem_pool, mem_pool, Entry.Covers, PhysFrame.startAddress, addEntry]
  by_cases husable : entry.usable = true
  · simp only [husable, if_true, foldl_addFrame, isFree_addFrames,
      mem_usableFrameRange (hentry husable), true_and]
    exact ⟨or_congr_right and_comm, or_congr_right and_comm⟩
  · simp [husable]

theorem free_populate
    (hentries : ∀ entry ∈ entries, entry.usable = true → entry.base + entry.length < 2 ^ 64)
    (frame : PhysFrame) :
    (frame ∈ (a.populate entries).free ↔ frame ∈ a.free ∨ frame ∈ tracked W entries) ∧
      (frame ∈ (a.populate entries).pool ↔ frame ∈ a.pool ∨ frame ∈ tracked W entries) := by
  induction entries generalizing a with
  | nil => simp [populate, mem_tracked]
  | cons entry entries ih =>
    have hrest := ih (a := a.addEntry entry) fun e he ↦ hentries e (List.mem_cons_of_mem _ he)
    have hfirst := free_addEntry (a := a) (hentries entry List.mem_cons_self) frame
    have hcons : frame ∈ tracked W (entry :: entries) ↔
        (frame.index < W * 64 ∧ entry.Covers frame) ∨ frame ∈ tracked W entries := by
      rw [mem_tracked, mem_tracked, ← and_or_left]
      simp
    rw [hcons, ← or_assoc, ← or_assoc, ← hfirst.1, ← hfirst.2]
    exact hrest

theorem free_subset_pool_populate (h : a.free ⊆ a.pool) :
    (a.populate entries).free ⊆ (a.populate entries).pool := by
  induction entries generalizing a with
  | nil => exact h
  | cons entry entries ih =>
    apply ih
    intro frame
    rw [addEntry]
    split
    · simp only [foldl_addFrame, mem_free, mem_pool, isFree_addFrames]
      exact Or.imp_left fun hmem ↦ mem_pool.mp (h (mem_free.mpr hmem))
    · exact fun hmem ↦ h hmem

theorem free_new : (new : BitmapFrameAllocator W).free = ∅ := by
  rw [free, new, Bitmap.free_new, Finset.map_empty]

theorem pool_new : (new : BitmapFrameAllocator W).pool = ∅ := by
  rw [pool, new, Bitmap.free_new, Finset.map_empty]

theorem free_populate_new
    (hentries : ∀ entry ∈ entries, entry.usable = true → entry.base + entry.length < 2 ^ 64) :
    ((new : BitmapFrameAllocator W).populate entries).free = tracked W entries ∧
      ((new : BitmapFrameAllocator W).populate entries).pool = tracked W entries := by
  have hmem := fun frame ↦ free_populate (a := (new : BitmapFrameAllocator W)) hentries frame
  refine ⟨?_, ?_⟩
  · ext frame
    rw [(hmem frame).1, free_new]
    simp
  · ext frame
    rw [(hmem frame).2, pool_new]
    simp

end BitmapFrameAllocator

/-- An allocator and the frames it has handed out and not got back. -/
structure Custody (W : ℕ) where
  allocator : BitmapFrameAllocator W
  held : Finset PhysFrame

inductive Custody.Op
  | allocate
  | deallocate (frame : PhysFrame)
  deriving DecidableEq, Repr

namespace Custody

def start (entries : List Entry) : Custody W := ⟨BitmapFrameAllocator.new.populate entries, ∅⟩

def next (s : Custody W) : Op → Option (Custody W)
  | .allocate =>
    match s.allocator.allocateFrame with
    | (some frame, allocator) => some ⟨allocator, insert frame s.held⟩
    | (none, allocator) => some ⟨allocator, s.held⟩
  | .deallocate frame =>
    (s.allocator.deallocateFrame frame).map fun allocator ↦ ⟨allocator, s.held.erase frame⟩

def Returns (s : Custody W) : Op → Prop
  | .allocate => True
  | .deallocate frame => frame ∈ s.held

/-- Free and held frames are exactly the usable tracked ones. -/
structure Accounted (entries : List Entry) (s : Custody W) : Prop where
  union : s.allocator.free ∪ s.held = tracked W entries
  disjoint : Disjoint s.allocator.free s.held
  pool : s.allocator.pool = tracked W entries

variable {s s' : Custody W} {op : Op} {entries : List Entry} {frame : PhysFrame}

theorem Accounted.start (hentries : ∀ entry ∈ entries, entry.base + entry.length < 2 ^ 64) :
    Accounted entries (start entries : Custody W) := by
  obtain ⟨hfree, hpool⟩ := BitmapFrameAllocator.free_populate_new (W := W)
    fun entry he _ ↦ hentries entry he
  refine ⟨?_, Finset.disjoint_empty_right _, hpool⟩
  rw [Custody.start, Finset.union_empty]
  exact hfree

theorem Accounted.next (h : Accounted entries s) (hop : s.Returns op) (hs : s.next op = some s') :
    Accounted entries s' := by
  cases op with
  | allocate =>
    rw [next] at hs
    split at hs
    · rename_i frame allocator halloc
      cases hs
      obtain ⟨hmem, hfree, hpool⟩ := BitmapFrameAllocator.allocateFrame_eq_some halloc
      refine ⟨?_, ?_, hpool.trans h.pool⟩
      · rw [← h.union, hfree, Finset.union_insert, ← Finset.insert_union, Finset.insert_erase hmem]
      · rw [hfree, Finset.disjoint_insert_right]
        exact ⟨Finset.notMem_erase _ _, h.disjoint.mono_left (Finset.erase_subset _ _)⟩
    · rename_i allocator halloc
      cases hs
      rw [BitmapFrameAllocator.allocateFrame_unchanged halloc]
      exact h
  | deallocate frame =>
    obtain ⟨allocator, hdealloc, rfl⟩ := Option.map_eq_some_iff.mp hs
    obtain ⟨hfree, hpool⟩ := BitmapFrameAllocator.free_deallocateFrame hdealloc
    have hnot : frame ∉ s.allocator.free := fun hmem ↦ Finset.disjoint_left.mp h.disjoint hmem hop
    refine ⟨?_, ?_, hpool.trans h.pool⟩
    · rw [← h.union, hfree, Finset.insert_union, ← Finset.union_insert, Finset.insert_erase hop]
    · rw [hfree, Finset.disjoint_insert_left]
      exact ⟨Finset.notMem_erase _ _, h.disjoint.mono_right (Finset.erase_subset _ _)⟩

theorem free_subset_pool (h : Reach next Custody.Returns (start entries) s) :
    s.allocator.free ⊆ s.allocator.pool := by
  refine h.invariant (I := fun t : Custody W ↦ t.allocator.free ⊆ t.allocator.pool) ?_ ?_
  · exact BitmapFrameAllocator.free_subset_pool_populate (by rw [BitmapFrameAllocator.free_new]; simp)
  · intro t op u ht hop hs
    cases op with
    | allocate =>
      rw [next] at hs
      split at hs
      · rename_i frame allocator halloc
        cases hs
        obtain ⟨-, hfree, hpool⟩ := BitmapFrameAllocator.allocateFrame_eq_some halloc
        rw [hfree, hpool]
        exact (Finset.erase_subset _ _).trans ht
      · rename_i allocator halloc
        cases hs
        rw [BitmapFrameAllocator.allocateFrame_unchanged halloc]
        exact ht
    | deallocate frame =>
      obtain ⟨allocator, hdealloc, rfl⟩ := Option.map_eq_some_iff.mp hs
      obtain ⟨hfree, hpool⟩ := BitmapFrameAllocator.free_deallocateFrame hdealloc
      have hframe := (BitmapFrameAllocator.deallocateFrame_eq_some.mp ⟨_, hdealloc⟩).1
      rw [hfree, hpool]
      exact Finset.insert_subset hframe ht

/-- What the allocator promises about its next answers. -/
structure Safe (entries : List Entry) (s : Custody W) : Prop where
  accounted : Accounted entries s
  fresh : ∀ frame allocator, s.allocator.allocateFrame = (some frame, allocator) →
    frame ∉ s.held ∧ ∃ entry ∈ entries, entry.Covers frame
  exhausted : s.allocator.allocateFrame.1 = none ↔ s.held = tracked W entries
  accepts : ∀ frame ∈ s.held, (s.next (.deallocate frame)).isSome
  count : s.allocator.freeFrameCount = (tracked W entries).card - s.held.card

theorem Accounted.safe (h : Accounted entries s) : Safe entries s := by
  refine ⟨h, fun frame allocator halloc ↦ ?_, ?_, fun frame hframe ↦ ?_, ?_⟩
  · obtain ⟨hmem, -, -⟩ := BitmapFrameAllocator.allocateFrame_eq_some halloc
    refine ⟨Finset.disjoint_left.mp h.disjoint hmem, ?_⟩
    have htracked : frame ∈ tracked W entries := h.union ▸ Finset.mem_union_left _ hmem
    exact (mem_tracked.mp htracked).2
  · rw [BitmapFrameAllocator.allocateFrame_eq_none]
    constructor
    · intro hempty
      rw [← h.union, hempty, Finset.empty_union]
    · intro hall
      have hsub : s.allocator.free ⊆ s.held := by
        rw [hall, ← h.union]
        exact Finset.subset_union_left
      exact Finset.disjoint_self_iff_empty _ |>.mp (h.disjoint.mono_right hsub)
  · have hpool : frame ∈ s.allocator.pool := by
      rw [h.pool, ← h.union]
      exact Finset.mem_union_right _ hframe
    have hnot : frame ∉ s.allocator.free := fun hmem ↦ Finset.disjoint_left.mp h.disjoint hmem hframe
    obtain ⟨allocator, hdealloc⟩ := BitmapFrameAllocator.deallocateFrame_eq_some.mpr ⟨hpool, hnot⟩
    rw [Custody.next, hdealloc]
    rfl
  · rw [BitmapFrameAllocator.freeFrameCount_eq, ← h.union, Finset.card_union_of_disjoint h.disjoint,
      Nat.add_sub_cancel]

/-- Every memory map and every sequence of allocations and returns keep the allocator safe. -/
theorem safe_of_reach (entries : List Entry)
    (hentries : ∀ entry ∈ entries, entry.base + entry.length < 2 ^ 64) (s : Custody bitmapWords)
    (h : Reach next Custody.Returns (start entries) s) : Safe entries s := by
  have haccounted : Accounted entries s := h.invariant (I := fun t ↦ Accounted entries t)
    (Accounted.start hentries) fun t op u ht hop hs ↦ ht.next hop hs
  exact haccounted.safe

/-- A map with two usable frames in an unaligned entry that another, unusable one overlaps. -/
def smallMap : List Entry := [⟨0x1800, 0x3000, true⟩, ⟨0, 2 ^ 63, false⟩]

theorem safe_of_reach_smallMap :
    ∃ s : Custody bitmapWords, (start smallMap).next .allocate = some s ∧
      Safe smallMap s := by
  obtain ⟨s, hs⟩ : ∃ s, (start smallMap : Custody bitmapWords).next .allocate = some s := by
    rw [next]
    split
    · exact ⟨_, rfl⟩
    · exact ⟨_, rfl⟩
  exact ⟨s, hs, safe_of_reach smallMap (by decide) s (Reach.one (by trivial) hs)⟩

end Custody

end Tarnos.Memory
