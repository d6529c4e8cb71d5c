import Tarnos.Memory.Phys

namespace Tarnos.Memory

open Kcore

variable {W : ℕ} {entry : Entry} {entries : List Entry}

/-- `usable_frame_range` as built with overflow checks: `none` is the panic of its addition. -/
def usableFrameRangeChecked (base length frameSize : ℕ) : Option (ℕ × ℕ) :=
  if base + length < 2 ^ 64 then some (usableFrameRange base length frameSize) else none

namespace BitmapFrameAllocator

variable {a : BitmapFrameAllocator W}

def addEntryChecked (a : BitmapFrameAllocator W) (entry : Entry) :
    Option (BitmapFrameAllocator W) :=
  if entry.usable then
    (usableFrameRangeChecked entry.base entry.length frameSize).map fun range ↦
      (List.range' range.1 (range.2 - range.1)).foldl addFrame a
  else some a

def populateChecked (a : BitmapFrameAllocator W) (entries : List Entry) :
    Option (BitmapFrameAllocator W) :=
  entries.foldlM addEntryChecked a

theorem addEntryChecked_eq_some
    (h : entry.usable = true → entry.base + entry.length < 2 ^ 64) :
    a.addEntryChecked entry = some (a.addEntry entry) := by
  unfold addEntryChecked addEntry
  split
  · rename_i husable
    rw [usableFrameRangeChecked, if_pos (h husable), Option.map_some]
  · rfl

theorem addEntryChecked_eq_none (husable : entry.usable = true)
    (h : 2 ^ 64 ≤ entry.base + entry.length) : a.addEntryChecked entry = none := by
  rw [addEntryChecked, if_pos husable, usableFrameRangeChecked, if_neg (Nat.not_lt.mpr h),
    Option.map_none]

theorem populateChecked_cons (a : BitmapFrameAllocator W) (entry : Entry) (entries : List Entry) :
    a.populateChecked (entry :: entries) =
      (a.addEntryChecked entry).bind fun b ↦ b.populateChecked entries := by
  rw [populateChecked, List.foldlM_cons]
  rfl

theorem populateChecked_eq_some
    (h : ∀ entry ∈ entries, entry.usable = true → entry.base + entry.length < 2 ^ 64) :
    a.populateChecked entries = some (a.populate entries) := by
  induction entries generalizing a with
  | nil => rfl
  | cons entry entries ih =>
    rw [populateChecked_cons, addEntryChecked_eq_some (h entry List.mem_cons_self),
      Option.bind_some, ih fun e he ↦ h e (List.mem_cons_of_mem _ he)]
    rfl

theorem lt_of_populateChecked {b : BitmapFrameAllocator W}
    (h : a.populateChecked entries = some b) :
    ∀ entry ∈ entries, entry.usable = true → entry.base + entry.length < 2 ^ 64 := by
  induction entries generalizing a with
  | nil => exact fun _ he ↦ absurd he List.not_mem_nil
  | cons first entries ih =>
    rw [populateChecked_cons] at h
    obtain ⟨c, hfirst, hrest⟩ := Option.bind_eq_some_iff.mp h
    intro entry he husable
    rcases List.mem_cons.mp he with rfl | he
    · by_contra hlarge
      rw [addEntryChecked_eq_none husable (Nat.not_lt.mp hlarge)] at hfirst
      cases hfirst
    · exact ih hrest entry he husable

end BitmapFrameAllocator

open BitmapFrameAllocator

/-- The memory map is taken over as it is: no addition panics where overflow is checked or wraps
where it is not, and what becomes free are the frames that lie inside a usable entry. -/
structure Seeded (W : ℕ) (entries : List Entry) : Prop where
  exact_sum : (new : BitmapFrameAllocator W).populateChecked entries = some (new.populate entries)
  free : ((new : BitmapFrameAllocator W).populate entries).free = tracked W entries
  pool : ((new : BitmapFrameAllocator W).populate entries).pool = tracked W entries

/-- For every memory map, seeding is exact if and only if no usable entry reaches the end of the
address space. -/
theorem seeded_iff (W : ℕ) (entries : List Entry) :
    Seeded W entries ↔
      ∀ entry ∈ entries, entry.usable = true → entry.base + entry.length < 2 ^ 64 := by
  constructor
  · intro h
    exact lt_of_populateChecked h.exact_sum
  · intro h
    obtain ⟨hfree, hpool⟩ := free_populate_new (W := W) h
    exact ⟨populateChecked_eq_some h, hfree, hpool⟩

def topEntry : Entry := ⟨0x1000, 2 ^ 64 - 0x1000, true⟩

/-- The sum of the entry's two fields is 2^64: a checked addition panics, a wrapped one is 0 and
leaves no frame free. -/
theorem topEntry_lost : topEntry.base < 2 ^ 64 ∧ topEntry.length < 2 ^ 64 ∧
    (new : BitmapFrameAllocator bitmapWords).populateChecked [topEntry] = none ∧
    PhysFrame.mk 1 ∈ tracked bitmapWords [topEntry] ∧
    PhysFrame.mk 1 ∉ ((new : BitmapFrameAllocator bitmapWords).populate [topEntry]).free := by
  refine ⟨by decide, by decide, rfl, ?_, ?_⟩
  · rw [mem_tracked]
    exact ⟨by decide, topEntry, List.mem_singleton_self _, by decide⟩
  · have hnone : (new : BitmapFrameAllocator bitmapWords).populate [topEntry] = new := rfl
    rw [hnone, free_new]
    exact Finset.notMem_empty _

end Tarnos.Memory
