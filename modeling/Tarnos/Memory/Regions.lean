import Tarnos.Driver.Pci
import Tarnos.Kernel.Boxes
import Tarnos.Memory.Phys

namespace Tarnos.Memory

open Driver Foundation Tarnos.Task

/-- The sizes the compiler gives the types of the guarded slots, each with room for its two guard
pages in the stride of its slot. -/
structure Layout where
  slots : ℕ
  readyQueue : ℕ
  current : ℕ
  process : ℕ
  slots_le : slots ≤ 14 * frameSize
  readyQueue_le : readyQueue ≤ 14 * frameSize
  current_le : current ≤ 14 * frameSize
  process_le : process ≤ 14 * frameSize

/-- Everything the kernel maps at a fixed place of its half. -/
inductive Region
  | heap
  | doubleFaultStack (core : CoreId)
  | lapic
  | idleStack (core : CoreId)
  | bar (index : Fin 6)
  | schedField (field : Fin 4)
  | trapFrame (slot : Fin maxProcesses)
  | processBox (slot : Fin Kernel.processSlotCount)
  | kernelStack (slot : Fin maxProcesses)
  deriving DecidableEq

def heapStart : ℕ := 0xffff_9000_0000_0000
def doubleFaultStackPages : ℕ := 5
def doubleFaultStackBase : ℕ := 0xffff_9400_0000_0000
def doubleFaultStackSlotStride : ℕ := 4096 * (1 + doubleFaultStackPages)
def lapicMmioVbase : ℕ := 0xffff_9500_0000_0000
def idleStackPages : ℕ := 4
def idleStackBase : ℕ := 0xffff_9600_0000_0000
def idleStackSlotStride : ℕ := 4096 * (1 + idleStackPages)
def schedStateBase : ℕ := 0xffff_9700_0000_0000
def schedFieldStride : ℕ := 0x1_0000
def trapFrameBase : ℕ := 0xffff_9750_0000_0000
def trapFrameStride : ℕ := 0x1_0000
def trapFrameSize : ℕ := 20 * 8
def processBoxBase : ℕ := 0xffff_9770_0000_0000
def processBoxStride : ℕ := 0x1_0000
def kernelStackPages : ℕ := 4
def kernelStacksBase : ℕ := 0xffff_9800_0000_0000
def kernelStackSlotStride : ℕ := 4096 * (1 + kernelStackPages)

/-- `size.div_ceil(4096).max(1)`. -/
def pageCount (size : ℕ) : ℕ := max ((size + 4095) / 4096) 1

variable {count stride base : ℕ}

namespace Region

def slotBase : Region → ℕ
  | heap => heapStart
  | doubleFaultStack core => doubleFaultStackBase + core * doubleFaultStackSlotStride
  | lapic => lapicMmioVbase
  | idleStack core => idleStackBase + core * idleStackSlotStride
  | bar index => mmioVbase + index * barVstride
  | schedField field => schedStateBase + field * schedFieldStride
  | trapFrame slot => trapFrameBase + slot * trapFrameStride
  | processBox slot => processBoxBase + slot * processBoxStride
  | kernelStack slot => kernelStacksBase + slot * kernelStackSlotStride

/-- The types of the four fields of `Inner`, in the order of their slots. -/
def fieldSize (layout : Layout) (field : Fin 4) : ℕ :=
  ![layout.slots, 4 * maxProcesses, layout.readyQueue, layout.current] field

/-- How many pages are mapped. A BAR is mapped only if some capability needs bytes of it. -/
def mappedPages (layout : Layout) (barMinSize : Fin 6 → UInt32) : Region → ℕ
  | heap => heapSize / 4096
  | doubleFaultStack _ => doubleFaultStackPages
  | lapic => 1
  | idleStack _ => idleStackPages
  | bar index => if 0 < barMinSize index then pageCount (barMinSize index).toNat else 0
  | schedField field => pageCount (fieldSize layout field)
  | trapFrame _ => pageCount trapFrameSize
  | processBox _ => pageCount layout.process
  | kernelStack _ => kernelStackPages

def guardsBelow : Region → ℕ
  | heap | lapic | bar _ => 0
  | _ => 1

def guardsAbove : Region → ℕ
  | schedField _ | trapFrame _ | processBox _ => 1
  | _ => 0

variable (layout : Layout) (barMinSize : Fin 6 → UInt32)

def pagesFrom (base first count : ℕ) : List ℕ :=
  (List.range count).map fun i ↦ base + (first + i) * 4096

def mapped (r : Region) : List ℕ :=
  pagesFrom r.slotBase r.guardsBelow (r.mappedPages layout barMinSize)

def guards (r : Region) : List ℕ :=
  pagesFrom r.slotBase 0 r.guardsBelow ++
    pagesFrom r.slotBase (r.guardsBelow + r.mappedPages layout barMinSize) r.guardsAbove

def span (r : Region) : ℕ := r.guardsBelow + r.mappedPages layout barMinSize + r.guardsAbove

variable {layout} {barMinSize} {r r' : Region} {page : ℕ}

theorem mem_pagesFrom {first : ℕ} :
    page ∈ pagesFrom base first count ↔
      ∃ i, first ≤ i ∧ i < first + count ∧ page = base + i * 4096 := by
  unfold pagesFrom
  rw [List.mem_map]
  constructor
  · rintro ⟨i, hi, rfl⟩
    have hlt := List.mem_range.mp hi
    exact ⟨first + i, Nat.le_add_right _ _, by omega, rfl⟩
  · rintro ⟨i, hle, hlt, rfl⟩
    refine ⟨i - first, List.mem_range.mpr (by omega), ?_⟩
    rw [Nat.add_sub_cancel' hle]

theorem mem_pages : page ∈ r.mapped layout barMinSize ++ r.guards layout barMinSize ↔
    ∃ i < r.span layout barMinSize, page = r.slotBase + i * 4096 := by
  unfold mapped guards span
  rw [List.mem_append, List.mem_append, mem_pagesFrom, mem_pagesFrom, mem_pagesFrom]
  constructor
  · rintro (⟨i, -, hlt, rfl⟩ | ⟨i, -, hlt, rfl⟩ | ⟨i, -, hlt, rfl⟩)
    · exact ⟨i, by omega, rfl⟩
    · exact ⟨i, by omega, rfl⟩
    · exact ⟨i, by omega, rfl⟩
  · rintro ⟨i, hlt, rfl⟩
    by_cases hbelow : i < r.guardsBelow
    · exact .inr (.inl ⟨i, Nat.zero_le _, by omega, rfl⟩)
    · by_cases habove : i < r.guardsBelow + r.mappedPages layout barMinSize
      · exact .inl ⟨i, by omega, habove, rfl⟩
      · exact .inr (.inr ⟨i, by omega, by omega, rfl⟩)

variable (layout barMinSize) in
def limit (r : Region) : ℕ := r.slotBase + r.span layout barMinSize * 4096

theorem not_mem_of_limit_le (h : r.limit layout barMinSize ≤ r'.slotBase)
    (hpage : page ∈ r.mapped layout barMinSize ++ r.guards layout barMinSize) :
    page ∉ r'.mapped layout barMinSize ++ r'.guards layout barMinSize := by
  rw [mem_pages] at hpage ⊢
  unfold limit at h
  obtain ⟨i, hi, rfl⟩ := hpage
  rintro ⟨j, -, heq⟩
  omega

/-- The part of the kernel half a region belongs to. BAR windows and idle stacks share one. -/
def zone : Region → ℕ
  | heap => 0
  | doubleFaultStack _ => 1
  | lapic => 2
  | idleStack _ | bar _ => 3
  | schedField _ => 4
  | trapFrame _ => 5
  | processBox _ => 6
  | kernelStack _ => 7

def zoneBase (zone : ℕ) : ℕ :=
  [heapStart, doubleFaultStackBase, lapicMmioVbase, idleStackBase, schedStateBase, trapFrameBase,
    processBoxBase, kernelStacksBase].getD zone 0xffff_9900_0000_0000

theorem pageCount_le {size : ℕ} (h : size ≤ count * frameSize) (hcount : 1 ≤ count) :
    pageCount size ≤ count := by
  unfold pageCount
  unfold frameSize at h
  omega

theorem fieldSize_le (layout : Layout) (field : Fin 4) : fieldSize layout field ≤ 14 * frameSize := by
  match field with
  | 0 => exact layout.slots_le
  | 1 => exact (by decide : 4 * maxProcesses ≤ 14 * frameSize)
  | 2 => exact layout.readyQueue_le
  | 3 => exact layout.current_le

theorem barPages_le (size : UInt32) : pageCount size.toNat ≤ 2 ^ 20 :=
  pageCount_le (by have := size.toNat_lt; unfold frameSize; omega) (by decide)

theorem zoneBase_le (r : Region) : zoneBase r.zone ≤ r.slotBase := by
  cases r <;> simp only [zone, zoneBase, slotBase, List.getD_cons_zero, List.getD_cons_succ,
    idleStackBase, mmioVbase] <;> omega

theorem slot_limit_le {pages next : ℕ} (i : Fin count) (hpages : pages * 4096 ≤ stride)
    (hnext : base + count * stride ≤ next) : base + i * stride + pages * 4096 ≤ next := by
  have hi : ((i : ℕ) + 1) * stride ≤ count * stride := Nat.mul_le_mul_right _ i.isLt
  rw [Nat.succ_mul] at hi
  omega

variable (layout barMinSize) in
theorem span_le : (∀ core, (doubleFaultStack core).span layout barMinSize * 4096 ≤
      doubleFaultStackSlotStride) ∧
    (∀ core, (idleStack core).span layout barMinSize * 4096 ≤ idleStackSlotStride) ∧
    (∀ field, (schedField field).span layout barMinSize * 4096 ≤ schedFieldStride) ∧
    (∀ slot, (trapFrame slot).span layout barMinSize * 4096 ≤ trapFrameStride) ∧
    (∀ slot, (processBox slot).span layout barMinSize * 4096 ≤ processBoxStride) ∧
    ∀ slot, (kernelStack slot).span layout barMinSize * 4096 ≤ kernelStackSlotStride := by
  have hfault : (1 + doubleFaultStackPages + 0) * 4096 ≤ doubleFaultStackSlotStride := by decide
  have hidle : (1 + idleStackPages + 0) * 4096 ≤ idleStackSlotStride := by decide
  have hframe : (1 + pageCount trapFrameSize + 1) * 4096 ≤ trapFrameStride := by decide
  have hstack : (1 + kernelStackPages + 0) * 4096 ≤ kernelStackSlotStride := by decide
  refine ⟨fun _ ↦ hfault, fun _ ↦ hidle, fun field ↦ ?_, fun _ ↦ hframe, fun _ ↦ ?_, fun _ ↦ hstack⟩
  · have hpages := pageCount_le (fieldSize_le layout field) (by decide)
    change (1 + pageCount (fieldSize layout field) + 1) * 4096 ≤ 16 * 4096
    exact Nat.mul_le_mul_right _ (Nat.add_le_add_right (Nat.add_le_add_left hpages 1) 1)
  · have hpages := pageCount_le layout.process_le (by decide)
    change (1 + pageCount layout.process + 1) * 4096 ≤ 16 * 4096
    exact Nat.mul_le_mul_right _ (Nat.add_le_add_right (Nat.add_le_add_left hpages 1) 1)

theorem limit_le (r : Region) : r.limit layout barMinSize ≤ zoneBase (r.zone + 1) := by
  obtain ⟨hfault, hidle, hfield, hframe, hbox, hstack⟩ := span_le layout barMinSize
  cases r with
  | heap => exact (by decide : heapStart + heapSize / 4096 * 4096 ≤ doubleFaultStackBase)
  | doubleFaultStack core =>
    exact show _ ≤ zoneBase 2 from slot_limit_le core (hfault core) (by decide)
  | lapic => exact (by decide : lapicMmioVbase + 1 * 4096 ≤ idleStackBase)
  | idleStack core =>
    exact show _ ≤ zoneBase 4 from slot_limit_le core (hidle core) (by decide)
  | bar index =>
    have hpages := barPages_le (barMinSize index)
    have hindex := index.isLt
    simp only [limit, span, slotBase, guardsBelow, guardsAbove, mappedPages, mmioVbase, barVstride,
      zone, zoneBase, List.getD_cons_succ, List.getD_cons_zero, schedStateBase]
    split <;> omega
  | schedField field =>
    exact show _ ≤ zoneBase 5 from slot_limit_le field (hfield field) (by decide)
  | trapFrame slot =>
    exact show _ ≤ zoneBase 6 from slot_limit_le slot (hframe slot) (by decide)
  | processBox slot =>
    exact show _ ≤ zoneBase 7 from slot_limit_le slot (hbox slot) (by decide)
  | kernelStack slot =>
    exact show _ ≤ zoneBase 8 from slot_limit_le slot (hstack slot) (by decide)

end Region

def RegionsApart (layout : Layout) (barMinSize : Fin 6 → UInt32) : Prop :=
  ∀ r r' : Region, r ≠ r' →
    ∀ page ∈ r.mapped layout barMinSize ++ r.guards layout barMinSize,
      page ∉ r'.mapped layout barMinSize ++ r'.guards layout barMinSize

section Apart

variable {layout : Layout} {barMinSize : Fin 6 → UInt32} {r r' : Region}

open Region

/-- BAR 0 would take the place of the idle stacks, and a window that is longer than the distance to
the next one used reaches into it. -/
def BarsFit (barMinSize : Fin 6 → UInt32) : Prop :=
  barMinSize 0 = 0 ∧ ∀ i j : Fin 6, i < j → 0 < barMinSize i → 0 < barMinSize j →
    pageCount (barMinSize i).toNat * 4096 ≤ (j - i) * barVstride

instance (barMinSize : Fin 6 → UInt32) : Decidable (BarsFit barMinSize) :=
  inferInstanceAs (Decidable (_ ∧ _))

/-- One region ends before the other starts, or is not there at all. -/
def Apart (layout : Layout) (barMinSize : Fin 6 → UInt32) (r r' : Region) : Prop :=
  r.limit layout barMinSize ≤ r'.slotBase ∨ r'.limit layout barMinSize ≤ r.slotBase ∨
    r.span layout barMinSize = 0 ∨ r'.span layout barMinSize = 0

theorem Apart.symm (h : Apart layout barMinSize r r') : Apart layout barMinSize r' r := by
  rcases h with h | h | h | h
  · exact .inr (.inl h)
  · exact .inl h
  · exact .inr (.inr (.inr h))
  · exact .inr (.inr (.inl h))

theorem Apart.not_mem (h : Apart layout barMinSize r r') {page : ℕ}
    (hpage : page ∈ r.mapped layout barMinSize ++ r.guards layout barMinSize) :
    page ∉ r'.mapped layout barMinSize ++ r'.guards layout barMinSize := by
  rcases h with h | h | h | h
  · exact not_mem_of_limit_le h hpage
  · exact fun hpage' ↦ not_mem_of_limit_le h hpage' hpage
  · rw [mem_pages, h] at hpage
    obtain ⟨i, hi, -⟩ := hpage
    exact absurd hi (Nat.not_lt_zero i)
  · rw [mem_pages, h]
    rintro ⟨i, hi, -⟩
    exact absurd hi (Nat.not_lt_zero i)

theorem apart_of_zone (h : r.zone < r'.zone) : Apart layout barMinSize r r' := by
  have hmono : ∀ k ≤ 7, ∀ l < k, zoneBase (l + 1) ≤ zoneBase k := by decide
  have hlast : r'.zone ≤ 7 := by cases r' <;> simp only [zone] <;> decide
  exact .inl ((limit_le r).trans ((hmono _ hlast _ h).trans (zoneBase_le r')))

theorem slot_apart {i j pages : ℕ} (hpages : pages * 4096 ≤ stride) (h : i < j) :
    base + i * stride + pages * 4096 ≤ base + j * stride := by
  have hstep : (i + 1) * stride ≤ j * stride := Nat.mul_le_mul_right _ h
  rw [Nat.succ_mul] at hstep
  omega

theorem slots_apart {slot : Fin count → Region} {i j : Fin count}
    (hbase : ∀ i, (slot i).slotBase = base + i * stride)
    (hspan : ∀ i, (slot i).span layout barMinSize * 4096 ≤ stride) (h : slot i ≠ slot j) :
    Apart layout barMinSize (slot i) (slot j) := by
  have hne : (i : ℕ) ≠ j := fun heq ↦ h (congrArg slot (Fin.ext heq))
  unfold Apart limit
  rw [hbase, hbase]
  rcases Nat.lt_or_gt_of_ne hne with hlt | hlt
  · exact .inl (slot_apart (hspan i) hlt)
  · exact .inr (.inl (slot_apart (hspan j) hlt))

theorem idle_bar_apart (h : barMinSize 0 = 0) (core : CoreId) (index : Fin 6) :
    Apart layout barMinSize (.idleStack core) (.bar index) := by
  obtain ⟨-, hidle, -⟩ := span_le layout barMinSize
  by_cases hzero : index = 0
  · subst hzero
    refine .inr (.inr (.inr ?_))
    simp only [span, guardsBelow, guardsAbove, mappedPages, h]
    rfl
  · have hpos : 0 < (index : ℕ) := Nat.pos_of_ne_zero fun heq ↦ hzero (Fin.ext heq)
    have hidles : (idleStack core).limit layout barMinSize ≤ mmioVbase + 1 * barVstride :=
      slot_limit_le core (hidle core) (by decide)
    exact .inl (hidles.trans (Nat.add_le_add_left (Nat.mul_le_mul_right _ hpos) _))

theorem bar_span (index : Fin 6) : (bar index).span layout barMinSize =
    if 0 < barMinSize index then pageCount (barMinSize index).toNat else 0 := by
  simp only [span, guardsBelow, guardsAbove, mappedPages, Nat.zero_add, Nat.add_zero]

theorem bars_apart_of_lt (h : BarsFit barMinSize) {i j : Fin 6} (hij : i < j) :
    Apart layout barMinSize (.bar i) (.bar j) := by
  by_cases hi : 0 < barMinSize i
  · by_cases hj : 0 < barMinSize j
    · have hfits := h.2 i j hij hi hj
      refine .inl ?_
      rw [limit, bar_span, if_pos hi]
      have hsplit : (j : ℕ) * barVstride = i * barVstride + (j - i) * barVstride := by
        rw [← Nat.add_mul, Nat.add_sub_cancel' hij.le]
      simp only [slotBase]
      omega
    · exact .inr (.inr (.inr (by rw [bar_span, if_neg hj])))
  · exact .inr (.inr (.inl (by rw [bar_span, if_neg hi])))

theorem apart_of_barsFit (h : BarsFit barMinSize) (hne : r ≠ r') :
    Apart layout barMinSize r r' := by
  obtain ⟨hfault, hidle, hfield, hframe, hbox, hstack⟩ := span_le layout barMinSize
  rcases Nat.lt_trichotomy r.zone r'.zone with hlt | hzone | hlt
  · exact apart_of_zone hlt
  · cases r with
    | heap =>
      cases r' with
      | heap => exact absurd rfl hne
      | _ => cases hzone
    | doubleFaultStack core =>
      cases r' with
      | doubleFaultStack core' => exact slots_apart (fun _ ↦ rfl) hfault hne
      | _ => cases hzone
    | lapic =>
      cases r' with
      | lapic => exact absurd rfl hne
      | _ => cases hzone
    | idleStack core =>
      cases r' with
      | idleStack core' => exact slots_apart (fun _ ↦ rfl) hidle hne
      | bar index => exact idle_bar_apart h.1 core index
      | _ => cases hzone
    | bar index =>
      cases r' with
      | idleStack core => exact (idle_bar_apart h.1 core index).symm
      | bar index' =>
        rcases lt_or_gt_of_ne fun heq ↦ hne (congrArg Region.bar heq) with hlt | hlt
        · exact bars_apart_of_lt h hlt
        · exact (bars_apart_of_lt h hlt).symm
      | _ => cases hzone
    | schedField field =>
      cases r' with
      | schedField field' => exact slots_apart (fun _ ↦ rfl) hfield hne
      | _ => cases hzone
    | trapFrame slot =>
      cases r' with
      | trapFrame slot' => exact slots_apart (fun _ ↦ rfl) hframe hne
      | _ => cases hzone
    | processBox slot =>
      cases r' with
      | processBox slot' => exact slots_apart (fun _ ↦ rfl) hbox hne
      | _ => cases hzone
    | kernelStack slot =>
      cases r' with
      | kernelStack slot' => exact slots_apart (fun _ ↦ rfl) hstack hne
      | _ => cases hzone
  · exact (apart_of_zone hlt).symm

theorem pos_pageCount (size : ℕ) : 0 < pageCount size := Nat.le_max_right _ 1

/-- The kernel's fixed regions keep apart exactly for the BAR sizes that fit between them. -/
theorem regionsApart_iff (layout : Layout) (barMinSize : Fin 6 → UInt32) :
    RegionsApart layout barMinSize ↔ BarsFit barMinSize := by
  constructor
  · intro h
    refine ⟨?_, fun i j hij hi hj ↦ ?_⟩
    · -- the first page of BAR 0 is the guard page of the first idle stack
      by_contra hzero
      have hpos : 0 < barMinSize 0 := UInt32.pos_iff_ne_zero.mpr hzero
      refine h (.bar 0) (.idleStack 0) (fun heq ↦ by cases heq) mmioVbase ?_ ?_
      · rw [mem_pages, bar_span, if_pos hpos]
        exact ⟨0, pos_pageCount _, rfl⟩
      · rw [mem_pages]
        exact ⟨0, Nat.zero_lt_succ _, rfl⟩
    · -- a page of the earlier window is the first page of the later one
      by_contra hlong
      refine h (.bar i) (.bar j) (fun heq ↦ hij.ne (Region.bar.inj heq)) (Region.bar j).slotBase ?_ ?_
      · rw [mem_pages, bar_span, if_pos hi]
        refine ⟨(j - i) * 256, ?_, ?_⟩
        · simp only [barVstride] at hlong
          omega
        · have hle := hij.le
          simp only [slotBase, barVstride]
          omega
      · rw [mem_pages, bar_span, if_pos hj]
        exact ⟨0, pos_pageCount _, by rw [Nat.zero_mul, Nat.add_zero]⟩
  · intro h r r' hne page hpage
    exact (apart_of_barsFit h hne).not_mem hpage

def onePageEach : Layout := ⟨4096, 4096, 4096, 4096, by decide, by decide, by decide, by decide⟩

/-- A device with these virtio structures, each with its type, its BAR and its length. -/
def virtioDevice (caps : List (UInt8 × UInt8 × ℕ)) : ConfigSpace := listAt 0x40 fun o ↦
  let k := o.toNat / 32 - 2
  match caps[k]?, o.toNat % 32 with
  | some _, 0 => pciCapIdVendorSpecific
  | some _, 1 => if k + 1 < caps.length then o + 31 else 0
  | some (kind, _, _), 3 => kind
  | some (_, index, _), 4 => index
  | some (_, _, length), n => if 12 ≤ n then (leBytes 4 length).getD (n - 12) 0 else 0
  | none, _ => 0

def barZero : ConfigSpace := virtioDevice [(1, 0, 0x1000), (2, 0, 0x2000), (4, 0, 0x1000)]

/-- A device with a window of 2 MiB in BAR 1 and another one in BAR 2. -/
def wideBar : ConfigSpace := virtioDevice [(1, 1, 0x20_0000), (2, 2, 0x1000), (4, 1, 0x1000)]

/-- The sizes of the windows that `VirtioBlk::new` maps, if nothing is missing. -/
def reported (cfg : ConfigSpace) : Option (List UInt32) :=
  match Scan.run cfg 4 cfg.capabilities {} with
  | some (.ok scan) => if scan.verdict = .rejected then none else some (List.ofFn scan.barMinSize)
  | _ => none

theorem windows_collide :
    reported barZero = some [0x2000, 0, 0, 0, 0, 0] ∧
      (mmioVbase ∈ (bar 0).mapped onePageEach ![0x2000, 0, 0, 0, 0, 0] ∧
        mmioVbase ∈ (idleStack 0).guards onePageEach ![0x2000, 0, 0, 0, 0, 0]) ∧
      (mmioVbase + 4096 ∈ (bar 0).mapped onePageEach ![0x2000, 0, 0, 0, 0, 0] ∧
        mmioVbase + 4096 ∈ (idleStack 0).mapped onePageEach ![0x2000, 0, 0, 0, 0, 0]) ∧
      reported wideBar = some [0, 0x20_0000, 0x1000, 0, 0, 0] ∧
      mmioVbase + 2 * barVstride ∈ (bar 1).mapped onePageEach ![0, 0x20_0000, 0x1000, 0, 0, 0] ∧
        mmioVbase + 2 * barVstride ∈ (bar 2).mapped onePageEach ![0, 0x20_0000, 0x1000, 0, 0, 0] := by
  decide +kernel

end Apart

end Tarnos.Memory
