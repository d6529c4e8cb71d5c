import Mathlib.Tactic.IntervalCases
import Tarnos.Foundation.Trie
import Tarnos.Memory.Phys

namespace Tarnos.Memory

open Foundation Function BitmapFrameAllocator Trie

variable {W : ℕ}

/-- Physical memory: the frames that can be handed out, and the bytes of each frame. -/
structure Ram (W : ℕ) where
  allocator : BitmapFrameAllocator W
  bytes : PhysFrame → ℕ → UInt8

namespace Ram

def free (ram : Ram W) : Finset PhysFrame := ram.allocator.free

def allocateFrame (ram : Ram W) : Option PhysFrame × Ram W :=
  (ram.allocator.allocateFrame.1, { ram with allocator := ram.allocator.allocateFrame.2 })

def zero (ram : Ram W) (frame : PhysFrame) : Ram W :=
  { ram with bytes := update ram.bytes frame fun _ ↦ 0 }

def write (ram : Ram W) (frame : PhysFrame) (offset : ℕ) (data : List UInt8) : Ram W :=
  { ram with
    bytes := update ram.bytes frame fun i ↦
      if offset ≤ i then data.getD (i - offset) (ram.bytes frame i) else ram.bytes frame i }

variable {ram ram' : Ram W} {frame : PhysFrame}

theorem bytes_write_of_mem {offset k : ℕ} {data : List UInt8} {byte : UInt8}
    (h : data[k]? = some byte) : (ram.write frame offset data).bytes frame (offset + k) = byte := by
  simp only [write]
  rw [update_self, if_pos (Nat.le_add_right _ _), Nat.add_sub_cancel_left,
    List.getD_eq_getElem?_getD, h, Option.getD_some]

theorem bytes_write_of_ne {offset i : ℕ} {data : List UInt8} {f : PhysFrame}
    (h : ∀ k < data.length, (frame, offset + k) ≠ (f, i)) :
    (ram.write frame offset data).bytes f i = ram.bytes f i := by
  by_cases hf : f = frame
  · subst hf
    simp only [write]
    rw [update_self]
    split
    · rename_i hle
      rw [List.getD_eq_getElem?_getD, List.getElem?_eq_none, Option.getD_none]
      by_contra hlt
      exact h (i - offset) (Nat.not_le.mp hlt) (by rw [Nat.add_sub_cancel' hle])
    · rfl
  · simp only [write]
    rw [update_of_ne hf]

theorem allocateFrame_none (h : ram.allocateFrame = (none, ram')) : ram.free = ∅ ∧ ram' = ram := by
  obtain ⟨hnone, rfl⟩ := Prod.mk.inj h
  refine ⟨allocateFrame_eq_none.mp hnone, ?_⟩
  have hpair : ram.allocator.allocateFrame = (none, ram.allocator.allocateFrame.2) :=
    Prod.ext hnone rfl
  rw [allocateFrame_unchanged hpair]

theorem allocateFrame_some (h : ram.allocateFrame = (some frame, ram')) :
    ram.free.val = frame ::ₘ ram'.free.val ∧ ram'.bytes = ram.bytes ∧
      ram'.allocator.pool = ram.allocator.pool := by
  obtain ⟨hsome, rfl⟩ := Prod.mk.inj h
  have hpair : ram.allocator.allocateFrame = (some frame, ram.allocator.allocateFrame.2) :=
    Prod.ext hsome rfl
  obtain ⟨hmem, hfree, hpool⟩ := allocateFrame_eq_some hpair
  refine ⟨?_, rfl, hpool⟩
  rw [free, free, hfree, Finset.erase_val, Multiset.cons_erase hmem]

/-- Frames for page tables: `map_to` clears each one that it takes. -/
def tables : Supply PhysFrame (Ram W) where
  take ram :=
    match ram.allocateFrame with
    | (some frame, ram) => (some frame, ram.zero frame)
    | (none, ram) => (none, ram)
  free := free
  take_none := by
    intro ram ram' h
    split at h
    · cases h
    · rename_i ram'' hnone
      cases h
      exact allocateFrame_none hnone
  take_some := by
    intro ram ram' frame h
    split at h
    · rename_i frame' ram'' hsome
      cases h
      exact (allocateFrame_some hsome).1
    · cases h

end Ram

theorem and_not_mask (x : BitVec 64) : x &&& ~~~4095#64 = (x >>> 12) <<< 12 := by
  apply BitVec.eq_of_getLsbD_eq
  intro i hi
  have hmask : (4095#64).getLsbD i = decide (i < 12) := by
    rw [BitVec.getLsbD_ofNat, show 4095 = 2 ^ 12 - 1 by decide, Nat.testBit_two_pow_sub_one]
    simp [hi]
  rw [BitVec.getLsbD_and, BitVec.getLsbD_not, hmask, BitVec.getLsbD_shiftLeft,
    BitVec.getLsbD_ushiftRight]
  by_cases h : i < 12
  · simp [h]
  · simp [h, hi, show 12 + (i - 12) = i by omega]

/-- A page of the user half. -/
@[ext]
structure Page where
  number : ℕ
  user : number < 2 ^ 35
  deriving DecidableEq

namespace Page

def containingAddress (address : ℕ) : Page :=
  ⟨address / 4096 % 2 ^ 35, Nat.mod_lt _ (by decide)⟩

/-- `Page::range_inclusive`. -/
def rangeInclusive (first last : Page) : List Page :=
  (List.range (last.number + 1 - first.number)).map fun i ↦
    .containingAddress ((first.number + i) * 4096)

def path (page : Page) (level : ℕ) : Fin 512 := Fin.ofNat 512 (page.number / 512 ^ level)

theorem path_eq {p q : Page} {level : ℕ} :
    p.path level = q.path level ↔ p.number / 512 ^ level % 512 = q.number / 512 ^ level % 512 := by
  rw [path, path, Fin.ext_iff]
  rfl

theorem agree_iff {p q : Page} {k : ℕ} (hk : k ≤ 3) :
    (∀ j, k ≤ j → j ≤ 3 → p.path j = q.path j) ↔ p.number / 512 ^ k = q.number / 512 ^ k := by
  have hp := p.user
  have hq := q.user
  constructor
  · intro h
    have h3 := path_eq.mp (h 3 hk le_rfl)
    interval_cases k
    · have h0 := path_eq.mp (h 0 (by omega) (by omega))
      have h1 := path_eq.mp (h 1 (by omega) (by omega))
      have h2 := path_eq.mp (h 2 (by omega) (by omega))
      omega
    · have h1 := path_eq.mp (h 1 (by omega) (by omega))
      have h2 := path_eq.mp (h 2 (by omega) (by omega))
      omega
    · have h2 := path_eq.mp (h 2 (by omega) (by omega))
      omega
    · omega
  · intro h j hkj hj
    have hsplit : 512 ^ j = 512 ^ k * 512 ^ (j - k) := by
      rw [← pow_add, Nat.add_sub_cancel' hkj]
    rw [path_eq, hsplit, ← Nat.div_div_eq_div_mul, ← Nat.div_div_eq_div_mul, h]

theorem agree_zero_iff {p q : Page} : (∀ j, 0 ≤ j → j ≤ 3 → p.path j = q.path j) ↔ p = q := by
  rw [agree_iff (Nat.zero_le 3), Page.ext_iff]
  simp

theorem path_three_lt (page : Page) : (page.path 3).val < 256 := by
  have huser := page.user
  change page.number / 512 ^ 3 % 512 < 256
  omega

end Page

structure PageFlags where
  writable : Bool
  executable : Bool
  deriving DecidableEq, Repr

inductive MapError
  | outOfMemory
  | alreadyMapped
  deriving DecidableEq, Repr

def mapErrorFrom : InsertError → MapError
  | .exhausted => .outOfMemory
  | .occupied => .alreadyMapped

/-- A process's tables. Only the user half is owned: the entries of the kernel half, which every
address space shares, are not part of the tree. -/
structure AddressSpace where
  pml4Frame : PhysFrame
  table : Trie (Fin 512) PhysFrame PageFlags 4
  lower : ∀ i : Fin 512, 256 ≤ i.val → table.child i = none

namespace AddressSpace

theorem lower_empty (i : Fin 512) (_ : 256 ≤ i.val) :
    (empty 3 : Trie (Fin 512) PhysFrame PageFlags 4).child i = none := rfl

def new (ram : Ram W) : Except MapError AddressSpace × Ram W :=
  match ram.allocateFrame with
  | (none, ram) => (.error .outOfMemory, ram)
  | (some frame, ram) => (.ok ⟨frame, .empty 3, lower_empty⟩, ram.zero frame)

section

variable (space : AddressSpace)

def translatePage (page : Page) : Option PhysFrame :=
  space.table.label 4 page.path 0

/-- The entry at the end of a page's walk: its frame and its flags. -/
def entry (page : Page) : Option (PhysFrame × PageFlags) :=
  space.table.entry 3 page.path

/-- Whether the table of a level that the page's walk goes through exists. -/
def hasTable (page : Page) (level : ℕ) : Bool :=
  (space.table.label 4 page.path level).isSome

def missingTables (page : Page) : ℕ := space.table.missing 3 page.path

def owned : Multiset PhysFrame := space.pml4Frame ::ₘ space.table.labels 4

theorem translatePage_eq (page : Page) :
    space.translatePage page = (space.entry page).map Prod.fst :=
  label_zero 3 space.table page.path

theorem missingTables_eq (page : Page) :
    space.missingTables page =
      ((Finset.Icc 1 3).filter fun level ↦ space.hasTable page level = false).card := by
  rw [missingTables, missing_eq_card]
  congr 1
  refine Finset.filter_congr fun level _ ↦ ?_
  rw [hasTable, Option.isNone_iff_eq_none]
  cases label 4 space.table page.path level <;> simp

end

theorem mem_owned {space : AddressSpace} {page : Page} {frame : PhysFrame}
    (h : space.translatePage page = some frame) : frame ∈ space.owned := by
  rw [owned, Multiset.mem_cons]
  right
  apply mem_labels
  exact h

theorem owned_new (frame : PhysFrame) :
    (⟨frame, .empty 3, fun _ _ ↦ rfl⟩ : AddressSpace).owned = {frame} := by
  rw [owned, labels_empty]
  rfl

end AddressSpace

/-- What a call of `map_to` does. It maps a page that is not mapped if there is a frame for every
table on its way, and makes those tables. It takes frames from the allocator, also where it then
fails, and writes into no others. -/
structure Mapped (space : AddressSpace) (page : Page) (frame : PhysFrame) (flags : PageFlags)
    (ram : Ram W) (result : Except MapError Unit) (space' : AddressSpace) (ram' : Ram W) : Prop where
  root : space'.pml4Frame = space.pml4Frame
  isOk : result.isOk = true ↔ space.translatePage page = none ∧
    space.missingTables page ≤ ram.free.card
  card : result.isOk = true → ram.free.card = space.missingTables page + ram'.free.card
  entry : ∀ q, space'.entry q =
    if result.isOk = true ∧ q = page then some (frame, flags) else space.entry q
  hasTable : result.isOk = true → ∀ level ≤ 3, ∀ q, space'.hasTable q level = true ↔
    space.hasTable q level = true ∨ q.number / 512 ^ level = page.number / 512 ^ level
  owned : ∃ new, ram.free.val = new + ram'.free.val ∧
    space'.owned = space.owned + (new + if result.isOk then {frame} else 0)
  free : ram'.free ⊆ ram.free
  pool : ram'.allocator.pool = ram.allocator.pool
  bytes : ∀ f, (f ∈ ram.free → f ∈ ram'.free) → ram'.bytes f = ram.bytes f

theorem Mapped.translatePage {space space' : AddressSpace} {page : Page} {frame : PhysFrame}
    {flags : PageFlags} {ram ram' : Ram W} {result : Except MapError Unit}
    (h : Mapped space page frame flags ram result space' ram') (q : Page) :
    space'.translatePage q =
      if result.isOk = true ∧ q = page then some frame else space.translatePage q := by
  rw [AddressSpace.translatePage_eq, h.entry, AddressSpace.translatePage_eq]
  split <;> rfl

/-- Two memories that differ at most in what free frames hold. -/
structure Ram.Agrees (ram ram' : Ram W) : Prop where
  allocator : ram.allocator = ram'.allocator
  bytes : ∀ frame ∉ ram.free, ∀ i < frameSize, ram.bytes frame i = ram'.bytes frame i

/-- Two outcomes that differ at most there. -/
structure Alike {α β : Type} (out out' : α × β × Ram W) : Prop where
  result : out.1 = out'.1
  state : out.2.1 = out'.2.1
  ram : out.2.2.Agrees out'.2.2

theorem Alike.exists_eq {α β : Type} {out out' : α × β × Ram W} (h : Alike out out') :
    ∃ result state ram ram', out = (result, state, ram) ∧ out' = (result, state, ram') ∧
      ram.Agrees ram' :=
  ⟨_, _, _, out'.2.2, rfl, Prod.ext h.result.symm (Prod.ext h.state.symm rfl), h.ram⟩

/-- The contract of the `x86_64` crate's `map_to`. -/
class Mapper where
  mapTo {W : ℕ} (space : AddressSpace) (page : Page) (frame : PhysFrame) (flags : PageFlags)
    (ram : Ram W) : Except MapError Unit × AddressSpace × Ram W
  mapped {W : ℕ} {space space' : AddressSpace} {page : Page} {frame : PhysFrame} {flags : PageFlags}
    {ram ram' : Ram W} {result : Except MapError Unit}
    (h : mapTo space page frame flags ram = (result, space', ram')) :
    Mapped space page frame flags ram result space' ram'
  alike {W : ℕ} {ram ram' : Ram W} (h : ram.Agrees ram') (space : AddressSpace) (page : Page)
    (frame : PhysFrame) (flags : PageFlags) :
    Alike (mapTo space page frame flags ram) (mapTo space page frame flags ram')

/-- `map_in`. -/
def AddressSpace.map [Mapper] (space : AddressSpace) (page : Page) (frame : PhysFrame)
    (flags : PageFlags) (ram : Ram W) : Except MapError Unit × AddressSpace × Ram W :=
  Mapper.mapTo space page frame flags ram

namespace Ram.Agrees

variable {ram ram' : Ram W}

theorem take (h : ram.Agrees ram') {frame : PhysFrame} {taken : Ram W}
    (htake : ram.allocateFrame = (some frame, taken)) :
    ∃ taken', ram'.allocateFrame = (some frame, taken') ∧
      (taken.zero frame).Agrees (taken'.zero frame) ∧
      ((∀ i < frameSize, ram.bytes frame i = 0) → (∀ i < frameSize, ram'.bytes frame i = 0) →
        taken.Agrees taken') := by
  have hfree := (allocateFrame_some htake).1
  obtain ⟨hsome, rfl⟩ := Prod.mk.inj htake
  have hkept : ∀ f, f ≠ frame → f ∉ ram.allocator.allocateFrame.2.free → f ∉ ram.free := by
    intro f hne hf hmem
    rw [← Finset.mem_val, hfree] at hmem
    exact hf ((Multiset.mem_cons.mp hmem).resolve_left hne)
  refine ⟨{ ram' with allocator := ram.allocator.allocateFrame.2 }, ?_, ⟨rfl, fun f hf i hi ↦ ?_⟩,
    fun hzero hzero' ↦ ⟨rfl, fun f hf i hi ↦ ?_⟩⟩
  · rw [allocateFrame, ← h.allocator, hsome]
  · simp only [zero]
    by_cases hframe : f = frame
    · rw [hframe, update_self, update_self]
    · rw [update_of_ne hframe, update_of_ne hframe]
      exact h.bytes f (hkept f hframe hf) i hi
  · by_cases hframe : f = frame
    · rw [hframe]
      exact (hzero i hi).trans (hzero' i hi).symm
    · exact h.bytes f (hkept f hframe hf) i hi

theorem take_none (h : ram.Agrees ram') {taken : Ram W} (htake : ram.allocateFrame = (none, taken)) :
    ram'.allocateFrame = (none, ram') ∧ taken = ram := by
  obtain ⟨hfree, hsame⟩ := allocateFrame_none htake
  refine ⟨?_, hsame⟩
  generalize htake' : ram'.allocateFrame = out
  obtain ⟨frame, taken'⟩ := out
  have hnone : frame = none := by
    have hfirst : ram'.allocateFrame.1 = ram.allocateFrame.1 := by
      rw [allocateFrame, allocateFrame, h.allocator]
    rw [htake', htake] at hfirst
    exact hfirst
  subst hnone
  rw [(allocateFrame_none htake').2]

theorem tables (h : ram.Agrees ram') : (Ram.tables.take ram).1 = (Ram.tables.take ram').1 ∧
    (Ram.tables.take ram).2.Agrees (Ram.tables.take ram').2 := by
  simp only [Ram.tables]
  generalize htake : ram.allocateFrame = out
  obtain ⟨frame, taken⟩ := out
  cases frame with
  | none =>
    obtain ⟨htake', rfl⟩ := h.take_none htake
    rw [htake']
    exact ⟨rfl, h⟩
  | some frame =>
    obtain ⟨taken', htake', hzero, -⟩ := h.take htake
    rw [htake']
    exact ⟨rfl, hzero⟩

end Ram.Agrees

namespace AddressSpace

/-- The crate's walk on the tree: tables are made on the way down, and the last level is set. -/
def insert (space : AddressSpace) (page : Page) (frame : PhysFrame) (flags : PageFlags)
    (ram : Ram W) : Except MapError Unit × AddressSpace × Ram W :=
  let r := Trie.insert Ram.tables 3 space.table page.path frame flags ram
  (r.1.mapError mapErrorFrom,
    { space with
      table := r.2.1
      lower := by
        intro i hi
        have hne : i ≠ page.path 3 := by
          rintro rfl
          exact absurd page.path_three_lt (Nat.not_lt.mpr hi)
        rw [Trie.child_insert_of_ne _ hne]
        exact space.lower i hi },
    r.2.2)

variable {space space' : AddressSpace} {page : Page} {frame : PhysFrame} {flags : PageFlags}
  {ram ram' : Ram W} {result : Except MapError Unit}

theorem isOk_mapError {r : Except InsertError Unit} : (r.mapError mapErrorFrom).isOk = r.isOk := by
  cases r <;> rfl

theorem insert_frames (h : space.insert page frame flags ram = (result, space', ram')) :
    ram'.free ⊆ ram.free ∧ ram'.allocator.pool = ram.allocator.pool ∧
      ∀ f, (f ∈ ram.free → f ∈ ram'.free) → ram'.bytes f = ram.bytes f := by
  cases h
  refine insert_supply Ram.tables (R := fun ram ram' : Ram W ↦ ram'.free ⊆ ram.free ∧
    ram'.allocator.pool = ram.allocator.pool ∧
      ∀ f, (f ∈ ram.free → f ∈ ram'.free) → ram'.bytes f = ram.bytes f)
    (fun ram ↦ ⟨Finset.Subset.refl _, rfl, fun _ _ ↦ rfl⟩) (fun ram₁ ram₂ ram₃ h h' ↦ ?_)
    fun ram₁ taken ram₂ htake ↦ ?_
  · exact ⟨h'.1.trans h.1, h'.2.1.trans h.2.1, fun f hf ↦
      (h'.2.2 f fun hmem ↦ hf (h.1 hmem)).trans (h.2.2 f fun hmem ↦ h'.1 (hf hmem))⟩
  · simp only [Ram.tables] at htake
    split at htake
    · rename_i frame' ram'' hsome
      cases htake
      obtain ⟨hfree, hbytes, hpool⟩ := Ram.allocateFrame_some hsome
      have hnodup := ram₁.free.nodup
      rw [hfree, Multiset.nodup_cons] at hnodup
      have hmem : ∀ f, f ∈ ram₁.free ↔ f = taken ∨ f ∈ ram''.free := by
        intro f
        rw [← Finset.mem_val, hfree, Multiset.mem_cons, Finset.mem_val]
      refine ⟨fun f hf ↦ (hmem f).mpr (.inr hf), hpool, fun f hf ↦ ?_⟩
      have hne : f ≠ taken := by
        rintro rfl
        exact hnodup.1 (hf ((hmem f).mpr (.inl rfl)))
      exact (update_of_ne hne _ _).trans (congrFun hbytes f)
    · cases htake

theorem insert_mapped (h : space.insert page frame flags ram = (result, space', ram')) :
    Mapped space page frame flags ram result space' ram' := by
  obtain ⟨hfree, hpool, hbytes⟩ := insert_frames h
  cases h
  obtain ⟨new, htaken, hlabels⟩ :=
    labels_insert Ram.tables 3 space.table page.path frame flags ram
  refine ⟨rfl, ?_, ?_, fun q ↦ ?_, fun hok level hlevel q ↦ ?_, ⟨new, htaken, ?_⟩, hfree, hpool,
    hbytes⟩
  all_goals rw [isOk_mapError] at *
  · exact insert_ok Ram.tables
  · exact insert_card Ram.tables
  · exact (entry_insert Ram.tables).trans
      (if_congr (and_congr_right fun _ ↦ Page.agree_zero_iff) rfl rfl)
  · rw [← Page.agree_iff hlevel]
    exact isSome_label_insert Ram.tables hlevel hok
  · rw [owned, owned, Multiset.cons_add]
    exact congrArg _ hlabels

instance : Mapper where
  mapTo := insert
  mapped := insert_mapped
  alike h space page frame flags := by
    obtain ⟨hresult, htable, hram⟩ := @Trie.insert_related _ _ _ _ _ Ram.tables 3 space.table page.path
      frame flags _ _ (fun _ _ h ↦ Ram.Agrees.tables h) _ h
    refine ⟨congrArg (Except.mapError mapErrorFrom) hresult, ?_, hram⟩
    simp only [insert, htable]

end AddressSpace

def visitEntry {level : ℕ} (visit : PhysFrame → Trie (Fin 512) PhysFrame PageFlags level →
      BitmapFrameAllocator W → Option (BitmapFrameAllocator W))
    (entry : Option (PhysFrame × Trie (Fin 512) PhysFrame PageFlags level))
    (allocator : BitmapFrameAllocator W) : Option (BitmapFrameAllocator W) :=
  match entry with
  | none => some allocator
  | some (child, sub) => visit child sub allocator

/-- `free_table_subtree`: a page is freed itself, a table after everything below it. -/
def freeTableSubtree : (level : ℕ) → PhysFrame → Trie (Fin 512) PhysFrame PageFlags level →
    BitmapFrameAllocator W → Option (BitmapFrameAllocator W)
  | 0, frame, _, allocator => allocator.deallocateFrame frame
  | level + 1, frame, table, allocator =>
    ((List.finRange 512).foldlM
      (fun allocator i ↦ visitEntry (freeTableSubtree level) (table.child i) allocator)
      allocator).bind (·.deallocateFrame frame)

def userEntries : List (Fin 512) := (List.finRange 512).take 256

/-- `Drop for AddressSpace`; `none` is a failed assertion of `deallocate_frame`. -/
def AddressSpace.drop (space : AddressSpace) (ram : Ram W) : Option (Ram W) :=
  (userEntries.foldlM
    (fun allocator i ↦ visitEntry (freeTableSubtree 3) (space.table.child i) allocator)
    ram.allocator).bind fun allocator ↦ (allocator.deallocateFrame space.pml4Frame).map
      fun allocator ↦ { ram with allocator := allocator }

section Teardown

variable {level : ℕ} {frame : PhysFrame} {allocator allocator' : BitmapFrameAllocator W}

def subtreeFrames : (level : ℕ) → PhysFrame → Trie (Fin 512) PhysFrame PageFlags level →
    List PhysFrame
  | 0, frame, _ => [frame]
  | level + 1, frame, table =>
    (List.finRange 512).flatMap (fun i ↦
      match table.child i with
      | none => []
      | some (child, sub) => subtreeFrames level child sub) ++ [frame]

def entryFrames (entry : Option (PhysFrame × Trie (Fin 512) PhysFrame PageFlags level)) :
    List PhysFrame :=
  match entry with
  | none => []
  | some (child, sub) => subtreeFrames level child sub

theorem subtreeFrames_succ (table : Trie (Fin 512) PhysFrame PageFlags (level + 1)) :
    subtreeFrames (level + 1) frame table =
      (List.finRange 512).flatMap (fun i ↦ entryFrames (table.child i)) ++ [frame] := rfl

theorem foldlM_flatMap {α β γ : Type} (f : γ → β → Option γ) (g : α → List β) (l : List α) (c : γ) :
    (l.flatMap g).foldlM f c = l.foldlM (fun c x ↦ (g x).foldlM f c) c := by
  induction l generalizing c with
  | nil => rfl
  | cons x l ih =>
    rw [List.flatMap_cons, List.foldlM_append, List.foldlM_cons]
    exact congrArg _ (funext ih)

theorem foldlM_visitEntry (table : Trie (Fin 512) PhysFrame PageFlags (level + 1))
    (h : ∀ sub frame (allocator : BitmapFrameAllocator W), freeTableSubtree level frame sub allocator =
      (subtreeFrames level frame sub).foldlM deallocateFrame allocator)
    (indices : List (Fin 512)) (allocator : BitmapFrameAllocator W) :
    indices.foldlM
        (fun allocator i ↦ visitEntry (freeTableSubtree level) (table.child i) allocator) allocator =
      (indices.flatMap fun i ↦ entryFrames (table.child i)).foldlM
        deallocateFrame allocator := by
  rw [foldlM_flatMap]
  congr 1
  funext allocator i
  cases table.child i with
  | none => rfl
  | some entry => exact h entry.2 entry.1 allocator

theorem foldlM_singleton (frame : PhysFrame) (allocator : BitmapFrameAllocator W) :
    [frame].foldlM deallocateFrame allocator =
      allocator.deallocateFrame frame := by
  simp

theorem freeTableSubtree_eq (table : Trie (Fin 512) PhysFrame PageFlags level)
    (frame : PhysFrame) (allocator : BitmapFrameAllocator W) :
    freeTableSubtree level frame table allocator =
      (subtreeFrames level frame table).foldlM deallocateFrame allocator := by
  induction level generalizing frame allocator with
  | zero => exact (foldlM_singleton frame allocator).symm
  | succ level ih =>
    rw [freeTableSubtree, subtreeFrames_succ, List.foldlM_append, foldlM_visitEntry table ih]
    simp only [foldlM_singleton, Option.bind_eq_bind]

theorem coe_flatMap_finRange {α : Type} {n : ℕ} (g : Fin n → List α) :
    ((List.finRange n).flatMap g : Multiset α) = ∑ i, (g i : Multiset α) := by
  rw [Fin.sum_univ_def]
  generalize List.finRange n = l
  induction l with
  | nil => rfl
  | cons i l ih => rw [List.flatMap_cons, ← Multiset.coe_add, ih, List.map_cons, List.sum_cons]

theorem coe_subtreeFrames (table : Trie (Fin 512) PhysFrame PageFlags level) (frame : PhysFrame) :
    (subtreeFrames level frame table : Multiset PhysFrame) = frame ::ₘ table.labels level := by
  induction level generalizing frame with
  | zero =>
    rw [labels_zero]
    rfl
  | succ level ih =>
    have hentry : ∀ i, (entryFrames (table.child i) : Multiset PhysFrame) =
        branch (table.child i) := by
      intro i
      cases table.child i with
      | none => rfl
      | some entry => exact ih entry.2 entry.1
    rw [subtreeFrames_succ, ← Multiset.coe_add, coe_flatMap_finRange, labels_succ, add_comm]
    simp only [hentry, Multiset.coe_singleton, Multiset.singleton_add]

theorem foldlM_deallocateFrame (frames : List PhysFrame)
    (hnodup : ((frames : Multiset PhysFrame) + allocator.free.val).Nodup)
    (hpool : ∀ frame ∈ frames, frame ∈ allocator.pool) :
    ∃ allocator', frames.foldlM deallocateFrame allocator = some allocator' ∧
      allocator'.free.val = frames + allocator.free.val ∧ allocator'.pool = allocator.pool := by
  induction frames generalizing allocator with
  | nil => exact ⟨allocator, rfl, by simp, rfl⟩
  | cons frame frames ih =>
    rw [← Multiset.cons_coe, Multiset.cons_add, Multiset.nodup_cons] at hnodup
    have hfree : frame ∉ allocator.free := fun hmem ↦
      hnodup.1 (Multiset.mem_add.mpr (.inr hmem))
    obtain ⟨next, hnext⟩ := deallocateFrame_eq_some.mpr
      ⟨hpool frame List.mem_cons_self, hfree⟩
    obtain ⟨hinsert, hsame⟩ := free_deallocateFrame hnext
    have hval : next.free.val = frame ::ₘ allocator.free.val := by
      rw [hinsert, Finset.insert_val_of_notMem hfree]
    have hrest : ((frames : Multiset PhysFrame) + next.free.val).Nodup := by
      rw [hval, Multiset.add_cons, Multiset.nodup_cons]
      exact hnodup
    obtain ⟨last, hlast, hfreed, hkept⟩ := ih hrest
      fun f hf ↦ hsame ▸ hpool f (List.mem_cons_of_mem _ hf)
    refine ⟨last, ?_, ?_, hkept.trans hsame⟩
    · rw [List.foldlM_cons, hnext]
      exact hlast
    · rw [hfreed, hval, ← Multiset.cons_coe, Multiset.add_cons, Multiset.cons_add]

/-- The frames of an address space in the order in which they are freed. -/
def AddressSpace.dropFrames (space : AddressSpace) : List PhysFrame :=
  userEntries.flatMap (fun i ↦ entryFrames (space.table.child i)) ++ [space.pml4Frame]

theorem AddressSpace.drop_eq_foldlM (space : AddressSpace) (ram : Ram W) :
    space.drop ram = (space.dropFrames.foldlM deallocateFrame
      ram.allocator).map fun allocator ↦ { ram with allocator := allocator } := by
  rw [AddressSpace.drop, AddressSpace.dropFrames, List.foldlM_append,
    foldlM_visitEntry space.table freeTableSubtree_eq, Option.bind_eq_bind, Option.map_bind]
  simp only [foldlM_singleton, Function.comp_def]

theorem AddressSpace.coe_dropFrames (space : AddressSpace) :
    (space.dropFrames : Multiset PhysFrame) = space.owned := by
  have hkernel : ((List.finRange 512).drop 256).flatMap
      (fun i ↦ entryFrames (space.table.child i)) = [] := by
    rw [List.flatMap_eq_nil_iff]
    intro i hi
    obtain ⟨k, hk, rfl⟩ := List.getElem_of_mem hi
    rw [space.lower _ (by simp)]
    rfl
  have hall : userEntries.flatMap (fun i ↦ entryFrames (space.table.child i)) =
      (List.finRange 512).flatMap fun i ↦ entryFrames (space.table.child i) := by
    conv_rhs => rw [← List.take_append_drop 256 (List.finRange 512)]
    rw [List.flatMap_append, hkernel, List.append_nil]
    rfl
  have hentry : ∀ i, (entryFrames (space.table.child i) : Multiset PhysFrame) =
      branch (space.table.child i) := by
    intro i
    cases space.table.child i with
    | none => rfl
    | some entry => exact coe_subtreeFrames entry.2 entry.1
  rw [AddressSpace.dropFrames, hall, ← Multiset.coe_add, coe_flatMap_finRange, AddressSpace.owned,
    labels_succ, add_comm]
  simp only [hentry, Multiset.coe_singleton, Multiset.singleton_add]

theorem AddressSpace.drop_eq {space : AddressSpace} {ram : Ram W}
    (hnodup : (space.owned + ram.free.val).Nodup)
    (hpool : ∀ frame ∈ space.owned, frame ∈ ram.allocator.pool) :
    ∃ ram', space.drop ram = some ram' ∧ ram'.free.val = space.owned + ram.free.val ∧
      ram'.allocator.pool = ram.allocator.pool ∧ ram'.bytes = ram.bytes := by
  have howned : (space.dropFrames : Multiset PhysFrame) = space.owned := space.coe_dropFrames
  rw [← howned] at hnodup hpool
  obtain ⟨allocator, hfreed, hfree, hkept⟩ :=
    foldlM_deallocateFrame space.dropFrames hnodup hpool
  refine ⟨{ ram with allocator := allocator }, ?_, ?_, hkept, rfl⟩
  · rw [space.drop_eq_foldlM, hfreed]
    rfl
  · rw [← howned]
    exact hfree

end Teardown

end Tarnos.Memory
