import Tarnos.Memory.Backing

namespace Tarnos.Memory

open Foundation Foundation.Transition Function AddressSpace Trie

variable {W : ℕ}

/-- What the walks see of an entry. `frame()` refuses an entry that is not present or huge. -/
inductive PageTableEntry
  | unused
  | refused
  | present (frame : PhysFrame)
  deriving DecidableEq, Repr

def PageTableEntry.frame : PageTableEntry → Option PhysFrame
  | .present frame => some frame
  | _ => none

/-- Physical memory with every frame, page tables and data alike, read as a page table. -/
structure TableMemory (W : ℕ) where
  allocator : BitmapFrameAllocator W
  entries : PhysFrame → Fin 512 → PageTableEntry

/-- What a teardown does to memory. -/
inductive Access
  | read (table : PhysFrame)
  | deallocate (frame : PhysFrame)

def Access.table : Access → Option PhysFrame
  | .read table => some table
  | .deallocate _ => none

def Access.freed : Access → Option PhysFrame
  | .read _ => none
  | .deallocate frame => some frame

section Walks

variable (entries : PhysFrame → Fin 512 → PageTableEntry)

def visitTable (indices : List (Fin 512)) (visit : PhysFrame → List Access) (frame : PhysFrame) :
    List Access :=
  .read frame :: (indices.flatMap fun i ↦ (entries frame i).frame.elim [] visit) ++
    [.deallocate frame]

/-- `free_table_subtree`: freeing changes the bitmap only, so every table is read as it was at the
start. -/
def freeSubtree : ℕ → PhysFrame → List Access
  | level + 2 => visitTable entries (List.finRange 512) (freeSubtree (level + 1))
  | _ => visitTable entries (List.finRange 512) fun child ↦ [.deallocate child]

/-- `Drop for AddressSpace`. -/
def dropSpace (pml4 : PhysFrame) : List Access :=
  visitTable entries userEntries (freeSubtree entries 3) pml4

/-- The frame at the end of a path of entries. -/
def walk : PhysFrame → List (Fin 512) → Option PhysFrame
  | frame, [] => some frame
  | frame, i :: path => (entries frame i).frame.bind (walk · path)

end Walks

/-- Only the table of level 4, the PML4, has entries outside the user half. -/
def InHalf (level : ℕ) (i : Fin 512) : Prop := level = 3 → i.val < 256

/-- The paths from a table of a level that end at a page or above. -/
def Within : ℕ → List (Fin 512) → Prop
  | _, [] => True
  | 0, _ :: _ => False
  | level + 1, i :: path => InHalf level i ∧ Within level path

namespace TableMemory

def zero (m : TableMemory W) (table : PhysFrame) : TableMemory W :=
  { m with entries := update m.entries table fun _ ↦ .unused }

/-- `AddressSpace::new`, where `master` is the kernel's own PML4. -/
def newSpace (m : TableMemory W) (master : PhysFrame) : Except MapError PhysFrame × TableMemory W :=
  match m.allocator.allocateFrame with
  | (none, allocator) => (.error .outOfMemory, { m with allocator := allocator })
  | (some frame, allocator) =>
    let m := zero { m with allocator := allocator } frame
    (.ok frame, { m with
      entries := update m.entries frame fun i ↦
        if 256 ≤ i.val then m.entries master i else m.entries frame i })

def drop (m : TableMemory W) (pml4 : PhysFrame) : Option (TableMemory W) :=
  (((dropSpace m.entries pml4).filterMap Access.freed).foldlM BitmapFrameAllocator.deallocateFrame
    m.allocator).map fun allocator ↦ { m with allocator := allocator }

inductive Action
  | map (page : Page) (frame : PhysFrame)
  | store (frame : PhysFrame) (contents : Fin 512 → PageTableEntry)
  | allocate
  | deallocate (frame : PhysFrame)

/-- The address space's own frames: its PML4, the tables and the pages of the user half. -/
def Owns (m : TableMemory W) (pml4 frame : PhysFrame) : Prop :=
  ∃ path, Within 4 path ∧ walk m.entries pml4 path = some frame

/-- A frame is mapped once, others leave the tables alone and free no frame of the address space. -/
def Respects (pml4 : PhysFrame) (m : TableMemory W) : Action → Prop
  | .map _ frame => frame ∈ m.allocator.pool ∧ frame ∉ m.allocator.free ∧ ¬m.Owns pml4 frame
  | .store frame _ =>
    ∀ path, Within 4 path → walk m.entries pml4 path = some frame → path.length = 4
  | .allocate => True
  | .deallocate frame => ¬m.Owns pml4 frame

end TableMemory

/-! Memory holds a tree of tables. -/

section Stands

variable {entries entries' : PhysFrame → Fin 512 → PageTableEntry} {level : ℕ} {frame f : PhysFrame}
  {i : Fin 512} {path : List (Fin 512)}

def Stands (entries : PhysFrame → Fin 512 → PageTableEntry) : (level : ℕ) → PhysFrame →
    Trie (Fin 512) PhysFrame PageFlags level → Prop
  | 0, _, _ => True
  | level + 1, frame, table => ∀ i,
    match table.child i with
    | none => InHalf level i → entries frame i = .unused
    | some (child, sub) =>
      InHalf level i ∧ entries frame i = .present child ∧ Stands entries level child sub

variable {table : Trie (Fin 512) PhysFrame PageFlags level}
  {top : Trie (Fin 512) PhysFrame PageFlags (level + 1)}

theorem Stands.vacant (h : Stands entries (level + 1) frame top) (hchild : top.child i = none) :
    InHalf level i → entries frame i = .unused := by
  have hentry := h i
  rwa [hchild] at hentry

theorem Stands.filled (h : Stands entries (level + 1) frame top) {child : PhysFrame}
    (hchild : top.child i = some (child, table)) :
    InHalf level i ∧ entries frame i = .present child ∧ Stands entries level child table := by
  have hentry := h i
  rwa [hchild] at hentry

/-- Only the tables matter, not what the pages hold. -/
theorem Stands.congr (h : Stands entries level frame table)
    (hsame : ∀ path f, Within level path → path.length < level → walk entries frame path = some f →
      entries' f = entries f) : Stands entries' level frame table := by
  induction level generalizing frame with
  | zero => trivial
  | succ level ih =>
    intro i
    rw [hsame [] frame trivial (Nat.succ_pos _) rfl]
    cases hchild : table.child i with
    | none => exact h.vacant hchild
    | some entry =>
      obtain ⟨hi, hentry, hsub⟩ := h.filled hchild
      refine ⟨hi, hentry, ih hsub fun path f hpath hlen hwalk ↦ ?_⟩
      refine hsame (i :: path) f ⟨hi, hpath⟩ (Nat.succ_lt_succ hlen) ?_
      rw [walk, hentry]
      exact hwalk

/-- A walk that enters a table goes on below one of its entries. -/
theorem Stands.walk_cons (h : Stands entries (level + 1) frame top) (hi : InHalf level i)
    (hwalk : walk entries frame (i :: path) = some f) :
    ∃ child sub, top.child i = some (child, sub) ∧ Stands entries level child sub ∧
      walk entries child path = some f := by
  rw [walk] at hwalk
  cases hchild : top.child i with
  | none =>
    rw [h.vacant hchild hi] at hwalk
    cases hwalk
  | some entry =>
    obtain ⟨-, hentry, hsub⟩ := h.filled hchild
    rw [hentry] at hwalk
    exact ⟨entry.1, entry.2, rfl, hsub, hwalk⟩

theorem Stands.mem (h : Stands entries level frame table) (hpath : Within level path)
    (hwalk : walk entries frame path = some f) : f ∈ frame ::ₘ table.labels level := by
  induction path generalizing level frame with
  | nil => exact Multiset.mem_cons.mpr (.inl (Option.some.inj hwalk).symm)
  | cons i path ih =>
    cases level with
    | zero => exact hpath.elim
    | succ level =>
      obtain ⟨child, sub, hchild, hsub, hrest⟩ := h.walk_cons hpath.1 hwalk
      refine Multiset.mem_cons.mpr (.inr (mem_labels_succ.mpr ⟨i, ?_⟩))
      rw [hchild]
      exact ih hsub hpath.2 hrest

theorem Stands.exists_walk (h : Stands entries level frame table)
    (hf : f ∈ frame ::ₘ table.labels level) :
    ∃ path, Within level path ∧ walk entries frame path = some f := by
  induction level generalizing frame with
  | zero =>
    rw [labels_zero] at hf
    cases Multiset.mem_singleton.mp hf
    exact ⟨[], trivial, rfl⟩
  | succ level ih =>
    rcases Multiset.mem_cons.mp hf with rfl | hbelow
    · exact ⟨[], trivial, rfl⟩
    obtain ⟨i, hi⟩ := mem_labels_succ.mp hbelow
    cases hchild : table.child i with
    | none =>
      rw [hchild] at hi
      cases hi
    | some entry =>
      obtain ⟨hhalf, hentry, hsub⟩ := h.filled hchild
      rw [hchild] at hi
      obtain ⟨path, hpath, hwalk⟩ := ih hsub hi
      refine ⟨i :: path, ⟨hhalf, hpath⟩, ?_⟩
      rw [walk, hentry]
      exact hwalk

/-- Where no frame is referred to twice, all paths to a frame have one length. -/
theorem Stands.length_eq (h : Stands entries level frame table)
    (hnodup : (frame ::ₘ table.labels level).Nodup) {q : List (Fin 512)} (hp : Within level path)
    (hq : Within level q) (hpath : walk entries frame path = some f)
    (hqf : walk entries frame q = some f) : path.length = q.length := by
  induction path generalizing level frame q with
  | nil =>
    cases q with
    | nil => rfl
    | cons j q =>
      cases level with
      | zero => exact hq.elim
      | succ level =>
        obtain ⟨child, sub, hchild, hsub, hrest⟩ := h.walk_cons hq.1 hqf
        cases Option.some.inj hpath
        refine absurd (mem_labels_succ.mpr ⟨j, ?_⟩) (Multiset.nodup_cons.mp hnodup).1
        rw [hchild]
        exact hsub.mem hq.2 hrest
  | cons i path ih =>
    cases level with
    | zero => exact hp.elim
    | succ level =>
      obtain ⟨child, sub, hchild, hsub, hrest⟩ := h.walk_cons hp.1 hpath
      obtain ⟨hframe, hbelow⟩ := Multiset.nodup_cons.mp hnodup
      have hmem : f ∈ branch (table.child i) := by
        rw [hchild]
        exact hsub.mem hp.2 hrest
      cases q with
      | nil =>
        cases Option.some.inj hqf
        exact absurd (mem_labels_succ.mpr ⟨i, hmem⟩) hframe
      | cons j q =>
        obtain ⟨child', sub', hchild', hsub', hrest'⟩ := h.walk_cons hq.1 hqf
        have hmem' : f ∈ branch (table.child j) := by
          rw [hchild']
          exact hsub'.mem hq.2 hrest'
        cases branch_unique hbelow hmem hmem'
        rw [hchild] at hchild'
        cases hchild'
        refine congrArg (· + 1) (ih hsub ?_ hp.2 hq.2 hrest hrest')
        have hle := branch_le table i
        rw [hchild] at hle
        exact Multiset.nodup_of_le hle hbelow

/-- One entry of a table is filled, with a subtree that stands. -/
theorem Stands.set {child : PhysFrame} (h : Stands entries (level + 1) frame top)
    (hi : InHalf level i) (hentry : entries' frame = update (entries frame) i (.present child))
    (hsub : Stands entries' level child table)
    (hoff : ∀ j ≠ i, ∀ f ∈ branch (top.child j), entries' f = entries f) :
    Stands entries' (level + 1) frame (top.set i (some (child, table))) := by
  intro j
  by_cases hj : j = i
  · subst hj
    rw [child_set_self, hentry, update_self]
    exact ⟨hi, rfl, hsub⟩
  · rw [child_set_of_ne hj, hentry, update_of_ne hj]
    cases hchild : top.child j with
    | none => exact h.vacant hchild
    | some entry =>
      obtain ⟨hhalf, hpresent, hstands⟩ := h.filled hchild
      refine ⟨hhalf, hpresent, hstands.congr fun path f hpath _ hwalk ↦ hoff j hj f ?_⟩
      rw [hchild]
      exact hstands.mem hpath hwalk

/-! What the walk of a teardown reads and frees. -/

variable {indices : List (Fin 512)} {visit : PhysFrame → List Access}

theorem freed_visitTable (h : Stands entries (level + 1) frame top)
    (hindices : ∀ i ∈ indices, InHalf level i)
    (hvisit : ∀ child (sub : Trie (Fin 512) PhysFrame PageFlags level),
      Stands entries level child sub →
      (visit child).filterMap Access.freed = subtreeFrames level child sub) :
    (visitTable entries indices visit frame).filterMap Access.freed =
      indices.flatMap (fun i ↦ entryFrames (top.child i)) ++ [frame] := by
  have hentry : ∀ i ∈ indices, ((entries frame i).frame.elim [] visit).filterMap Access.freed =
      entryFrames (top.child i) := by
    intro i hi
    cases hchild : top.child i with
    | none =>
      rw [h.vacant hchild (hindices i hi)]
      rfl
    | some entry =>
      obtain ⟨-, hpresent, hsub⟩ := h.filled hchild
      rw [hpresent]
      exact hvisit entry.1 entry.2 hsub
  have hflat : (indices.flatMap fun i ↦ (entries frame i).frame.elim [] visit).filterMap
      Access.freed = indices.flatMap fun i ↦ entryFrames (top.child i) := by
    rw [List.filterMap_flatMap]
    exact List.flatMap_congr hentry
  rw [visitTable, List.cons_append, List.filterMap_cons_none rfl, List.filterMap_append, hflat]
  rfl

theorem inHalf (hlevel : level < 3) (i : Fin 512) : InHalf level i := by
  rintro rfl
  exact absurd hlevel (lt_irrefl 3)

theorem freed_freeSubtree (hlevel : level < 3) (h : Stands entries (level + 1) frame top) :
    (freeSubtree entries (level + 1) frame).filterMap Access.freed =
      subtreeFrames (level + 1) frame top := by
  induction level generalizing frame with
  | zero => exact freed_visitTable h (fun i _ ↦ inHalf hlevel i) fun child sub _ ↦ rfl
  | succ level ih =>
    exact freed_visitTable h (fun i _ ↦ inHalf hlevel i) fun child sub hsub ↦
      ih (by omega) hsub

theorem mem_userEntries (hi : i ∈ userEntries) : i.val < 256 := by
  obtain ⟨k, hk, rfl⟩ := List.getElem_of_mem hi
  simp [userEntries] at hk ⊢
  omega

theorem read_visitTable (hindices : ∀ i ∈ indices, InHalf level i)
    (hvisit : ∀ child, f ∈ (visit child).filterMap Access.table →
      ∃ path, Within level path ∧ path.length < level ∧ walk entries child path = some f)
    (h : f ∈ (visitTable entries indices visit frame).filterMap Access.table) :
    ∃ path, Within (level + 1) path ∧ path.length < level + 1 ∧
      walk entries frame path = some f := by
  obtain ⟨access, haccess, hread⟩ := List.mem_filterMap.mp h
  rw [visitTable, List.cons_append, List.mem_cons, List.mem_append] at haccess
  rcases haccess with rfl | hbelow | hlast
  · cases hread
    exact ⟨[], trivial, Nat.succ_pos level, rfl⟩
  · obtain ⟨i, hi, hmem⟩ := List.mem_flatMap.mp hbelow
    cases hchild : (entries frame i).frame with
    | none =>
      rw [hchild] at hmem
      cases hmem
    | some child =>
      rw [hchild] at hmem
      obtain ⟨path, hpath, hlen, hwalk⟩ :=
        hvisit child (List.mem_filterMap.mpr ⟨access, hmem, hread⟩)
      refine ⟨i :: path, ⟨hindices i hi, hpath⟩, Nat.succ_lt_succ hlen, ?_⟩
      rw [walk, hchild]
      exact hwalk
  · cases List.mem_singleton.mp hlast
    cases hread

theorem read_freeSubtree (hlevel : level < 3)
    (h : f ∈ (freeSubtree entries (level + 1) frame).filterMap Access.table) :
    ∃ path, Within (level + 1) path ∧ path.length < level + 1 ∧
      walk entries frame path = some f := by
  induction level generalizing frame with
  | zero => exact read_visitTable (fun i _ ↦ inHalf hlevel i) (fun child hmem ↦ by cases hmem) h
  | succ level ih =>
    exact read_visitTable (fun i _ ↦ inHalf hlevel i) (fun child hmem ↦ ih (by omega) hmem) h

theorem read_dropSpace (h : f ∈ (dropSpace entries frame).filterMap Access.table) :
    ∃ path, Within 4 path ∧ path.length < 4 ∧ walk entries frame path = some f :=
  read_visitTable (fun _ hi _ ↦ mem_userEntries hi) (fun _ ↦ read_freeSubtree (by decide)) h

end Stands

namespace TableMemory

/-- The memory of the tree model; it keeps the contents of the tables in the tree. -/
def ram (m : TableMemory W) : Ram W := ⟨m.allocator, fun _ _ ↦ 0⟩

end TableMemory

/-- The mapper on tables in memory does what it does to the tree that stands there. -/
class TableMapper [Mapper] where
  mapIn {W : ℕ} (m : TableMemory W) (pml4 : PhysFrame) (page : Page) (frame : PhysFrame) :
    Except MapError Unit × TableMemory W
  refines {W : ℕ} {m : TableMemory W} {space : AddressSpace}
    (hstands : Stands m.entries 4 space.pml4Frame space.table)
    (hnodup : (space.owned + m.ram.free.val).Nodup) (page : Page) (frame : PhysFrame)
    (flags : PageFlags) :
    (mapIn m space.pml4Frame page frame).1 = (space.map page frame flags m.ram).1 ∧
      (mapIn m space.pml4Frame page frame).2.allocator =
        (space.map page frame flags m.ram).2.2.allocator ∧
      Stands (mapIn m space.pml4Frame page frame).2.entries 4 space.pml4Frame
        (space.map page frame flags m.ram).2.1.table

namespace TableMemory

variable {m m' : TableMemory W} {frame : PhysFrame}

theorem inHalf_path (page : Page) (level : ℕ) : InHalf level (page.path level) := by
  rintro rfl
  exact page.path_three_lt

def setEntry (m : TableMemory W) (table : PhysFrame) (i : Fin 512) (entry : PageTableEntry) :
    TableMemory W :=
  { m with entries := update m.entries table (update (m.entries table) i entry) }

/-- The mapper's `create_next_table`. -/
def createNextTable (m : TableMemory W) (table : PhysFrame) (i : Fin 512) :
    Except MapError PhysFrame × TableMemory W :=
  match m.entries table i with
  | .present next => (.ok next, m)
  | .refused => (.error .alreadyMapped, m)
  | .unused =>
    match m.allocator.allocateFrame with
    | (none, allocator) => (.error .outOfMemory, { m with allocator := allocator })
    | (some next, allocator) =>
      (.ok next, (setEntry { m with allocator := allocator } table i (.present next)).zero next)

/-- The mapper's `map_to`, from a table of a level down. -/
def mapTo (page : Page) (frame : PhysFrame) : ℕ → PhysFrame → TableMemory W →
    Except MapError Unit × TableMemory W
  | 0, table, m =>
    match m.entries table (page.path 0) with
    | .unused => (.ok (), m.setEntry table (page.path 0) (.present frame))
    | _ => (.error .alreadyMapped, m)
  | level + 1, table, m =>
    match m.createNextTable table (page.path (level + 1)) with
    | (.error e, m) => (.error e, m)
    | (.ok next, m) => mapTo page frame level next m

theorem mapTo_refines (page : Page) (frame : PhysFrame) {n : ℕ} {table : PhysFrame}
    {t : Trie (Fin 512) PhysFrame PageFlags (n + 1)} {ram : Ram W} (flags : PageFlags)
    (hstands : Stands m.entries (n + 1) table t)
    (hram : ram.allocator = m.allocator)
    (hnodup : (table ::ₘ t.labels (n + 1) + ram.free.val).Nodup) :
    (mapTo page frame n table m).1 =
        (Trie.insert Ram.tables n t page.path frame flags ram).1.mapError mapErrorFrom ∧
      (mapTo page frame n table m).2.allocator =
        (Trie.insert Ram.tables n t page.path frame flags ram).2.2.allocator ∧
      Stands (mapTo page frame n table m).2.entries (n + 1) table
        (Trie.insert Ram.tables n t page.path frame flags ram).2.1 ∧
      ∀ f, f ∉ table ::ₘ t.labels (n + 1) + ram.free.val →
        (mapTo page frame n table m).2.entries f = m.entries f := by
  induction n generalizing table m ram with
  | zero =>
    rw [Trie.insert, mapTo]
    cases hchild : t.child (page.path 0) with
    | some entry =>
      rw [(hstands.filled hchild).2.1]
      exact ⟨rfl, hram.symm, hstands, fun _ _ ↦ rfl⟩
    | none =>
      rw [hstands.vacant hchild (inHalf_path page 0)]
      refine ⟨rfl, hram.symm, hstands.set (inHalf_path page 0) (update_self ..) trivial ?_, ?_⟩
      · intro j _ f hf
        refine update_of_ne ?_ ..
        rintro rfl
        rw [Multiset.cons_add, Multiset.nodup_cons] at hnodup
        exact hnodup.1 (Multiset.mem_add.mpr (.inl (Trie.mem_labels_succ.mpr ⟨j, hf⟩)))
      · intro f hf
        refine update_of_ne ?_ ..
        rintro rfl
        exact hf (by simp)
  | succ n ih =>
    obtain ⟨hown, -, hdisjoint⟩ := Multiset.nodup_add.mp hnodup
    obtain ⟨htable, hlabels⟩ := Multiset.nodup_cons.mp hown
    have hout : ∀ f ∈ table ::ₘ t.labels (n + 2), f ∉ ram.free.val :=
      fun f hf ↦ Multiset.disjoint_left.mp hdisjoint hf
    rw [Trie.insert, mapTo, createNextTable]
    cases hchild : t.child (page.path (n + 1)) with
    | some entry =>
      obtain ⟨hi, hentry, hsub⟩ := hstands.filled hchild
      have hle := Trie.branch_le t (page.path (n + 1))
      rw [hchild] at hle
      have hsmall : entry.1 ::ₘ entry.2.labels (n + 1) + ram.free.val ≤
          table ::ₘ t.labels (n + 2) + ram.free.val :=
        Multiset.add_le_add_right (hle.trans (Multiset.le_cons_self _ _))
      obtain ⟨hresult, hallocator, hbelow, hoff⟩ := ih hsub hram (Multiset.nodup_of_le hsmall hnodup)
      rw [hentry]
      refine ⟨hresult, hallocator, hstands.set hi ?_ hbelow fun j hj f hf ↦ hoff f ?_,
        fun f hf ↦ hoff f fun hmem ↦ hf (Multiset.mem_of_le hsmall hmem)⟩
      · rw [hoff table, ← hentry, update_eq_self]
        rw [Multiset.mem_add, not_or]
        exact ⟨fun hmem ↦ htable (Multiset.mem_of_le hle hmem), hout table (by simp)⟩
      · rw [Multiset.mem_add, not_or]
        refine ⟨fun hmem ↦ hj (Trie.branch_unique hlabels hf (by rwa [hchild])), hout f ?_⟩
        exact Multiset.mem_cons_of_mem (Trie.mem_labels_succ.mpr ⟨j, hf⟩)
    | none =>
      rw [hstands.vacant hchild (inHalf_path page (n + 1))]
      generalize halloc : m.allocator.allocateFrame = out
      obtain ⟨taken, allocator⟩ := out
      cases taken with
      | none =>
        have htake : Ram.tables.take ram = (none, { ram with allocator := allocator }) := by
          simp only [Ram.tables, Ram.allocateFrame, hram, halloc]
        rw [htake]
        exact ⟨rfl, rfl, hstands, fun _ _ ↦ rfl⟩
      | some new =>
        have hgive : ram.allocateFrame = (some new, { ram with allocator := allocator }) := by
          rw [Ram.allocateFrame, hram, halloc]
        have hfree : ram.free.val = new ::ₘ allocator.free.val := (Ram.allocateFrame_some hgive).1
        have htake : Ram.tables.take ram =
            (some new, Ram.zero { ram with allocator := allocator } new) := by
          simp only [Ram.tables, hgive]
        rw [htake]
        dsimp only
        generalize hnext : (setEntry { m with allocator := allocator } table (page.path (n + 1))
          (.present new)).zero new = next
        have hnew : next.entries new = fun _ ↦ .unused := hnext ▸ update_self ..
        have hne : table ≠ new := by
          rintro rfl
          exact hout table (by simp) (by simp [hfree])
        have hset : next.entries table =
            update (m.entries table) (page.path (n + 1)) (.present new) :=
          hnext ▸ (update_of_ne hne ..).trans (update_self ..)
        have hkept : ∀ f, f ≠ table → f ∉ ram.free.val → next.entries f = m.entries f := by
          intro f hf hnot
          rw [hfree, Multiset.mem_cons, not_or] at hnot
          exact hnext ▸ (update_of_ne hnot.1 ..).trans (update_of_ne hf ..)
        have hempty : new ::ₘ (.empty n : Trie (Fin 512) PhysFrame PageFlags (n + 1)).labels (n + 1) +
            allocator.free.val = ram.free.val := by
          rw [Trie.labels_empty, hfree, Multiset.cons_add, zero_add]
        have hfresh : Stands next.entries (n + 1) new (.empty n) := fun j _ ↦ congrFun hnew j
        have hsame : (Ram.zero { ram with allocator := allocator } new).allocator =
            next.allocator := hnext ▸ rfl
        obtain ⟨hresult, hallocator, hbelow, hoff⟩ := ih hfresh hsame (hempty ▸ ram.free.nodup)
        refine ⟨hresult, hallocator, hstands.set (inHalf_path page (n + 1)) ?_ hbelow ?_, ?_⟩
        · rw [hoff table (hempty ▸ hout table (by simp)), hset]
        · intro j _ f hf
          have hmem := Trie.mem_labels_succ.mpr ⟨j, hf⟩
          have hnot := hout f (Multiset.mem_cons_of_mem hmem)
          rw [hoff f (hempty ▸ hnot), hkept f (fun heq ↦ htable (heq ▸ hmem)) hnot]
        · intro f hf
          rw [Multiset.cons_add, Multiset.mem_cons, Multiset.mem_add, not_or, not_or] at hf
          rw [hoff f (hempty ▸ hf.2.2), hkept f hf.1 hf.2.2]

instance : TableMapper where
  mapIn m pml4 page frame := mapTo page frame 3 pml4 m
  refines hstands hnodup page frame flags := by
    obtain ⟨hresult, hallocator, hafter, -⟩ := mapTo_refines page frame flags hstands rfl hnodup
    exact ⟨hresult, hallocator, hafter⟩

/-- Memory holds the tables of an address space, and its frames are its own. -/
structure Holds (m : TableMemory W) (space : AddressSpace) : Prop where
  stands : Stands m.entries 4 space.pml4Frame space.table
  ordered : Ordered m.ram space.owned

variable {space : AddressSpace}

theorem Holds.owns (h : Holds m space) {f : PhysFrame} :
    m.Owns space.pml4Frame f ↔ f ∈ space.owned := by
  refine ⟨?_, h.stands.exists_walk⟩
  rintro ⟨path, hpath, hwalk⟩
  exact h.stands.mem hpath hwalk

theorem Holds.new {master pml4 : PhysFrame} (hfree : m.allocator.free ⊆ m.allocator.pool)
    (h : m.newSpace master = (.ok pml4, m')) : Holds m' ⟨pml4, .empty 3, lower_empty⟩ := by
  unfold newSpace at h
  split at h
  · cases h
  · rename_i frame allocator halloc
    cases h
    have hram : m.ram.allocateFrame = (some pml4, { m.ram with allocator := allocator }) := by
      rw [Ram.allocateFrame, ram, halloc]
    have hspace : new m.ram =
        (.ok ⟨pml4, .empty 3, lower_empty⟩,
          Ram.zero { m.ram with allocator := allocator } pml4) := by
      rw [new, hram]
    have hspends := new_spends hspace
    have hstart : Ordered m.ram 0 := by
      constructor
      · rw [add_zero]
        exact m.allocator.free.nodup
      · rw [add_zero]
        exact fun f hf ↦ hfree hf
    refine ⟨fun i hi ↦ ?_, (hspends.ordered hstart).mono le_rfl rfl⟩
    simp [zero, update_self, hi rfl]

/-- A frame that is neither free nor owned could be owned too. -/
theorem Holds.ordered_cons (h : Holds m space) (hpool : frame ∈ m.allocator.pool)
    (hfree : frame ∉ m.allocator.free) (hframe : ¬m.Owns space.pml4Frame frame) :
    Ordered m.ram (frame ::ₘ space.owned) := by
  constructor
  · rw [Multiset.add_cons, Multiset.nodup_cons, Multiset.mem_add, not_or]
    exact ⟨⟨hfree, fun hmem ↦ hframe (h.owns.mpr hmem)⟩, h.ordered.nodup⟩
  · intro f hf
    rw [Multiset.add_cons, Multiset.mem_cons] at hf
    rcases hf with rfl | hf
    · exact hpool
    · exact h.ordered.pool f hf

theorem Holds.store (h : Holds m space) {contents : Fin 512 → PageTableEntry}
    (hframe : ∀ path, Within 4 path → walk m.entries space.pml4Frame path = some frame →
      path.length = 4) : Holds { m with entries := update m.entries frame contents } space := by
  refine ⟨h.stands.congr fun path f hpath hlen hwalk ↦ update_of_ne ?_ .., h.ordered⟩
  rintro rfl
  exact hlen.ne (hframe path hpath hwalk)

theorem Holds.freed (h : Holds m space) :
    (dropSpace m.entries space.pml4Frame).filterMap Access.freed = space.dropFrames :=
  freed_visitTable h.stands (fun _ hi _ ↦ mem_userEntries hi) fun _ _ hsub ↦
    freed_freeSubtree (by decide) hsub

section

variable [Mapper] [TableMapper]

def mapIn (m : TableMemory W) (pml4 : PhysFrame) (page : Page) (frame : PhysFrame) :
    Except MapError Unit × TableMemory W :=
  TableMapper.mapIn m pml4 page frame

def next (pml4 : PhysFrame) (m : TableMemory W) : Action → Option (TableMemory W)
  | .map page frame => some (m.mapIn pml4 page frame).2
  | .store frame contents => some { m with entries := update m.entries frame contents }
  | .allocate => some { m with allocator := m.allocator.allocateFrame.2 }
  | .deallocate frame =>
    (m.allocator.deallocateFrame frame).map fun allocator ↦ { m with allocator := allocator }

theorem Holds.map (h : Holds m space) (page : Page) (hpool : frame ∈ m.allocator.pool)
    (hfree : frame ∉ m.allocator.free) (hframe : ¬m.Owns space.pml4Frame frame) :
    ∃ space', space'.pml4Frame = space.pml4Frame ∧
      Holds (m.mapIn space.pml4Frame page frame).2 space' := by
  have hnodup : (space.owned + m.ram.free.val).Nodup := by
    rw [add_comm]
    exact h.ordered.nodup
  obtain ⟨-, hsame, hstands⟩ := TableMapper.refines h.stands hnodup page frame ⟨true, false⟩
  generalize hmap : space.map page frame ⟨true, false⟩ m.ram = out at hsame hstands
  obtain ⟨result, space', ram'⟩ := out
  have hmapped := Mapper.mapped hmap
  obtain ⟨new, hnew, howned⟩ := hmapped.owned
  change (m.mapIn space.pml4Frame page frame).2.allocator = ram'.allocator at hsame
  refine ⟨space', hmapped.root, ⟨?_, (h.ordered_cons hpool hfree hframe).mono ?_ ?_⟩⟩
  · rw [hmapped.root]
    exact hstands
  · have htaken : (if result.isOk then {frame} else 0) ≤ ({frame} : Multiset PhysFrame) := by
      split
      · exact le_rfl
      · exact Multiset.zero_le _
    have hafter : (m.mapIn space.pml4Frame page frame).2.ram.free = ram'.free :=
      congrArg BitmapFrameAllocator.free hsame
    calc (m.mapIn space.pml4Frame page frame).2.ram.free.val + space'.owned
        = (new + ram'.free.val) + space.owned + if result.isOk then {frame} else 0 := by
          rw [hafter, howned]
          abel
      _ ≤ m.ram.free.val + space.owned + {frame} := by
          rw [hnew]
          exact Multiset.add_le_add_left htaken
      _ = m.ram.free.val + frame ::ₘ space.owned := by
          rw [add_assoc, add_comm space.owned, Multiset.singleton_add]
  · rw [ram, hsame, hmapped.pool]

theorem Holds.next {a : Action} (h : Holds m space) (ha : m.Respects space.pml4Frame a)
    (hs : m.next space.pml4Frame a = some m') :
    ∃ space', space'.pml4Frame = space.pml4Frame ∧ Holds m' space' := by
  cases a with
  | map page frame =>
    cases hs
    exact h.map page ha.1 ha.2.1 ha.2.2
  | store frame contents =>
    cases hs
    exact ⟨space, rfl, h.store ha⟩
  | allocate =>
    cases hs
    refine ⟨space, rfl, h.stands, ?_⟩
    generalize halloc : m.allocator.allocateFrame = out
    obtain ⟨taken, allocator⟩ := out
    cases taken with
    | none =>
      cases BitmapFrameAllocator.allocateFrame_unchanged halloc
      exact h.ordered
    | some frame =>
      obtain ⟨-, herase, hkept⟩ := BitmapFrameAllocator.allocateFrame_eq_some halloc
      refine h.ordered.mono (Multiset.add_le_add_right ?_) hkept
      change allocator.free.val ≤ m.allocator.free.val
      rw [herase]
      exact Finset.val_le_iff.mpr (Finset.erase_subset _ _)
  | deallocate frame =>
    obtain ⟨allocator, hdealloc, rfl⟩ := Option.map_eq_some_iff.mp hs
    obtain ⟨hin, hout⟩ := BitmapFrameAllocator.deallocateFrame_eq_some.mp ⟨_, hdealloc⟩
    obtain ⟨hinsert, hkept⟩ := BitmapFrameAllocator.free_deallocateFrame hdealloc
    refine ⟨space, rfl, h.stands, (h.ordered_cons hin hout ha).mono (le_of_eq ?_) hkept⟩
    change allocator.free.val + _ = _
    rw [hinsert, Finset.insert_val_of_notMem hout, Multiset.cons_add, Multiset.add_cons]
    rfl

theorem Holds.reach {pml4 : PhysFrame} (hstart : ∃ space, space.pml4Frame = pml4 ∧ Holds m space)
    (h : Reach (TableMemory.next pml4) (Respects pml4) m m') :
    ∃ space, space.pml4Frame = pml4 ∧ Holds m' space := by
  refine h.invariant (I := fun m ↦ ∃ space, space.pml4Frame = pml4 ∧ Holds m space) hstart ?_
  rintro t a u ⟨space, rfl, ht⟩ ha hs
  exact ht.next ha hs

/-- After any maps, and whatever others do meanwhile with memory that is not the address space's,
its teardown passes every assertion. It frees exactly the frames that the user half leads to, each
once, and it reads no page as a table. -/
theorem drop_frees_once (map : List Entry) (c : Custody W)
    (hboot : Reach Custody.next Custody.Returns (Custody.start map) c)
    (entries : PhysFrame → Fin 512 → PageTableEntry) (master pml4 : PhysFrame) (start m : TableMemory W)
    (hnew : newSpace ⟨c.allocator, entries⟩ master = (.ok pml4, start))
    (hrun : Reach (next pml4) (Respects pml4) start m) :
    (∃ m', m.drop pml4 = some m' ∧ ∀ f, f ∈ m'.allocator.free ↔
        f ∈ m.allocator.free ∨ f ∈ (dropSpace m.entries pml4).filterMap Access.freed) ∧
      ((dropSpace m.entries pml4).filterMap Access.freed).Nodup ∧
      (∀ f, f ∈ (dropSpace m.entries pml4).filterMap Access.freed ↔
        ∃ path, Within 4 path ∧ walk m.entries pml4 path = some f) ∧
      (∀ i : Fin 512, 256 ≤ i.val → ∀ path f, walk m.entries pml4 (i :: path) = some f →
        (∀ path, Within 4 path → walk m.entries pml4 path ≠ some f) →
        f ∉ (dropSpace m.entries pml4).filterMap Access.freed) ∧
      ∀ f ∈ (dropSpace m.entries pml4).filterMap Access.table, ∀ path, Within 4 path →
        path.length = 4 → walk m.entries pml4 path ≠ some f := by
  have hstart : Holds start ⟨pml4, .empty 3, lower_empty⟩ :=
    Holds.new (m := ⟨c.allocator, entries⟩) (Custody.free_subset_pool hboot) hnew
  obtain ⟨space, rfl, h⟩ := Holds.reach ⟨_, rfl, hstart⟩ hrun
  have hnodup : (space.owned + m.ram.free.val).Nodup := by
    rw [add_comm]
    exact h.ordered.nodup
  have hpool : ∀ f ∈ space.owned, f ∈ m.allocator.pool :=
    fun f hf ↦ h.ordered.pool f (Multiset.mem_add.mpr (.inr hf))
  have hfreed : ∀ f, f ∈ (dropSpace m.entries space.pml4Frame).filterMap Access.freed ↔
      ∃ path, Within 4 path ∧ walk m.entries space.pml4Frame path = some f := by
    intro f
    rw [h.freed, ← Multiset.mem_coe, space.coe_dropFrames]
    exact h.owns.symm
  refine ⟨?_, ?_, hfreed, fun i _ path f _ hnot hf ↦ ?_, fun f hf path hpath hlen hwalk ↦ ?_⟩
  · rw [← space.coe_dropFrames, ← h.freed] at hnodup
    change (_ + m.allocator.free.val).Nodup at hnodup
    obtain ⟨allocator, hfold, hfree, -⟩ := foldlM_deallocateFrame _ hnodup
      fun f hf ↦ hpool f (h.owns.mp ((hfreed f).mp hf))
    refine ⟨{ m with allocator := allocator }, ?_, fun f ↦ ?_⟩
    · rw [drop, hfold]
      rfl
    · rw [← Finset.mem_val, hfree, Multiset.mem_add, or_comm]
      rfl
  · rw [h.freed, ← Multiset.coe_nodup, space.coe_dropFrames]
    exact (Multiset.nodup_add.mp hnodup).1
  · obtain ⟨q, hq, hwalk⟩ := (hfreed f).mp hf
    exact hnot q hq hwalk
  · obtain ⟨q, hq, hshort, hread⟩ := read_dropSpace hf
    exact hshort.ne ((h.stands.length_eq (Multiset.nodup_add.mp hnodup).1 hq hpath hread hwalk).trans
      hlen)

end

/-- Of eight frames one is mapped into a new address space, with three tables on the way to it. -/
theorem drop_frees_once_mapped : ∃ c : Custody 1, ∃ m m' : TableMemory 1,
    (Custody.start [⟨0x1000, 0x8000, true⟩]).next .allocate = some c ∧
      newSpace ⟨c.allocator, fun _ _ ↦ .refused⟩ ⟨0⟩ = (.ok ⟨2⟩, m) ∧
      next ⟨2⟩ m (.map (.containingAddress 0x400000) ⟨1⟩) = some m' ∧
      (dropSpace m'.entries ⟨2⟩).filterMap Access.freed = [⟨1⟩, ⟨5⟩, ⟨4⟩, ⟨3⟩, ⟨2⟩] ∧
      ∃ after, m'.drop ⟨2⟩ = some after ∧ ∀ f, f ∈ after.allocator.free ↔
        f ∈ m'.allocator.free ∨ f ∈ [⟨1⟩, ⟨5⟩, ⟨4⟩, ⟨3⟩, ⟨2⟩] := by
  generalize hstart : (Custody.start [⟨0x1000, 0x8000, true⟩] : Custody 1) = first
  obtain ⟨hfirst, hsecond, hpool, hfree⟩ : first.allocator.allocateFrame.1 = some ⟨1⟩ ∧
      first.allocator.allocateFrame.2.allocateFrame.1 = some ⟨2⟩ ∧
      ⟨1⟩ ∈ first.allocator.allocateFrame.2.allocateFrame.2.pool ∧
      ⟨1⟩ ∉ first.allocator.allocateFrame.2.allocateFrame.2.free := by
    rw [BitmapFrameAllocator.mem_pool, BitmapFrameAllocator.mem_free, ← hstart]
    decide +kernel
  have hnext : first.next .allocate =
      some ⟨first.allocator.allocateFrame.2, insert ⟨1⟩ first.held⟩ := by
    rw [Custody.next, ← Prod.mk.eta (p := first.allocator.allocateFrame), hfirst]
  have hboot : Reach Custody.next Custody.Returns _ _ := .one (a := .allocate) trivial hnext
  have hfreed : (dropSpace ((newSpace ⟨first.allocator.allocateFrame.2, fun _ _ ↦ .refused⟩ ⟨0⟩).2.mapIn
      ⟨2⟩ (.containingAddress 0x400000) ⟨1⟩).2.entries ⟨2⟩).filterMap Access.freed =
        [⟨1⟩, ⟨5⟩, ⟨4⟩, ⟨3⟩, ⟨2⟩] := by
    rw [← hstart]
    decide +kernel
  obtain ⟨m, hnew, hallocator⟩ : ∃ m : TableMemory 1,
      newSpace ⟨first.allocator.allocateFrame.2, fun _ _ ↦ .refused⟩ ⟨0⟩ = (.ok ⟨2⟩, m) ∧
        m.allocator = first.allocator.allocateFrame.2.allocateFrame.2 := by
    rw [newSpace, ← Prod.mk.eta (p := first.allocator.allocateFrame.2.allocateFrame), hsecond]
    exact ⟨_, rfl, rfl⟩
  rw [← hallocator] at hpool hfree
  rw [hnew] at hfreed
  subst hstart
  have hstart := Holds.new (m := ⟨_, _⟩) (Custody.free_subset_pool hboot) hnew
  have hnot : ¬m.Owns ⟨2⟩ ⟨1⟩ := by
    rw [hstart.owns, owned_new, Multiset.mem_singleton]
    decide
  have hrun : Reach (next ⟨2⟩) (Respects ⟨2⟩) m
      (m.mapIn ⟨2⟩ (.containingAddress 0x400000) ⟨1⟩).2 :=
    Reach.one (a := .map (.containingAddress 0x400000) ⟨1⟩) ⟨hpool, hfree, hnot⟩ rfl
  have hdrop := (drop_frees_once _ _ hboot _ _ _ m _ hnew hrun).1
  rw [hfreed] at hdrop
  exact ⟨_, m, _, hnext, hnew, rfl, hfreed, hdrop⟩

end TableMemory

end Tarnos.Memory
