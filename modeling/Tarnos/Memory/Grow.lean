import Tarnos.Memory.Virt

namespace Tarnos.Memory

open Foundation Function

variable {W : ℕ}

namespace AddressSpace

variable {space : AddressSpace} {page q : Page}

/-- The tables that mapping a page would have to make, each by its level and the address bits it
stands for. -/
def lacks (space : AddressSpace) (page : Page) : Finset (ℕ × ℕ) :=
  ((Finset.Icc 1 3).filter fun level ↦ space.hasTable page level = false).image
    fun level ↦ (level, page.number / 512 ^ level)

/-- The frames it takes to map a list of pages: one for each, and one for each table that any of
them lacks. -/
def needs (space : AddressSpace) (pages : List Page) : ℕ :=
  pages.length + (pages.toFinset.biUnion space.lacks).card

theorem card_lacks (space : AddressSpace) (page : Page) :
    (space.lacks page).card = space.missingTables page := by
  rw [lacks, Finset.card_image_of_injective, missingTables_eq]
  intro i j h
  exact congrArg Prod.fst h

theorem mem_lacks {x : ℕ × ℕ} : x ∈ space.lacks page ↔
    (1 ≤ x.1 ∧ x.1 ≤ 3) ∧ space.hasTable page x.1 = false ∧ x.2 = page.number / 512 ^ x.1 := by
  rw [lacks, Finset.mem_image]
  constructor
  · rintro ⟨level, hlevel, rfl⟩
    obtain ⟨hrange, hnot⟩ := Finset.mem_filter.mp hlevel
    exact ⟨Finset.mem_Icc.mp hrange, hnot, rfl⟩
  · rintro ⟨hrange, hnot, hbits⟩
    exact ⟨x.1, Finset.mem_filter.mpr ⟨Finset.mem_Icc.mpr hrange, hnot⟩, Prod.ext rfl hbits.symm⟩

theorem hasTable_congr {level : ℕ} (hlevel : level ≤ 3)
    (h : q.number / 512 ^ level = page.number / 512 ^ level) :
    space.hasTable q level = space.hasTable page level := by
  rw [hasTable, hasTable, Trie.label_congr ((Page.agree_iff hlevel).mpr h) hlevel]

theorem needs_cons (space : AddressSpace) (page : Page) (pages : List Page) :
    space.needs (page :: pages) = space.missingTables page + 1 +
      (pages.length + (pages.toFinset.biUnion space.lacks \ space.lacks page).card) := by
  rw [needs, List.length_cons, List.toFinset_cons, Finset.biUnion_insert, ← card_lacks,
    ← Finset.union_sdiff_self_eq_union, Finset.card_union_of_disjoint Finset.disjoint_sdiff]
  omega

theorem needs_le_append (space : AddressSpace) (pages more : List Page) :
    space.needs pages ≤ space.needs (pages ++ more) := by
  rw [needs, needs, List.length_append, List.toFinset_append, Finset.union_biUnion]
  exact Nat.add_le_add (Nat.le_add_right _ _) (Finset.card_le_card Finset.subset_union_left)

end AddressSpace

/-- Why a page could not be backed. -/
inductive GrowError
  | noFrame
  | map (error : MapError)
  deriving DecidableEq, Repr

theorem free_clear (cleared : Bool) (taken : Ram W) (frame : PhysFrame) :
    (if cleared then taken.zero frame else taken).free = taken.free := by
  cases cleared <;> rfl

variable [Mapper]

/-- What `load_segment`, `Process::new` and `sys_sbrk` do for each page: take a frame and map it.
Only `load_segment` clears the frame first. -/
def mapFresh (cleared : Bool) (flags : PageFlags) (page : Page) (space : AddressSpace)
    (ram : Ram W) : Except GrowError Unit × AddressSpace × Ram W :=
  match ram.allocateFrame with
  | (none, ram) => (.error .noFrame, space, ram)
  | (some frame, ram) =>
    let r := space.map page frame flags (if cleared then ram.zero frame else ram)
    (r.1.mapError .map, r.2)

def mapPages (cleared : Bool) (flags : PageFlags) : List Page → AddressSpace → Ram W →
    Except GrowError Unit × AddressSpace × Ram W
  | [], space, ram => (.ok (), space, ram)
  | page :: pages, space, ram =>
    match mapFresh cleared flags page space ram with
    | (.ok (), space, ram) => mapPages cleared flags pages space ram
    | (.error e, space, ram) => (.error e, space, ram)

section Fresh

variable {cleared : Bool} {flags : PageFlags} {page : Page} {space space' : AddressSpace}
  {ram ram' : Ram W} {result : Except GrowError Unit}

/-- Everything that mapping one page can do. A frame is taken before the page is mapped, and if that
fails nobody has it. -/
inductive Maps (cleared : Bool) (flags : PageFlags) (page : Page) (space : AddressSpace)
    (ram : Ram W) : Except GrowError Unit → AddressSpace → Ram W → Prop
  | exhausted (hfree : ram.free = ∅) :
      Maps cleared flags page space ram (.error .noFrame) space ram
  | mapped {frame : PhysFrame} {taken : Ram W} {space' : AddressSpace} {ram' : Ram W}
      (htake : ram.allocateFrame = (some frame, taken))
      (hmap : space.map page frame flags (if cleared then taken.zero frame else taken) =
        (.ok (), space', ram')) : Maps cleared flags page space ram (.ok ()) space' ram'
  | lost {frame : PhysFrame} {taken : Ram W} {space' : AddressSpace} {ram' : Ram W} {e : MapError}
      (htake : ram.allocateFrame = (some frame, taken))
      (hmap : space.map page frame flags (if cleared then taken.zero frame else taken) =
        (.error e, space', ram')) : Maps cleared flags page space ram (.error (.map e)) space' ram'

theorem mapFresh_maps (h : mapFresh cleared flags page space ram = (result, space', ram')) :
    Maps cleared flags page space ram result space' ram' := by
  unfold mapFresh at h
  split at h
  · rename_i taken hnone
    obtain ⟨hfree, rfl⟩ := Ram.allocateFrame_none hnone
    cases h
    exact .exhausted hfree
  · rename_i frame taken hsome
    generalize hmap : space.map page frame flags (if cleared then taken.zero frame else taken) = r at h
    obtain ⟨outcome, next, after⟩ := r
    cases h
    cases outcome with
    | ok => exact .mapped hsome hmap
    | error e => exact .lost hsome hmap

/-- A page can be mapped without losing a frame: there is none to take, or the page is not mapped
and there are enough for it and for the tables it lacks. -/
def Fits (page : Page) (space : AddressSpace) (ram : Ram W) : Prop :=
  ram.free = ∅ ∨ space.translatePage page = none ∧ space.missingTables page + 1 ≤ ram.free.card

theorem Maps.isOk (h : Maps cleared flags page space ram result space' ram') :
    result.isOk = true ↔
      space.translatePage page = none ∧ space.missingTables page + 1 ≤ ram.free.card := by
  have hcount : ∀ {frame : PhysFrame} {taken : Ram W}, ram.allocateFrame = (some frame, taken) →
      ram.free.card = (if cleared then taken.zero frame else taken).free.card + 1 := by
    intro frame taken htake
    have hval := congrArg Multiset.card (Ram.allocateFrame_some htake).1
    rwa [Multiset.card_cons, ← free_clear cleared taken frame] at hval
  cases h with
  | exhausted hfree =>
    refine ⟨fun hok ↦ ?_, fun ⟨_, hroom⟩ ↦ ?_⟩
    · cases hok
    · rw [hfree] at hroom
      exact absurd hroom (Nat.not_succ_le_zero _)
  | mapped htake hmap | lost htake hmap =>
    rw [hcount htake, Nat.succ_le_succ_iff, ← (Mapper.mapped hmap).isOk]
    rfl

theorem Maps.fits_iff (h : Maps cleared flags page space ram result space' ram') :
    Fits page space ram ↔ result.isOk = true ∨ ram.free = ∅ := by
  rw [Fits, h.isOk, or_comm]

theorem Maps.card (h : Maps cleared flags page space ram (.ok ()) space' ram') :
    ram.free.card = space.missingTables page + 1 + ram'.free.card := by
  cases h with
  | mapped htake hmap =>
    have hval := congrArg Multiset.card (Ram.allocateFrame_some htake).1
    have hcard := (Mapper.mapped hmap).card rfl
    rw [free_clear] at hcard
    rw [Multiset.card_cons, Finset.card_val, Finset.card_val] at hval
    omega

/-- What becomes of the frames: those that are no longer free are owned, except for one that was
taken for a page that could not be mapped. -/
theorem Maps.exists_lost (h : Maps cleared flags page space ram result space' ram') :
    ∃ lost, ram.free.val + space.owned = lost + (ram'.free.val + space'.owned) ∧
      (lost = 0 ↔ Fits page space ram) := by
  rw [h.fits_iff]
  cases h with
  | exhausted hfree =>
    exact ⟨0, (zero_add _).symm, fun _ ↦ .inr hfree, fun _ ↦ rfl⟩
  | @mapped frame taken _ _ htake hmap =>
    obtain ⟨new, hfree, howned⟩ := (Mapper.mapped hmap).owned
    rw [free_clear] at hfree
    rw [if_pos (by rfl)] at howned
    refine ⟨0, ?_, fun _ ↦ .inl rfl, fun _ ↦ rfl⟩
    rw [(Ram.allocateFrame_some htake).1, hfree, howned, ← Multiset.singleton_add]
    abel
  | @lost frame taken _ _ e htake hmap =>
    obtain ⟨new, hfree, howned⟩ := (Mapper.mapped hmap).owned
    rw [free_clear] at hfree
    rw [if_neg (by simp [Except.isOk, Except.toBool])] at howned
    refine ⟨{frame}, ?_, fun h ↦ absurd h (Multiset.singleton_ne_zero frame), ?_⟩
    · rw [(Ram.allocateFrame_some htake).1, hfree, howned, ← Multiset.singleton_add]
      abel
    · rintro (hok | hempty)
      · cases hok
      · have hmem := (Ram.allocateFrame_some htake).1
        rw [hempty] at hmem
        exact absurd hmem.symm Multiset.cons_ne_zero

theorem Maps.translatePage (h : Maps cleared flags page space ram result space' ram') (q : Page)
    (hq : result.isOk = true → q ≠ page) : space'.translatePage q = space.translatePage q := by
  cases h with
  | exhausted => rfl
  | mapped _ hmap =>
    rw [(Mapper.mapped hmap).translatePage, if_neg fun h ↦ hq rfl h.2]
  | lost _ hmap =>
    rw [(Mapper.mapped hmap).translatePage, if_neg fun h ↦ by cases h.1]

theorem Maps.isSome_translatePage (h : Maps cleared flags page space ram (.ok ()) space' ram')
    (q : Page) : (space'.translatePage q).isSome ↔ (space.translatePage q).isSome ∨ q = page := by
  cases h with
  | mapped _ hmap =>
    rw [(Mapper.mapped hmap).translatePage]
    by_cases hq : q = page
    · simp [hq, Except.isOk, Except.toBool]
    · simp [hq]

/-- Mapping takes frames from the allocator, at least one if there is one, and writes into no
others. -/
theorem Maps.frames (h : Maps cleared flags page space ram result space' ram') :
    ram'.free ⊆ ram.free ∧ (ram.free ≠ ∅ → ram'.free.card < ram.free.card) ∧
      ram'.allocator.pool = ram.allocator.pool ∧
      ∀ f, (f ∈ ram.free → f ∈ ram'.free) → ram'.bytes f = ram.bytes f := by
  have htaken : ∀ {frame : PhysFrame} {taken next : Ram W} {outcome : Except MapError Unit},
      ram.allocateFrame = (some frame, taken) →
      space.map page frame flags (if cleared then taken.zero frame else taken) =
        (outcome, space', next) →
      next.free ⊆ ram.free ∧ (ram.free ≠ ∅ → next.free.card < ram.free.card) ∧
        next.allocator.pool = ram.allocator.pool ∧
        ∀ f, (f ∈ ram.free → f ∈ next.free) → next.bytes f = ram.bytes f := by
    intro frame taken next outcome htake hmap
    obtain ⟨hfree, hbytes, hpool⟩ := Ram.allocateFrame_some htake
    have hmapped := Mapper.mapped hmap
    have hsub := hmapped.free
    rw [free_clear] at hsub
    have hmem : ∀ f, f ∈ ram.free ↔ f = frame ∨ f ∈ taken.free := by
      intro f
      rw [← Finset.mem_val, hfree, Multiset.mem_cons, Finset.mem_val]
    have hnodup := ram.free.nodup
    rw [hfree, Multiset.nodup_cons] at hnodup
    have hcard := congrArg Multiset.card hfree
    rw [Multiset.card_cons] at hcard
    refine ⟨fun f hf ↦ (hmem f).mpr (.inr (hsub hf)), fun _ ↦ ?_, ?_, fun f hf ↦ ?_⟩
    · exact lt_of_le_of_lt (Finset.card_le_card hsub)
        (Nat.lt_of_lt_of_eq (Nat.lt_succ_self _) hcard.symm)
    · cases cleared <;> exact hmapped.pool.trans hpool
    · have hne : f ≠ frame := by
        rintro rfl
        exact hnodup.1 (hsub (hf ((hmem f).mpr (.inl rfl))))
      have hkept := hmapped.bytes f
      rw [free_clear] at hkept
      rw [hkept fun h ↦ hf ((hmem f).mpr (.inr h)), ← hbytes]
      cases cleared with
      | false => rfl
      | true => exact update_of_ne hne _ _
  cases h with
  | exhausted hfree => exact ⟨Finset.Subset.refl _, fun h ↦ absurd hfree h, rfl, fun _ _ ↦ rfl⟩
  | mapped htake hmap | lost htake hmap => exact htaken htake hmap

end Fresh

section Pages

variable {cleared : Bool} {flags : PageFlags} {page : Page} {pages : List Page}
  {space space' : AddressSpace} {ram ram' : Ram W} {result : Except GrowError Unit}

theorem mapPages_induction {motive : List Page → AddressSpace → Ram W →
      Except GrowError Unit → AddressSpace → Ram W → Prop}
    (done : ∀ space ram, motive [] space ram (.ok ()) space ram)
    (failed : ∀ page pages space ram e space' ram',
      Maps cleared flags page space ram (.error e) space' ram' →
      motive (page :: pages) space ram (.error e) space' ram')
    (more : ∀ page pages space ram next after result space' ram',
      mapFresh cleared flags page space ram = (.ok (), next, after) →
      Maps cleared flags page space ram (.ok ()) next after →
      motive pages next after result space' ram' → motive (page :: pages) space ram result space' ram')
    (h : mapPages cleared flags pages space ram = (result, space', ram')) :
    motive pages space ram result space' ram' := by
  induction pages generalizing space ram with
  | nil =>
    cases h
    exact done _ _
  | cons page pages ih =>
    rw [mapPages] at h
    split at h
    · rename_i next after hmap
      exact more page pages space ram next after result space' ram' hmap (mapFresh_maps hmap) (ih h)
    · rename_i e next after hmap
      cases h
      exact failed page pages space ram e _ _ (mapFresh_maps hmap)

theorem mapPages_frames (h : mapPages cleared flags pages space ram = (result, space', ram')) :
    ram'.free ⊆ ram.free ∧ ram'.allocator.pool = ram.allocator.pool ∧
      ∀ f, (f ∈ ram.free → f ∈ ram'.free) → ram'.bytes f = ram.bytes f := by
  refine mapPages_induction (motive := fun _ _ ram _ _ ram' ↦ ram'.free ⊆ ram.free ∧
    ram'.allocator.pool = ram.allocator.pool ∧
      ∀ f, (f ∈ ram.free → f ∈ ram'.free) → ram'.bytes f = ram.bytes f)
    (fun _ _ ↦ ⟨Finset.Subset.refl _, rfl, fun _ _ ↦ rfl⟩)
    (fun page pages space ram e space' ram' hmaps ↦ ?_)
    (fun page pages space ram next after result space' ram' _ hmaps ih ↦ ?_) h
  · obtain ⟨hsub, -, hpool, hbytes⟩ := hmaps.frames
    exact ⟨hsub, hpool, hbytes⟩
  · obtain ⟨hsub, -, hpool, hbytes⟩ := hmaps.frames
    exact ⟨ih.1.trans hsub, ih.2.1.trans hpool, fun f hf ↦ (ih.2.2 f fun hmem ↦ hf (hsub hmem)).trans
      (hbytes f fun hmem ↦ ih.1 (hf hmem))⟩

theorem mapPages_card (hne : pages ≠ []) (hfree : ram.free ≠ ∅)
    (h : mapPages cleared flags pages space ram = (result, space', ram')) :
    ram'.free.card < ram.free.card := by
  cases pages with
  | nil => exact absurd rfl hne
  | cons page pages =>
    rw [mapPages] at h
    split at h
    · rename_i next after hmap
      have hless := (mapFresh_maps hmap).frames.2.1 hfree
      exact lt_of_le_of_lt (Finset.card_le_card (mapPages_frames h).1) hless
    · rename_i e next after hmap
      cases h
      exact (mapFresh_maps hmap).frames.2.1 hfree

theorem mapPages_exhausted (hne : pages ≠ []) (hfree : ram.free = ∅)
    (h : mapPages cleared flags pages space ram = (result, space', ram')) :
    result = .error .noFrame ∧ space' = space ∧ ram' = ram := by
  cases pages with
  | nil => exact absurd rfl hne
  | cons page pages =>
    have hroom : ¬ (space.translatePage page = none ∧
        space.missingTables page + 1 ≤ ram.free.card) := by
      rw [hfree]
      exact fun h ↦ absurd h.2 (Nat.not_succ_le_zero _)
    have hnone : ∀ {frame : PhysFrame} {taken : Ram W}, ram.allocateFrame ≠ (some frame, taken) := by
      intro frame taken htake
      have hval := (Ram.allocateFrame_some htake).1
      rw [hfree] at hval
      exact absurd hval.symm Multiset.cons_ne_zero
    rw [mapPages] at h
    split at h
    · rename_i next after hmap
      exact absurd ((mapFresh_maps hmap).isOk.mp rfl) hroom
    · rename_i e next after hmap
      cases h
      cases mapFresh_maps hmap with
      | exhausted => exact ⟨rfl, rfl, rfl⟩
      | lost htake => exact absurd htake hnone

theorem mapPages_mapped (h : mapPages cleared flags pages space ram = (result, space', ram'))
    (hok : result.isOk = true) (q : Page) :
    (space'.translatePage q).isSome ↔ (space.translatePage q).isSome ∨ q ∈ pages := by
  revert hok
  refine mapPages_induction (motive := fun pages space _ result space' _ ↦ result.isOk = true →
    ((space'.translatePage q).isSome ↔ (space.translatePage q).isSome ∨ q ∈ pages))
    (fun _ _ _ ↦ by simp) (fun page pages space ram e space' ram' hmaps hok ↦ ?_)
    (fun page pages space ram next after result space' ram' _ hmaps ih hok ↦ ?_) h
  · cases hok
  · rw [ih hok, hmaps.isSome_translatePage, List.mem_cons, or_assoc]

end Pages

namespace AddressSpace

variable {space space' : AddressSpace} {page : Page}

theorem lacks_map {frame : PhysFrame} {flags : PageFlags} {ram ram' : Ram W}
    (h : space.map page frame flags ram = (.ok (), space', ram')) (q : Page) :
    space'.lacks q = space.lacks q \ space.lacks page := by
  ext x
  rw [Finset.mem_sdiff, mem_lacks, mem_lacks, mem_lacks]
  constructor
  · rintro ⟨hrange, hnot, hbits⟩
    have hkept := ((Mapper.mapped h).hasTable rfl _ hrange.2 q).not.mp
      (by rw [hnot]; exact Bool.false_ne_true)
    push Not at hkept
    refine ⟨⟨hrange, by simpa using hkept.1, hbits⟩, fun hpage ↦ ?_⟩
    exact hkept.2 (hbits.symm.trans hpage.2.2)
  · rintro ⟨⟨hrange, hnot, hbits⟩, hpage⟩
    refine ⟨hrange, ?_, hbits⟩
    have hnew := ((Mapper.mapped h).hasTable rfl _ hrange.2 q).not.mpr
    rw [Bool.not_eq_true] at hnew
    refine hnew ?_
    rintro (htable | hshare)
    · rw [hnot] at htable
      cases htable
    · refine hpage ⟨hrange, ?_, hbits.trans hshare⟩
      rw [← hasTable_congr hrange.2 hshare]
      exact hnot

theorem needs_map {frame : PhysFrame} {flags : PageFlags} {ram ram' : Ram W}
    (h : space.map page frame flags ram = (.ok (), space', ram')) (pages : List Page) :
    space.needs (page :: pages) = space.missingTables page + 1 + space'.needs pages := by
  have hlacks : pages.toFinset.biUnion space'.lacks =
      pages.toFinset.biUnion space.lacks \ space.lacks page := by
    ext x
    simp only [Finset.mem_biUnion, Finset.mem_sdiff, lacks_map h]
    constructor
    · rintro ⟨q, hq, hx, hnot⟩
      exact ⟨⟨q, hq, hx⟩, hnot⟩
    · rintro ⟨⟨q, hq, hx⟩, hnot⟩
      exact ⟨q, hq, hx, hnot⟩
  rw [needs_cons, needs, hlacks]

end AddressSpace

theorem Maps.needs {cleared : Bool} {flags : PageFlags} {page : Page} {space space' : AddressSpace}
    {ram ram' : Ram W} (h : Maps cleared flags page space ram (.ok ()) space' ram')
    (pages : List Page) :
    space.needs (page :: pages) + ram'.free.card = space'.needs pages + ram.free.card := by
  rw [h.card]
  cases h with
  | mapped _ hmap =>
    rw [AddressSpace.needs_map hmap]
    omega

theorem mapPages_needs {cleared : Bool} {flags : PageFlags} {pages more : List Page}
    {space space' : AddressSpace} {ram ram' : Ram W}
    (h : mapPages cleared flags pages space ram = (.ok (), space', ram')) :
    space.needs (pages ++ more) + ram'.free.card = space'.needs more + ram.free.card := by
  have hall := mapPages_induction (motive := fun pages space ram result space' ram' ↦
    result = .ok () →
      space.needs (pages ++ more) + ram'.free.card = space'.needs more + ram.free.card)
    (fun _ _ _ ↦ rfl) (fun _ _ _ _ _ _ _ _ h ↦ (by cases h)) ?_ h
  · exact hall rfl
  · intro page pages space ram next after result space' ram' _ hmaps ih hok
    have hrest := ih hok
    have hfirst := hmaps.needs (pages ++ more)
    rw [List.cons_append]
    omega

theorem mapPages_isOk {cleared : Bool} {flags : PageFlags} {pages : List Page}
    {space space' : AddressSpace} {ram ram' : Ram W} {result : Except GrowError Unit}
    (hnodup : pages.Nodup) (hunmapped : ∀ page ∈ pages, space.translatePage page = none)
    (h : mapPages cleared flags pages space ram = (result, space', ram')) :
    result.isOk = true ↔ space.needs pages ≤ ram.free.card := by
  induction pages generalizing space ram with
  | nil =>
    cases h
    exact ⟨fun _ ↦ Nat.zero_le _, fun _ ↦ rfl⟩
  | cons page pages ih =>
    obtain ⟨hnot, hnodup⟩ := List.nodup_cons.mp hnodup
    have hpage := hunmapped page List.mem_cons_self
    rw [mapPages] at h
    split at h
    · rename_i next after hmap
      have hmaps := mapFresh_maps hmap
      have hrest : ∀ p ∈ pages, next.translatePage p = none := by
        intro p hp
        rw [hmaps.translatePage p fun _ heq ↦ hnot (heq ▸ hp)]
        exact hunmapped p (List.mem_cons_of_mem _ hp)
      have hneeds := hmaps.needs pages
      rw [ih hnodup hrest h]
      omega
    · rename_i e next after hmap
      cases h
      have hroom := (mapFresh_maps hmap).isOk.not.mp (by simp [Except.isOk, Except.toBool])
      refine ⟨fun hok ↦ ?_, fun hneeds ↦ ?_⟩
      · cases hok
      · rw [AddressSpace.needs_cons] at hneeds
        exact absurd ⟨hpage, le_trans (Nat.le_add_right _ _) hneeds⟩ hroom

end Tarnos.Memory
