import Tarnos.Memory.Grow

namespace Tarnos.Memory

open Foundation Function AddressSpace

variable {W : ℕ}

/-- The point at which a frame is about to be taken for a page. -/
structure Site (W : ℕ) where
  cleared : Bool
  flags : PageFlags
  page : Page
  space : AddressSpace
  ram : Ram W

/-- Every frame that is free or held is so once, and the allocator takes it back. -/
structure Ordered (ram : Ram W) (held : Multiset PhysFrame) : Prop where
  nodup : (ram.free.val + held).Nodup
  pool : ∀ frame ∈ ram.free.val + held, frame ∈ ram.allocator.pool

theorem Ordered.mono {ram ram' : Ram W} {held held' : Multiset PhysFrame} (h : Ordered ram held)
    (hle : ram'.free.val + held' ≤ ram.free.val + held)
    (hpool : ram'.allocator.pool = ram.allocator.pool) : Ordered ram' held' :=
  ⟨Multiset.nodup_of_le hle h.nodup, fun frame hframe ↦
    hpool ▸ h.pool frame (Multiset.mem_of_le hle hframe)⟩

theorem Ordered.left {ram : Ram W} {held others : Multiset PhysFrame}
    (h : Ordered ram (held + others)) : Ordered ram held :=
  h.mono (Multiset.add_le_add_left (Multiset.le_add_right held others)) rfl

/-- From one memory to another the free and held frames become fewer by those taken for pages that
did not fit, at some of the given points. -/
structure Spends (ram : Ram W) (held : Multiset PhysFrame) (sites : List (Site W)) (ram' : Ram W)
    (held' : Multiset PhysFrame) : Prop where
  lost : ∃ lost, ram.free.val + held = lost + (ram'.free.val + held') ∧
    (lost = 0 ↔ ∀ site ∈ sites, Fits site.page site.space site.ram)
  pool : ram'.allocator.pool = ram.allocator.pool

namespace Spends

variable {ram ram' next : Ram W} {held held' between : Multiset PhysFrame}
  {sites more : List (Site W)}

theorem refl (ram : Ram W) (held : Multiset PhysFrame) : Spends ram held [] ram held :=
  ⟨⟨0, (zero_add _).symm, by simp⟩, rfl⟩

theorem of_eq (h : ram.free.val + held = ram'.free.val + held')
    (hpool : ram'.allocator.pool = ram.allocator.pool) : Spends ram held [] ram' held' :=
  ⟨⟨0, h.trans (zero_add _).symm, by simp⟩, hpool⟩

theorem trans (h : Spends ram held sites next between) (h' : Spends next between more ram' held') :
    Spends ram held (sites ++ more) ram' held' := by
  obtain ⟨first, hfirst, hfits⟩ := h.lost
  obtain ⟨later, hlater, hfits'⟩ := h'.lost
  refine ⟨⟨first + later, ?_, ?_⟩, h'.pool.trans h.pool⟩
  · rw [hfirst, hlater, add_assoc]
  · rw [add_eq_zero, hfits, hfits', List.forall_mem_append]

theorem add (h : Spends ram held sites ram' held') (others : Multiset PhysFrame) :
    Spends ram (held + others) sites ram' (held' + others) := by
  obtain ⟨lost, hlost, hfits⟩ := h.lost
  refine ⟨⟨lost, ?_, hfits⟩, h.pool⟩
  rw [← add_assoc, hlost, add_assoc, add_assoc]

theorem ordered (h : Spends ram held sites ram' held') (hram : Ordered ram held) :
    Ordered ram' held' := by
  obtain ⟨lost, hlost, -⟩ := h.lost
  refine hram.mono ?_ h.pool
  rw [hlost]
  exact Multiset.le_add_left _ _

end Spends

section

variable {space : AddressSpace} {ram ram' : Ram W}

theorem AddressSpace.new_spends (h : new ram = (.ok space, ram')) :
    Spends ram 0 [] ram' space.owned := by
  unfold new at h
  split at h
  · cases h
  · rename_i frame taken htake
    cases h
    obtain ⟨hfree, -, hpool⟩ := Ram.allocateFrame_some htake
    refine Spends.of_eq ?_ hpool
    rw [owned_new, add_zero, hfree, ← Multiset.singleton_add]
    exact Multiset.add_comm _ _

theorem AddressSpace.drop_spends (h : Ordered ram space.owned) :
    ∃ ram', space.drop ram = some ram' ∧ Spends ram space.owned [] ram' 0 := by
  obtain ⟨hnodup, howned⟩ := h
  have hswap : (space.owned + ram.free.val).Nodup := by
    rw [Multiset.add_comm]
    exact hnodup
  obtain ⟨ram', hdrop, hfree, hpool, -⟩ := @drop_eq _ space ram hswap
    fun frame hframe ↦ howned frame (Multiset.mem_add.mpr (.inr hframe))
  refine ⟨ram', hdrop, Spends.of_eq ?_ hpool⟩
  rw [hfree, add_zero, add_comm]

end

theorem Ram.Agrees.write {ram ram' : Ram W} (h : ram.Agrees ram') (frame : PhysFrame) (offset : ℕ)
    (data : List UInt8) :
    (ram.write frame offset data).Agrees (ram'.write frame offset data) := by
  refine ⟨h.allocator, fun f hf i hi ↦ ?_⟩
  have hsame := h.bytes f hf i hi
  simp only [Ram.write]
  by_cases hframe : f = frame
  · subst hframe
    rw [update_self, update_self, hsame]
  · rw [update_of_ne hframe, update_of_ne hframe, hsame]

/-- The frame about to be taken is cleared, or it holds only zeros. -/
def Site.Clean (site : Site W) : Prop :=
  site.cleared = true ∨ ∀ frame, site.ram.allocateFrame.1 = some frame →
    ∀ i < frameSize, site.ram.bytes frame i = 0

variable [Mapper]

def Site.map (site : Site W) : Except GrowError Unit × AddressSpace × Ram W :=
  mapFresh site.cleared site.flags site.page site.space site.ram

def pageSites (cleared : Bool) (flags : PageFlags) : List Page → AddressSpace → Ram W →
    List (Site W)
  | [], _, _ => []
  | page :: pages, space, ram =>
    ⟨cleared, flags, page, space, ram⟩ ::
      match mapFresh cleared flags page space ram with
      | (.ok (), space, ram) => pageSites cleared flags pages space ram
      | (.error _, _, _) => []

/-- A stretch of code that backs pages, at the points it is indexed by, and fills them. -/
inductive Backing : AddressSpace → Ram W → List (Site W) → AddressSpace → Ram W → Prop
  | done (space : AddressSpace) (ram : Ram W) : Backing space ram [] space ram
  | page {site : Site W} {sites : List (Site W)} {result : Except GrowError Unit}
      {next space' : AddressSpace} {after ram' : Ram W} (h : site.map = (result, next, after))
      (rest : Backing next after sites space' ram') :
      Backing site.space site.ram (site :: sites) space' ram'
  | write {space space' : AddressSpace} {ram ram' : Ram W} {sites : List (Site W)}
      (frame : PhysFrame) (offset : ℕ) (data : List UInt8)
      (rest : Backing space (ram.write frame offset data) sites space' ram') :
      Backing space ram sites space' ram'

section

variable {space space' next : AddressSpace} {ram ram' after : Ram W} {sites more : List (Site W)}

theorem Backing.trans (h : Backing space ram sites next after)
    (h' : Backing next after more space' ram') : Backing space ram (sites ++ more) space' ram' := by
  induction h with
  | done _ _ => exact h'
  | page hmap _ ih => exact .page hmap (ih h')
  | write frame offset data _ ih => exact .write frame offset data (ih h')

theorem mapPages_backing {cleared : Bool} {flags : PageFlags} {pages : List Page}
    {result : Except GrowError Unit}
    (h : mapPages cleared flags pages space ram = (result, space', ram')) :
    Backing space ram (pageSites cleared flags pages space ram) space' ram' := by
  induction pages generalizing space ram with
  | nil =>
    cases h
    exact .done _ _
  | cons page pages ih =>
    rw [mapPages] at h
    rw [pageSites]
    generalize hmap : mapFresh cleared flags page space ram = out at h ⊢
    obtain ⟨result, next, after⟩ := out
    cases result with
    | ok _ =>
      have hsite : Site.map ⟨cleared, flags, page, space, ram⟩ = (.ok (), next, after) := hmap
      exact .page hsite (ih h)
    | error e =>
      cases h
      have hsite : Site.map ⟨cleared, flags, page, space, ram⟩ = (.error e, _, _) := hmap
      exact .page hsite (.done _ _)

theorem Backing.spends (h : Backing space ram sites space' ram') :
    Spends ram space.owned sites ram' space'.owned := by
  induction h with
  | done space ram => exact .refl ram space.owned
  | @page site _ _ next _ after _ hmap _ ih =>
    have hmaps := mapFresh_maps hmap
    obtain ⟨lost, hlost, hfits⟩ := hmaps.exists_lost
    have hfirst : Spends site.ram site.space.owned [site] after next.owned :=
      ⟨⟨lost, hlost, by rw [hfits, List.forall_mem_singleton]⟩, hmaps.frames.2.2.1⟩
    exact hfirst.trans ih
  | write _ _ _ _ ih => exact ⟨ih.lost, ih.pool⟩

end

section

variable {ram ram' : Ram W} {cleared : Bool} {flags : PageFlags}

theorem mapFresh_alike (h : ram.Agrees ram') {page : Page} {space : AddressSpace}
    (hclean : Site.Clean ⟨cleared, flags, page, space, ram⟩)
    (hclean' : Site.Clean ⟨cleared, flags, page, space, ram'⟩) :
    Alike (mapFresh cleared flags page space ram) (mapFresh cleared flags page space ram') := by
  unfold mapFresh
  generalize htake : ram.allocateFrame = out
  obtain ⟨frame, taken⟩ := out
  cases frame with
  | none =>
    obtain ⟨htake', rfl⟩ := h.take_none htake
    rw [htake']
    exact ⟨rfl, rfl, h⟩
  | some frame =>
    obtain ⟨taken', htake', hzero, hkept⟩ := h.take htake
    rw [htake']
    have hagree : (if cleared then taken.zero frame else taken).Agrees
        (if cleared then taken'.zero frame else taken') := by
      cases cleared with
      | true => exact hzero
      | false =>
        refine hkept ?_ ?_
        · exact hclean.resolve_left Bool.false_ne_true frame (congrArg Prod.fst htake)
        · exact hclean'.resolve_left Bool.false_ne_true frame (congrArg Prod.fst htake')
    have hmap := Mapper.alike hagree space page frame flags
    exact ⟨congrArg (Except.mapError GrowError.map) hmap.result, hmap.state, hmap.ram⟩

theorem mapPages_alike (h : ram.Agrees ram') {pages : List Page} {space : AddressSpace}
    (hclean : ∀ site ∈ pageSites cleared flags pages space ram, site.Clean)
    (hclean' : ∀ site ∈ pageSites cleared flags pages space ram', site.Clean) :
    Alike (mapPages cleared flags pages space ram) (mapPages cleared flags pages space ram') := by
  induction pages generalizing space ram ram' with
  | nil => exact ⟨rfl, rfl, h⟩
  | cons page pages ih =>
    rw [pageSites, List.forall_mem_cons] at hclean hclean'
    obtain ⟨result, next, after, after', hout, hout', hram⟩ :=
      (mapFresh_alike h hclean.1 hclean'.1).exists_eq
    have hrest := hclean.2
    have hrest' := hclean'.2
    rw [hout] at hrest
    rw [hout'] at hrest'
    rw [mapPages, mapPages, hout, hout']
    cases result with
    | error e => exact ⟨rfl, rfl, hram⟩
    | ok _ => exact ih hram hrest hrest'

end

end Tarnos.Memory
