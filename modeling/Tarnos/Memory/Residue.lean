import Tarnos.Memory.Tenancy

namespace Tarnos.Memory

open Foundation Foundation.Transition Tarnos.Task AddressSpace Growth

variable {W : ℕ} {frame : PhysFrame} {page : Page} {heap : Heap} {ram ram' : Ram W}
  {space : AddressSpace} {data : List UInt8}

theorem new_alike (h : ram.Agrees ram') :
    (new ram).1 = (new ram').1 ∧
      (new ram).2.Agrees (new ram').2 := by
  unfold new
  generalize htake : ram.allocateFrame = out
  obtain ⟨frame, taken⟩ := out
  cases frame with
  | none =>
    obtain ⟨htake', rfl⟩ := h.take_none htake
    rw [htake']
    exact ⟨rfl, h⟩
  | some frame =>
    obtain ⟨taken', htake', hzero, -⟩ := h.take htake
    rw [htake']
    exact ⟨rfl, hzero⟩

theorem free_subset_foldlM {frames : List PhysFrame} {allocator allocator' : BitmapFrameAllocator W}
    (h : frames.foldlM BitmapFrameAllocator.deallocateFrame allocator = some allocator') :
    allocator.free ⊆ allocator'.free := by
  induction frames generalizing allocator with
  | nil =>
    cases h
    exact Finset.Subset.refl _
  | cons frame frames ih =>
    rw [List.foldlM_cons, Option.bind_eq_bind, Option.bind_eq_some_iff] at h
    obtain ⟨next, hnext, hrest⟩ := h
    refine Finset.Subset.trans ?_ (ih hrest)
    rw [(BitmapFrameAllocator.free_deallocateFrame hnext).1]
    exact Finset.subset_insert _ _

theorem drop_alike (h : ram.Agrees ram') (space : AddressSpace) :
    (space.drop ram = none ∧ space.drop ram' = none) ∨
      ∃ next next', space.drop ram = some next ∧ space.drop ram' = some next' ∧
        next.Agrees next' := by
  rw [drop_eq_foldlM, drop_eq_foldlM, ← h.allocator]
  cases hfold : space.dropFrames.foldlM BitmapFrameAllocator.deallocateFrame ram.allocator with
  | none => exact .inl ⟨rfl, rfl⟩
  | some allocator =>
    refine .inr ⟨_, _, rfl, rfl, rfl, fun frame hframe i hi ↦ ?_⟩
    exact h.bytes frame (fun hmem ↦ hframe (free_subset_foldlM hfold hmem)) i hi

section

variable [Mapper]

def Site.MapsTo (site : Site W) (page : Page) (frame : PhysFrame) : Prop :=
  site.page = page ∧ ∃ space ram, site.map = (.ok (), space, ram) ∧
    space.translatePage page = some frame

theorem Backing.mapped {space' : AddressSpace} {sites : List (Site W)}
    (h : Backing space ram sites space' ram') (hpage : space'.translatePage page = some frame) :
    space.translatePage page = some frame ∨ ∃ site ∈ sites, site.MapsTo page frame := by
  induction h with
  | done => exact .inl hpage
  | @page site _ result next _ after _ hmap _ ih =>
    obtain hbefore | ⟨later, hlater, hmaps⟩ := ih hpage
    · by_cases hhere : result.isOk = true ∧ page = site.page
      · obtain ⟨hok, rfl⟩ := hhere
        cases result with
        | error e => cases hok
        | ok => exact .inr ⟨site, List.mem_cons_self, rfl, next, after, hmap, hbefore⟩
      · left
        rw [← hbefore]
        exact ((mapFresh_maps hmap).translatePage page fun hok heq ↦ hhere ⟨hok, heq⟩).symm
    · exact .inr ⟨later, List.mem_cons_of_mem _ hlater, hmaps⟩
  | write _ _ _ _ ih => exact ih hpage

theorem processNew_alike (h : ram.Agrees ram') (entry : ℕ)
    (hclean : ∀ site ∈ pageSites false stackFlags stackPages space ram, site.Clean)
    (hclean' : ∀ site ∈ pageSites false stackFlags stackPages space ram', site.Clean) :
    (processNew space entry ram = none ∧ processNew space entry ram' = none) ∨
      ∃ result next next', processNew space entry ram = some (result, next) ∧
        processNew space entry ram' = some (result, next') ∧ next.Agrees next' := by
  obtain ⟨outcome, next, after, after', hout, hout', hram⟩ :=
    (mapPages_alike h hclean hclean').exists_eq
  rw [processNew, processNew, hout, hout']
  cases outcome with
  | ok => exact .inr ⟨_, _, _, rfl, rfl, hram⟩
  | error e =>
    obtain ⟨hdrop, hdrop'⟩ | ⟨last, last', hdrop, hdrop', hlast⟩ := drop_alike hram next
    · simp only [hdrop, hdrop']
      exact .inl ⟨rfl, rfl⟩
    · simp only [hdrop, hdrop']
      exact .inr ⟨_, _, _, rfl, rfl, hlast⟩

theorem fromElf_alike (h : ram.Agrees ram') (data : List UInt8)
    (hclean : ∀ site ∈ creationSites data ram, site.Clean)
    (hclean' : ∀ site ∈ creationSites data ram', site.Clean) :
    (fromElf data ram = none ∧ fromElf data ram' = none) ∨
      ∃ result next next', fromElf data ram = some (result, next) ∧
        fromElf data ram' = some (result, next') ∧ next.Agrees next' := by
  obtain ⟨hnew, hopened⟩ := new_alike h
  unfold fromElf
  unfold creationSites at hclean hclean'
  generalize new ram = out at hnew hopened hclean ⊢
  generalize new ram' = out' at hnew hopened hclean' ⊢
  obtain ⟨outcome, opened⟩ := out
  obtain ⟨outcome', opened'⟩ := out'
  cases hnew
  cases outcome with
  | error e => exact .inr ⟨_, _, _, rfl, rfl, hopened⟩
  | ok space =>
    obtain ⟨outcome, space', after, after', hout, hout', hram⟩ :=
      (load_alike hopened data space).exists_eq
    simp only [List.forall_mem_append, hout] at hclean ⊢
    simp only [List.forall_mem_append, hout'] at hclean' ⊢
    have hstack := hclean.2
    have hstack' := hclean'.2
    cases outcome with
    | ok entry => exact processNew_alike hram entry hstack hstack'
    | error fault =>
      cases fault with
      | panic => exact .inl ⟨rfl, rfl⟩
      | error e =>
        obtain ⟨hdrop, hdrop'⟩ | ⟨last, last', hdrop, hdrop', hlast⟩ := drop_alike hram space'
        · simp only [hdrop, hdrop']
          exact .inl ⟨rfl, rfl⟩
        · simp only [hdrop, hdrop']
          exact .inr ⟨_, _, _, rfl, rfl, hlast⟩

theorem sysSbrk_alike (h : ram.Agrees ram') (heap : Heap) (increment : UInt64)
    (hclean : ∀ site ∈ sbrkSites heap increment ram, site.Clean)
    (hclean' : ∀ site ∈ sbrkSites heap increment ram', site.Clean) :
    Alike (sysSbrk heap increment ram) (sysSbrk heap increment ram') := by
  unfold sysSbrk
  unfold sbrkSites at hclean hclean'
  cases hends : sbrkEnds heap.heapEnd increment with
  | error e => exact ⟨rfl, rfl, h⟩
  | ok ends =>
    rw [hends] at hclean hclean'
    obtain ⟨outcome, next, after, after', hout, hout', hram⟩ :=
      (mapPages_alike h hclean hclean').exists_eq
    simp only [hout, hout']
    cases outcome with
    | ok | error e => exact ⟨rfl, rfl, hram⟩

end

namespace Tenancy

/-- The same processes on the same tables, in memories that differ at most in free frames. -/
structure Twin (s s' : Tenancy W) : Prop where
  ram : s.ram.Agrees s'.ram
  heaps : s.heaps = s'.heaps

section

variable [Mapper] {s s' t : Tenancy W} {a : Action}

theorem Twin.next (h : Twin s s') (hclean : ∀ site ∈ s.sites a, site.Clean)
    (hclean' : ∀ site ∈ s'.sites a, site.Clean) :
    (s.next a = none ∧ s'.next a = none) ∨
      ∃ t t', s.next a = some t ∧ s'.next a = some t' ∧ Twin t t' := by
  obtain ⟨ram, heaps⟩ := s
  obtain ⟨ram', heaps'⟩ := s'
  obtain ⟨hram, hheaps⟩ := h
  cases hheaps
  cases a with
  | create data =>
    obtain ⟨hnone, hnone'⟩ | ⟨result, next, next', heq, heq', hnext⟩ :=
      fromElf_alike hram data hclean hclean'
    · left
      simp only [Tenancy.next, hnone, hnone', and_self]
    · right
      simp only [Tenancy.next, heq, heq']
      cases result with
      | error e | ok created => exact ⟨_, _, rfl, rfl, hnext, rfl⟩
  | sbrk k increment =>
    simp only [Tenancy.sites, Tenancy.next] at hclean hclean' ⊢
    cases hheap : heaps[k]? with
    | none => exact .inl ⟨rfl, rfl⟩
    | some heap =>
      rw [hheap] at hclean hclean'
      obtain ⟨-, hstate, hnext⟩ := sysSbrk_alike hram heap increment hclean hclean'
      exact .inr ⟨_, _, rfl, rfl, hnext, by rw [hstate]⟩
  | drop k =>
    simp only [Tenancy.next]
    cases heaps[k]? with
    | none => exact .inl ⟨rfl, rfl⟩
    | some heap =>
      obtain ⟨hnone, hnone'⟩ | ⟨next, next', heq, heq', hnext⟩ := drop_alike hram heap.space
      · simp only [hnone, hnone']
        exact .inl ⟨rfl, rfl⟩
      · simp only [heq, heq']
        exact .inr ⟨_, _, rfl, rfl, hnext, rfl⟩
  | write frame offset data =>
    have hsame : ram.free = ram'.free := by
      rw [Ram.free, Ram.free, hram.allocator]
    simp only [Tenancy.next, hsame]
    by_cases hfree : frame ∈ ram'.free
    · simp only [hfree, if_true]
      exact .inl ⟨trivial, trivial⟩
    · simp only [hfree, if_false]
      exact .inr ⟨_, _, rfl, rfl, hram.write frame offset data, rfl⟩

theorem Twin.run {actions : List Action} (h : Twin s s')
    (hclean : ∀ site ∈ runSites s actions, site.Clean)
    (hclean' : ∀ site ∈ runSites s' actions, site.Clean)
    (hrun : run Tenancy.next s actions = some t) :
    ∃ t', Transition.run Tenancy.next s' actions = some t' ∧ Twin t t' := by
  induction actions generalizing s s' with
  | nil =>
    cases hrun
    exact ⟨s', rfl, h⟩
  | cons a actions ih =>
    rw [runSites, List.forall_mem_append] at hclean hclean'
    rw [Transition.run, Option.bind_eq_some_iff] at hrun
    obtain ⟨u, hnext, hrest⟩ := hrun
    obtain ⟨hnone, -⟩ | ⟨v, v', heq, heq', hv⟩ := h.next hclean.1 hclean'.1
    · rw [hnext] at hnone
      cases hnone
    · rw [hnext] at heq
      cases heq
      have hlater := hclean.2
      have hlater' := hclean'.2
      rw [hnext] at hlater
      rw [heq'] at hlater'
      obtain ⟨t', hrun', ht⟩ := ih hv hlater hlater' hrest
      refine ⟨t', ?_, ht⟩
      rw [Transition.run, heq']
      exact hrun'

end

end Tenancy

end Tarnos.Memory
