import Tarnos.Memory.Tenancy
import Tarnos.Memory.UserRange

namespace Tarnos.Memory

open Arch Foundation Tenancy AddressSpace

variable {W : ℕ} {k : ℕ} {data : List UInt8} {phdr : ProgramHeader} {phdrs : List ProgramHeader}
  {space space' : AddressSpace} {ram ram' mid : Ram W}

/-- The entry point is an address of the lower half in a page that a segment of the image has made
executable. -/
structure Runnable (data : List UInt8) (space : AddressSpace) (entry : ℕ) : Prop where
  canonical : canonical entry = true
  lower : entry < 2 ^ 47
  mapped : ∃ phdr ∈ segments data, phdr.Touches (.containingAddress entry) ∧
    phdr.flags.executable = true ∧ ∃ f, space.entry (.containingAddress entry) = some (f, phdr.flags)

def Header.Enters (header : Header) (data : List UInt8) : Prop :=
  header.eEntry < 2 ^ 47 ∧ ∃ phdr ∈ segments data, phdr.flags.executable = true ∧
    phdr.Touches (.containingAddress header.eEntry)

/-- Loading never panics and leaves a runnable entry point exactly if the entry point of a header
that is accepted lies in a page of an executable segment, should the segments be loadable. -/
theorem load_runnable_iff [Mapper] (data : List UInt8) (space : AddressSpace) (ram : Ram W) :
    ((load data space ram).1 ≠ .error .panic ∧
        ∀ entry, (load data space ram).1 = .ok entry →
          Runnable data (load data space ram).2.1 entry) ↔
      ∀ header, readHeader data = .ok header → Loadable data (segments data) space ram →
        header.Enters data := by
  unfold load
  cases hheader : readHeader data with
  | error fault =>
    refine ⟨fun _ header h ↦ (by cases h), fun _ ↦ ⟨fun hpanic ↦ ?_, fun entry hok ↦ ?_⟩⟩
    · cases hpanic
      exact readHeader_ne_panic hheader
    · cases hok
  | ok header =>
    dsimp only
    generalize hload : loadSegments data header (List.range header.ePhnum) space ram = out
    obtain ⟨result, space', ram'⟩ := out
    obtain ⟨hnoPanic, hiff, hall⟩ := loadSegments_of_readHeader hheader hload
    cases result with
    | error fault =>
      refine ⟨fun _ header' _ hloadable ↦ ?_, fun _ ↦ ⟨fun hpanic ↦ ?_, fun entry hok ↦ ?_⟩⟩
      · cases hiff.mpr hloadable
      · cases hpanic
        exact hnoPanic rfl
      · cases hok
    | ok =>
      dsimp only
      constructor
      · rintro ⟨hpanic, hrunnable⟩ header' h -
        cases h
        by_cases hcanonical : canonical header.eEntry = true
        · rw [if_pos hcanonical] at hrunnable
          obtain ⟨-, hlower, phdr, hmem, htouches, hexec, -⟩ := hrunnable _ rfl
          exact ⟨hlower, phdr, hmem, hexec, htouches⟩
        · rw [if_neg hcanonical] at hpanic
          exact absurd rfl hpanic
      · intro henters
        obtain ⟨hlower, phdr, hmem, hexec, htouches⟩ := henters header rfl (hiff.mp rfl)
        have hcanonical : canonical header.eEntry = true := by
          simp only [canonical, Bool.or_eq_true, decide_eq_true_eq]
          exact .inl hlower
        rw [if_pos hcanonical]
        refine ⟨fun h ↦ (by cases h), fun entry hentry ↦ ?_⟩
        cases hentry
        exact ⟨hcanonical, hlower, phdr, hmem, htouches, hexec,
          ((hall rfl).entry_eq phdr hmem).2 _ htouches⟩

/-- Without segments, an entry point is accepted wherever it is; and one that is no address stops the
kernel. -/
theorem load_hostile :
    (load ((image []).set 29 0x80) (emptySpace ⟨0⟩) (Growth.framesFrom 0)).1 =
        .error .panic ∧
      (load (image []) (emptySpace ⟨0⟩) (Growth.framesFrom 0)).1 = .ok 0x400000 ∧
      ∀ space, ¬ Runnable (image []) space 0x400000 := by
  have hbad : readHeader ((image []).set 29 0x80) = .ok ⟨0x800000400000, 64, 56, 0⟩ := by
    decide +kernel
  have hgood := reads_image.1
  refine ⟨?_, ?_, fun space hrunnable ↦ ?_⟩
  · rw [load, hbad]
    rfl
  · rw [load, hgood]
    rfl
  · obtain ⟨phdr, hmem, -⟩ := hrunnable.mapped
    rw [segments_eq hgood] at hmem
    exact absurd hmem List.not_mem_nil

/-- What a byte of a segment in memory should be: the file's, or zero behind the file's part. -/
def ProgramHeader.Byte (phdr : ProgramHeader) (data : List UInt8) (k : ℕ) (byte : UInt8) : Prop :=
  (k < phdr.pFilesz → data[phdr.pOffset + k]? = some byte) ∧ (phdr.pFilesz ≤ k → byte = 0)

/-- The memory image of the segments: exactly their pages are mapped, between the null page and the
heap, each page for one segment and with its rights, and every byte is the segment's. -/
structure MemoryImage (data : List UInt8) (phdrs : List ProgramHeader) (space : AddressSpace)
    (ram : Ram W) : Prop where
  mapped : ∀ page, space.entry page ≠ none ↔ ∃ phdr ∈ phdrs, phdr.Touches page
  range : ∀ page, space.entry page ≠ none →
    userSpaceMin ≤ page.number * 4096 ∧ page.number * 4096 + 4096 ≤ userSpaceMax
  bytes : ∀ phdr ∈ phdrs, ∀ k < phdr.pMemsz, ∃ f i, space.place (phdr.pVaddr + k) = some (f, i) ∧
    phdr.Byte data k (ram.bytes f i)
  apart : phdrs.Pairwise fun phdr other ↦ ∀ page, ¬ (phdr.Touches page ∧ other.Touches page)
  flags : ∀ phdr ∈ phdrs, ∀ page, phdr.Touches page →
    ∃ f, space.entry page = some (f, ⟨phdr.pFlags.testBit 1, phdr.pFlags.testBit 0⟩) ∧
      space.leaves page.number = some ⟨f, true, phdr.pFlags.testBit 1, true⟩

/-- With the image, the frames it lies in are not free. -/
structure Holds (data : List UInt8) (phdrs : List ProgramHeader) (space : AddressSpace)
    (ram : Ram W) : Prop where
  image : MemoryImage data phdrs space ram
  taken : ∀ page f flags, space.entry page = some (f, flags) → f ∉ ram.free

theorem Checked.range (h : Checked phdr data) {page : Page} (htouches : phdr.Touches page) :
    userSpaceMin ≤ page.number * 4096 ∧ page.number * 4096 + 4096 ≤ userSpaceMax := by
  obtain ⟨k, hk, rfl⟩ := htouches
  have hlt := h.lt hk
  have hlow := h.low
  have hhigh := h.high
  have hmin : userSpaceMin = 4096 := rfl
  have hmax : userSpaceMax = 2 ^ 30 := rfl
  rw [number_containingAddress (by omega)]
  omega

theorem Checked.byte (h : Checked phdr data)
    (hbacks : Backs true phdr.flags phdr.pages space ram space' mid)
    (hcopied : Copied space'.place mid ram' phdr.pVaddr (phdr.file data))
    (hk : k < phdr.pMemsz) : ∃ f i, space'.place (phdr.pVaddr + k) = some (f, i) ∧
      phdr.Byte data k (ram'.bytes f i) := by
  have hlength := h.length_file
  have hfile := h.file
  by_cases hfilesz : k < phdr.pFilesz
  · have hin : k < (phdr.file data).length := by omega
    obtain ⟨⟨f, i⟩, hspot, hread⟩ := hcopied.reads k _ (List.getElem?_eq_getElem hin)
    refine ⟨f, i, hspot, fun _ ↦ ?_, fun hle ↦ absurd hfilesz (Nat.not_lt.mpr hle)⟩
    dsimp only at hread
    rw [hread, ← List.getElem?_eq_getElem hin, ProgramHeader.file, List.getElem?_take_of_lt hfilesz,
      List.getElem?_drop]
  · -- behind the file's part nothing has been copied, and the frame was cleared
    have hmem := h.containing_mem hk
    obtain ⟨f, hentry, -, -, hzero⟩ := hbacks.fresh _ hmem
    have htranslate := translatePage_of_entry hentry
    have hplace : space'.place (phdr.pVaddr + k) = some (f, (phdr.pVaddr + k) % 4096) := by
      rw [place, htranslate, Option.map_some]
    refine ⟨f, _, hplace, fun hlt ↦ absurd hlt hfilesz, fun _ ↦ ?_⟩
    rw [hcopied.others, hzero rfl]
    intro j hj
    rw [← hplace]
    have hj' : j < phdr.pMemsz := by omega
    have hlow := h.lt hj'
    have hlow' := h.lt hk
    refine place_ne hbacks.apart (h.containing_mem hj') hmem (by omega) (by omega) ?_ (by omega)
    obtain ⟨f', hf', -⟩ := hbacks.fresh _ (h.containing_mem hj')
    rw [translatePage_of_entry hf']
    exact Option.some_ne_none f'

theorem Holds.step (h : Holds data phdrs space ram)
    (hone : LoadsOne data phdr space ram space' ram') : Holds data (phdrs ++ [phdr]) space' ram' := by
  have hchecked := hone.checked
  have hsize := hone.size
  obtain ⟨mid, hbacks, hcopied⟩ := hone.filled
  have hfree : ram'.free = mid.free := by
    rw [Ram.free, Ram.free, hcopied.allocator]
  have htouches : ∀ {page}, phdr.Touches page ↔ page ∈ phdr.pages := hchecked.touches_iff hsize
  have hmapped : ∀ page, space'.entry page ≠ none ↔
      ∃ other ∈ phdrs ++ [phdr], other.Touches page := by
    intro page
    by_cases hmem : page ∈ phdr.pages
    · obtain ⟨f, hf, -⟩ := hbacks.fresh page hmem
      rw [hf]
      exact ⟨fun _ ↦ ⟨phdr, List.mem_append_right _ List.mem_cons_self, htouches.mpr hmem⟩,
        fun _ ↦ Option.some_ne_none _⟩
    · rw [hbacks.others page hmem, h.image.mapped page]
      constructor
      · rintro ⟨other, hother, htouch⟩
        exact ⟨other, List.mem_append_left _ hother, htouch⟩
      · rintro ⟨other, hother, htouch⟩
        rcases List.mem_append.mp hother with hother | hnew
        · exact ⟨other, hother, htouch⟩
        · rw [List.mem_singleton.mp hnew] at htouch
          exact absurd (htouches.mp htouch) hmem
  refine ⟨⟨hmapped, ?_, ?_, ?_, ?_⟩, ?_⟩
  · intro page hentry
    by_cases hmem : page ∈ phdr.pages
    · exact hchecked.range (htouches.mpr hmem)
    · rw [hbacks.others page hmem] at hentry
      exact h.image.range page hentry
  · intro other hother k hk
    rcases List.mem_append.mp hother with hother | hnew
    · obtain ⟨f, i, hplace, hbyte⟩ := h.image.bytes other hother k hk
      obtain ⟨frame, htranslate, hspot⟩ := Option.map_eq_some_iff.mp hplace
      cases hspot
      rw [translatePage_eq] at htranslate
      obtain ⟨⟨f, flags⟩, hentry, hframe⟩ := Option.map_eq_some_iff.mp htranslate
      cases hframe
      refine ⟨f, (other.pVaddr + k) % 4096, ?_, ?_⟩
      · rw [place, translatePage_of_entry (hone.keeps hentry), Option.map_some]
      · rwa [hone.bytes fun hin ↦ absurd hin (h.taken _ f flags hentry)]
    · rw [List.mem_singleton.mp hnew] at hk ⊢
      exact hchecked.byte hbacks hcopied hk
  · refine List.pairwise_append.mpr ⟨h.image.apart, List.pairwise_singleton _ _, ?_⟩
    rintro other hother new hnew page ⟨htouch, htouch'⟩
    rw [List.mem_singleton.mp hnew] at htouch'
    exact (h.image.mapped page).mpr ⟨other, hother, htouch⟩
      (hbacks.vacant page (htouches.mp htouch'))
  · intro other hother page htouch
    rcases List.mem_append.mp hother with hother | hnew
    · obtain ⟨f, hentry, -⟩ := h.image.flags other hother page htouch
      exact ⟨f, hone.keeps hentry, leaves_of_entry (hone.keeps hentry)⟩
    · rw [List.mem_singleton.mp hnew] at htouch ⊢
      obtain ⟨f, hentry, -⟩ := hbacks.fresh page (htouches.mp htouch)
      exact ⟨f, hentry, leaves_of_entry hentry⟩
  · intro page f flags hentry
    rw [hfree]
    by_cases hmem : page ∈ phdr.pages
    · obtain ⟨f', hf', -, hout, -⟩ := hbacks.fresh page hmem
      rw [hentry] at hf'
      cases hf'
      exact hout
    · rw [hbacks.others page hmem] at hentry
      exact fun hin ↦ h.taken page f flags hentry (hbacks.free hin)

theorem Holds.run {done : List ProgramHeader} (h : Holds data done space ram)
    (hloads : Loads data phdrs space ram space' ram') : Holds data (done ++ phdrs) space' ram' := by
  induction hloads generalizing done with
  | done =>
    rwa [List.append_nil]
  | @more phdr phdrs space next space' ram mid ram' hone _ ih =>
    have hall := ih (h.step hone)
    rwa [List.append_assoc, List.singleton_append] at hall

/-- An image that is loaded into an empty user half becomes exactly what its segments say. -/
theorem memoryImage_of_load [Mapper] (data : List UInt8) (space : AddressSpace) (ram : Ram W)
    (hempty : ∀ page, space.entry page = none) (entry : ℕ) (space' : AddressSpace) (ram' : Ram W)
    (h : load data space ram = (.ok entry, space', ram')) :
    MemoryImage data (segments data) space' ram' := by
  unfold load at h
  cases hheader : readHeader data with
  | error fault =>
    rw [hheader] at h
    cases h
  | ok header =>
    rw [hheader] at h
    dsimp only at h
    split at h
    · cases h
    · rename_i next after hload
      have hloads := (loadSegments_of_readHeader hheader hload).2.2 rfl
      have hstart : Holds data [] space ram := by
        refine ⟨⟨fun page ↦ ?_, fun page hentry ↦ absurd (hempty page) hentry,
          fun phdr hmem ↦ absurd hmem List.not_mem_nil, .nil,
          fun phdr hmem ↦ absurd hmem List.not_mem_nil⟩, fun page f flags hentry ↦ ?_⟩
        · rw [hempty page]
          exact ⟨fun hne ↦ absurd rfl hne, fun ⟨phdr, hmem, _⟩ ↦ absurd hmem List.not_mem_nil⟩
        · rw [hempty page] at hentry
          cases hentry
      have hholds := hstart.run hloads
      rw [List.nil_append] at hholds
      obtain ⟨-, hrest⟩ := Prod.mk.inj h
      cases hrest
      exact hholds.image

theorem memoryImage_crossing : ∃ space' ram',
    load (image [crossing]) (emptySpace ⟨0⟩) (Growth.framesFrom 16) =
        (.ok 0x400000, space', ram') ∧
      MemoryImage (image [crossing]) [crossing] space' ram' := by
  obtain ⟨-, -, hheader, hsegments, hcheck⟩ := reads_image
  have hempty : ∀ page, (emptySpace ⟨0⟩).entry page = none := fun page ↦ Trie.entry_empty
  have hneeds : (emptySpace ⟨0⟩).needs ([crossing].flatMap ProgramHeader.pages) ≤
      (Growth.framesFrom 16).free.card := by
    rw [Growth.card_framesFrom (by decide)]
    decide +kernel
  have hloadable : Loadable (image [crossing]) (segments (image [crossing]))
      (emptySpace ⟨0⟩) (Growth.framesFrom 16) := by
    rw [hsegments]
    exact ⟨List.forall_mem_singleton.mpr hcheck, by decide +kernel, fun page _ ↦ hempty page, hneeds⟩
  obtain ⟨space', ram', hload, -⟩ := load_ok hheader (by decide) hloadable
  have himage := memoryImage_of_load _ _ _ hempty _ _ _ hload
  rw [hsegments] at himage
  exact ⟨space', ram', hload, himage⟩

end Tarnos.Memory
