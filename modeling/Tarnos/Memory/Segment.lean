import Tarnos.Memory.Elf
import Tarnos.Memory.Image

namespace Tarnos.Memory

open Arch Foundation AddressSpace

variable {W : ℕ} {k : ℕ} {space space' next : AddressSpace} {ram ram' after : Ram W}
  {flags : PageFlags} {page : Page} {pages : List Page} {data : List UInt8} {phdr : ProgramHeader}
  {phdrs : List ProgramHeader} {header : Header} {result : Except Fault Unit}
  {x : PhysFrame × PageFlags} {cleared : Bool}

/-- Pages that had no entry get one with these flags and a frame of their own, which was free before
and may be cleared; everything else stays. -/
structure Backs (cleared : Bool) (flags : PageFlags) (pages : List Page) (space : AddressSpace)
    (ram : Ram W) (space' : AddressSpace) (ram' : Ram W) : Prop where
  vacant : ∀ p ∈ pages, space.entry p = none
  others : ∀ p ∉ pages, space'.entry p = space.entry p
  fresh : ∀ p ∈ pages, ∃ f, space'.entry p = some (f, flags) ∧ f ∈ ram.free ∧ f ∉ ram'.free ∧
    (cleared = true → ∀ i, ram'.bytes f i = 0)
  apart : ∀ p ∈ pages, ∀ q ∈ pages, space'.translatePage p = space'.translatePage q → p = q
  free : ram'.free ⊆ ram.free
  bytes : ∀ f, (f ∈ ram.free → f ∈ ram'.free) → ram'.bytes f = ram.bytes f

theorem AddressSpace.translatePage_of_entry {frame : PhysFrame}
    (h : space.entry page = some (frame, flags)) : space.translatePage page = some frame := by
  rw [translatePage_eq, h, Option.map_some]

theorem AddressSpace.entry_eq_none : space.entry page = none ↔ space.translatePage page = none := by
  rw [translatePage_eq, Option.map_eq_none_iff]

theorem Backs.cons (h : Backs cleared flags [page] space ram next after)
    (h' : Backs cleared flags pages next after space' ram') :
    Backs cleared flags (page :: pages) space ram space' ram' := by
  obtain ⟨frame, hentry, hin, hout, hzero⟩ := h.fresh page List.mem_cons_self
  have hnew : page ∉ pages := by
    intro hmem
    rw [h'.vacant page hmem] at hentry
    cases hentry
  have hkept : space'.entry page = some (frame, flags) := (h'.others page hnew).trans hentry
  have hfirst : ∀ q ∈ pages, space'.translatePage q ≠ space'.translatePage page := by
    intro q hq heq
    obtain ⟨f, hf, hfree, -⟩ := h'.fresh q hq
    rw [translatePage_of_entry hf, translatePage_of_entry hkept] at heq
    cases heq
    exact hout hfree
  refine ⟨?_, ?_, ?_, ?_, h'.free.trans h.free, ?_⟩
  · intro p hp
    rcases List.mem_cons.mp hp with rfl | hp
    · exact h.vacant p List.mem_cons_self
    · have hne : p ∉ [page] := fun heq ↦ hnew (List.mem_singleton.mp heq ▸ hp)
      rw [← h.others p hne]
      exact h'.vacant p hp
  · intro p hp
    rw [List.mem_cons, not_or] at hp
    rw [h'.others p hp.2, h.others p fun heq ↦ hp.1 (List.mem_singleton.mp heq)]
  · intro p hp
    rcases List.mem_cons.mp hp with rfl | hp
    · refine ⟨frame, hkept, hin, fun hfree ↦ hout (h'.free hfree), fun hcleared i ↦ ?_⟩
      rw [h'.bytes frame fun hmem ↦ absurd hmem hout, hzero hcleared]
    · obtain ⟨f, hf, hfree, hrest⟩ := h'.fresh p hp
      exact ⟨f, hf, h.free hfree, hrest⟩
  · intro p hp q hq heq
    rcases List.mem_cons.mp hp with rfl | hp'
    · rcases List.mem_cons.mp hq with rfl | hq'
      · rfl
      · exact absurd heq.symm (hfirst q hq')
    · rcases List.mem_cons.mp hq with rfl | hq'
      · exact absurd heq (hfirst p hp')
      · exact h'.apart p hp' q hq' heq
  · intro f hf
    rw [h'.bytes f fun hmem ↦ hf (h.free hmem), h.bytes f fun hmem ↦ h'.free (hf hmem)]

def AddressSpace.place (space : AddressSpace) (address : ℕ) : Option (PhysFrame × ℕ) :=
  (space.translatePage (.containingAddress address)).map fun frame ↦ (frame, address % 4096)

/-- Over pages that are mapped, the copy loop goes through, and over frames of their own it leaves
the source there. -/
theorem copySegment_copied {vaddr : ℕ} {remaining : List UInt8} (ram : Ram W)
    (hlow : vaddr + remaining.length ≤ 2 ^ 47)
    (hmapped : ∀ a, vaddr ≤ a → a < vaddr + remaining.length →
      space.translatePage (.containingAddress a) ≠ none)
    (hapart : ∀ a b, vaddr ≤ a → a < b → b < vaddr + remaining.length →
      space.place a ≠ space.place b) :
    ∃ ram', copySegment space vaddr remaining ram = .ok ram' ∧
      Copied space.place ram ram' vaddr remaining := by
  fun_induction copySegment space vaddr remaining ram with
  | case1 => exact ⟨_, rfl, .nil _ _ _⟩
  | case2 vaddr remaining ram hne hnone =>
    have hpos := List.length_pos_iff.mpr hne
    exact absurd hnone (hmapped vaddr le_rfl (by omega))
  | case3 vaddr remaining ram hne frame hframe pageOffset chunkLen ih =>
    have hpos := List.length_pos_iff.mpr hne
    have hoffset : pageOffset = vaddr % 4096 := rfl
    have hchunk : chunkLen = min remaining.length (4096 - pageOffset) := rfl
    have hless : pageOffset < 4096 := Nat.mod_lt _ (by decide)
    have hlength : (remaining.take chunkLen).length = chunkLen := by
      rw [List.length_take]
      omega
    rw [List.length_drop] at ih
    obtain ⟨ram', hcopy, hrest⟩ := ih (by omega) (fun a hle hless' ↦ hmapped a (by omega) (by omega))
      fun a b hle hlt hend ↦ hapart a b (by omega) hlt (by omega)
    refine ⟨ram', hcopy, ?_⟩
    have hfirst : Copied space.place ram
        (ram.write frame pageOffset (remaining.take chunkLen)) vaddr (remaining.take chunkLen) := by
      apply Copied.write
      intro k hk
      rw [hlength] at hk
      have hpage : Page.containingAddress (vaddr + k) = .containingAddress vaddr := by
        ext
        simp only [Page.containingAddress]
        omega
      have hspot : (vaddr + k) % 4096 = pageOffset + k := by omega
      rw [place, hpage, hframe, Option.map_some, hspot]
    rw [← List.take_append_drop chunkLen remaining]
    apply hfirst.append
    · rwa [hlength]
    · intro k hk j hj
      rw [hlength] at hk ⊢
      rw [List.length_drop] at hj
      exact hapart _ _ (by omega) (by omega) (by omega)

theorem bind_eq_ok {α β : Type} {x : Except Fault α} {k : α → Except Fault β} {b : β} :
    (x >>= k) = .ok b ↔ ∃ a, x = .ok a ∧ k a = .ok b := by
  cases x with
  | error fault => exact ⟨fun h ↦ (by cases h), fun ⟨_, h, _⟩ ↦ (by cases h)⟩
  | ok a => exact ⟨fun h ↦ ⟨a, rfl, h⟩, fun ⟨_, h, hk⟩ ↦ (by cases h; exact hk)⟩

theorem bind_ne_panic {α β : Type} {x : Except Fault α} {k : α → Except Fault β}
    (hx : x ≠ .error .panic) (hk : ∀ a, x = .ok a → k a ≠ .error .panic) :
    (x >>= k) ≠ .error .panic := by
  cases x with
  | error fault => exact fun h ↦ hx (by cases h; rfl)
  | ok a => exact hk a rfl

theorem require_eq_ok {c : Bool} {e : ElfError} {u : Unit} : require c e = .ok u ↔ c = true := by
  cases c with
  | false => exact ⟨fun h ↦ (by cases h), fun h ↦ (by cases h)⟩
  | true => exact ⟨fun _ ↦ rfl, fun _ ↦ rfl⟩

theorem require_ne_panic {c : Bool} {e : ElfError} : require c e ≠ .error .panic := by
  cases c with
  | false | true => exact fun h ↦ (by cases h)

/-- The little-endian number in some bytes of a file. -/
def field (data : List UInt8) (off size : ℕ) : ℕ :=
  ∑ k ∈ Finset.range size, (data.getD (off + k) 0).toNat * 256 ^ k

/-- The program header at an offset, as the format lays it out. -/
def headerAt (data : List UInt8) (base : ℕ) : ProgramHeader :=
  ⟨field data base 4, field data (base + 4) 4, field data (base + 8) 8, field data (base + 16) 8,
    field data (base + 32) 8, field data (base + 40) 8⟩

/-- The `PT_LOAD` segments of an image that have a size: by the format, the table of headers is at
the offset in bytes 32 to 39, each has as many bytes as 54 and 55 say, and 56 and 57 count them. -/
def segments (data : List UInt8) : List ProgramHeader :=
  ((List.range (field data 56 2)).map fun i ↦
    headerAt data (field data 32 8 + i * field data 54 2)).filter
      fun phdr ↦ phdr.pType = 1 ∧ phdr.pMemsz ≠ 0

theorem leNat_eq_sum {bytes : List UInt8} {n : ℕ} (h : bytes.length ≤ n) :
    leNat bytes = ∑ k ∈ Finset.range n, (bytes.getD k 0).toNat * 256 ^ k := by
  induction bytes generalizing n with
  | nil => simp [leNat_nil]
  | cons byte bytes ih =>
    cases n with
    | zero => cases h
    | succ n =>
      rw [leNat_cons, ih (Nat.le_of_succ_le_succ h), Finset.sum_range_succ', Finset.mul_sum]
      simp [pow_succ', Nat.mul_left_comm, Nat.add_comm]

theorem readLe_ok_iff {off size n : ℕ} :
    readLe data off size = .ok n ↔ off + size ≤ data.length ∧ n = field data off size := by
  have hfield : leNat ((data.drop off).take size) = field data off size := by
    rw [leNat_eq_sum (List.length_take_le size _), field]
    refine Finset.sum_congr rfl fun k hk ↦ ?_
    rw [List.getD_eq_getElem?_getD, List.getElem?_take_of_lt (Finset.mem_range.mp hk),
      List.getElem?_drop, ← List.getD_eq_getElem?_getD]
  rw [readLe, hfield]
  split
  · rename_i h
    rw [Except.ok.injEq, and_iff_right h, eq_comm]
  · rename_i h
    exact ⟨fun h' ↦ (by cases h'), fun h' ↦ absurd h'.1 h⟩

theorem readLe_eq {off size : ℕ} (h : off + size ≤ data.length) :
    readLe data off size = .ok (field data off size) := readLe_ok_iff.mpr ⟨h, rfl⟩

theorem readLe_ne_panic {off size : ℕ} (h : off + size ≤ data.length) :
    readLe data off size ≠ .error .panic := by
  rw [readLe_eq h]
  exact fun h ↦ (by cases h)

/-- What the checks of `load_segment` leave. -/
structure Checked (phdr : ProgramHeader) (data : List UInt8) : Prop where
  low : userSpaceMin ≤ phdr.pVaddr
  high : phdr.pVaddr + phdr.pMemsz ≤ userSpaceMax
  file : phdr.pFilesz ≤ phdr.pMemsz
  inside : phdr.pOffset + phdr.pFilesz ≤ data.length

theorem checked_of_check (h : phdr.check data = .ok ()) : Checked phdr data := by
  obtain ⟨_, -, h⟩ := bind_eq_ok.mp h
  obtain ⟨_, hrange, h⟩ := bind_eq_ok.mp h
  obtain ⟨_, hfile, h⟩ := bind_eq_ok.mp h
  obtain ⟨_, -, hinside⟩ := bind_eq_ok.mp h
  simp only [require_eq_ok, Bool.and_eq_true, decide_eq_true_eq] at hrange hfile hinside
  exact ⟨hrange.1, hrange.2, hfile, hinside⟩

theorem check_ne_panic : phdr.check data ≠ .error .panic :=
  bind_ne_panic require_ne_panic fun _ _ ↦ bind_ne_panic require_ne_panic fun _ _ ↦
    bind_ne_panic require_ne_panic fun _ _ ↦ bind_ne_panic require_ne_panic fun _ _ ↦
      require_ne_panic

theorem readHeader_ne_panic : readHeader data ≠ .error .panic := by
  refine bind_ne_panic require_ne_panic fun _ hlength ↦ ?_
  have hsize : 64 ≤ data.length := of_decide_eq_true (require_eq_ok.mp hlength)
  refine bind_ne_panic require_ne_panic fun _ _ ↦ ?_
  refine bind_ne_panic (readLe_ne_panic (by omega)) fun _ _ ↦ ?_
  refine bind_ne_panic require_ne_panic fun _ _ ↦ ?_
  refine bind_ne_panic (readLe_ne_panic (by omega)) fun _ _ ↦ ?_
  refine bind_ne_panic require_ne_panic fun _ _ ↦ ?_
  refine bind_ne_panic (readLe_ne_panic (by omega)) fun _ _ ↦ ?_
  refine bind_ne_panic (readLe_ne_panic (by omega)) fun _ _ ↦ ?_
  refine bind_ne_panic (readLe_ne_panic (by omega)) fun _ _ ↦ ?_
  refine bind_ne_panic (readLe_ne_panic (by omega)) fun _ _ ↦ ?_
  refine bind_ne_panic (readLe_ne_panic (by omega)) fun _ _ ↦ ?_
  refine bind_ne_panic (readLe_ne_panic (by omega)) fun _ _ ↦ ?_
  refine bind_ne_panic require_ne_panic fun _ _ ↦ ?_
  refine bind_ne_panic require_ne_panic fun _ _ ↦ ?_
  refine bind_ne_panic require_ne_panic fun _ _ ↦ ?_
  refine bind_ne_panic require_ne_panic fun _ _ ↦ ?_
  refine bind_ne_panic require_ne_panic fun _ _ ↦ ?_
  exact fun h ↦ (by cases h)

theorem readHeader_ok (h : readHeader data = .ok header) :
    header = ⟨field data 24 8, field data 32 8, field data 54 2, field data 56 2⟩ ∧
      phdrSize ≤ header.ePhentsize ∧
      header.ePhoff + header.ePhnum * header.ePhentsize ≤ data.length := by
  simp only [readHeader, readU8, readU16, readU64, bind_eq_ok, require_eq_ok, decide_eq_true_eq,
    readLe_ok_iff] at h
  obtain ⟨_, -, _, -, _, -, _, -, _, -, _, -, _, -, _, -, _, ⟨-, rfl⟩, _, ⟨-, rfl⟩, _, ⟨-, rfl⟩, _,
    ⟨-, rfl⟩, _, -, _, -, _, hentsize, _, -, _, hend, hheader⟩ := h
  cases hheader
  exact ⟨rfl, hentsize, hend⟩

theorem readProgramHeader_eq {base : ℕ} (h : base + phdrSize ≤ data.length) :
    readProgramHeader data base = .ok (headerAt data base) := by
  have hsize : phdrSize = 56 := rfl
  simp (disch := omega) only [readProgramHeader, readU32, readU64, readLe_eq]
  rfl

def segmentsAt (data : List UInt8) (header : Header) (indices : List ℕ) : List ProgramHeader :=
  (indices.map fun i ↦ headerAt data (header.base i)).filter ProgramHeader.loads

theorem segments_eq (h : readHeader data = .ok header) :
    segments data = segmentsAt data header (List.range header.ePhnum) := by
  rw [(readHeader_ok h).1, segments, segmentsAt]
  refine List.filter_congr fun phdr _ ↦ ?_
  rw [ProgramHeader.loads, Bool.decide_and]
  rfl

theorem base_le_of_readHeader (h : readHeader data = .ok header) {i : ℕ} (hi : i < header.ePhnum) :
    header.base i + phdrSize ≤ data.length := by
  obtain ⟨-, hentsize, hend⟩ := readHeader_ok h
  have hcount := Nat.mul_le_mul_right header.ePhentsize (Nat.succ_le_of_lt hi)
  rw [Nat.succ_mul] at hcount
  unfold Header.base
  omega

theorem Page.nodup_rangeInclusive (first last : Page) : (rangeInclusive first last).Nodup := by
  refine List.Nodup.map_on (fun i hi j hj heq ↦ ?_) List.nodup_range
  have hlast := last.user
  have hi' := List.mem_range.mp hi
  have hj' := List.mem_range.mp hj
  have hnumber := congrArg Page.number heq
  simp only [containingAddress] at hnumber
  omega

def ProgramHeader.Touches (phdr : ProgramHeader) (page : Page) : Prop :=
  ∃ k < phdr.pMemsz, page = .containingAddress (phdr.pVaddr + k)

theorem number_containingAddress {a : ℕ} (h : a < 2 ^ 47) :
    (Page.containingAddress a).number = a / 4096 := by
  simp only [Page.containingAddress]
  omega

section

variable (h : Checked phdr data)

include h

theorem Checked.lt (hk : k < phdr.pMemsz) : phdr.pVaddr + k < 2 ^ 30 := by
  have hhigh := h.high
  have hmax : userSpaceMax = 2 ^ 30 := rfl
  omega

theorem Checked.mem_pages (hsize : phdr.pMemsz ≠ 0) :
    page ∈ phdr.pages ↔ phdr.pVaddr / 4096 ≤ page.number ∧
      page.number ≤ (phdr.pVaddr + phdr.pMemsz - 1) / 4096 := by
  have hlast := h.lt (show phdr.pMemsz - 1 < phdr.pMemsz by omega)
  have hfirst : (Page.containingAddress phdr.pVaddr).number = phdr.pVaddr / 4096 :=
    number_containingAddress (by omega)
  have hend : (Page.containingAddress (phdr.pVaddr + phdr.pMemsz - 1)).number =
      (phdr.pVaddr + phdr.pMemsz - 1) / 4096 := number_containingAddress (by omega)
  rw [ProgramHeader.pages, Page.rangeInclusive, List.mem_map, hfirst, hend]
  constructor
  · rintro ⟨i, hi, rfl⟩
    rw [List.mem_range] at hi
    rw [number_containingAddress (by omega)]
    omega
  · rintro ⟨hle, hle'⟩
    refine ⟨page.number - phdr.pVaddr / 4096, List.mem_range.mpr (by omega), ?_⟩
    ext
    rw [number_containingAddress (by omega)]
    omega

theorem Checked.touches_iff (hsize : phdr.pMemsz ≠ 0) : phdr.Touches page ↔ page ∈ phdr.pages := by
  rw [h.mem_pages hsize]
  constructor
  · rintro ⟨k, hk, rfl⟩
    have hlt := h.lt hk
    rw [number_containingAddress (by omega)]
    omega
  · rintro ⟨hle, hle'⟩
    have hlast := h.lt (show phdr.pMemsz - 1 < phdr.pMemsz by omega)
    -- the first byte of the segment that is in the page or behind its start
    refine ⟨max phdr.pVaddr (page.number * 4096) - phdr.pVaddr, by omega, ?_⟩
    ext
    rw [number_containingAddress (by omega)]
    omega

theorem Checked.containing_mem (hk : k < phdr.pMemsz) :
    Page.containingAddress (phdr.pVaddr + k) ∈ phdr.pages :=
  (h.touches_iff (by omega)).mp ⟨k, hk, rfl⟩

theorem Checked.length_file : (phdr.file data).length = phdr.pFilesz := by
  have hinside := h.inside
  rw [ProgramHeader.file, List.length_take, List.length_drop]
  omega

end

theorem place_ne {a b : ℕ}
    (hapart : ∀ p ∈ pages, ∀ q ∈ pages, space.translatePage p = space.translatePage q → p = q)
    (hpa : Page.containingAddress a ∈ pages) (hpb : Page.containingAddress b ∈ pages)
    (ha : a < 2 ^ 47) (hb : b < 2 ^ 47)
    (hmapped : space.translatePage (.containingAddress a) ≠ none) (hne : a ≠ b) :
    space.place a ≠ space.place b := by
  intro hplace
  obtain ⟨frame, hframe⟩ := Option.ne_none_iff_exists'.mp hmapped
  rw [place, place, hframe, Option.map_some] at hplace
  obtain ⟨frame', hframe', hspot⟩ := Option.map_eq_some_iff.mp hplace.symm
  rw [Prod.mk.injEq] at hspot
  obtain ⟨rfl, hoffset⟩ := hspot
  have hpage := congrArg Page.number (hapart _ hpa _ hpb (hframe.trans hframe'.symm))
  rw [number_containingAddress ha, number_containingAddress hb] at hpage
  omega

/-- What loading one segment does. -/
structure LoadsOne (data : List UInt8) (phdr : ProgramHeader) (space : AddressSpace) (ram : Ram W)
    (space' : AddressSpace) (ram' : Ram W) : Prop where
  check : phdr.check data = .ok ()
  size : phdr.pMemsz ≠ 0
  filled : ∃ mid, Backs true phdr.flags phdr.pages space ram space' mid ∧
    Copied space'.place mid ram' phdr.pVaddr (phdr.file data)
  needs : ∀ more, space.needs (phdr.pages ++ more) + ram'.free.card =
    space'.needs more + ram.free.card

/-- One segment after another is loaded. -/
inductive Loads (data : List UInt8) : List ProgramHeader → AddressSpace → Ram W → AddressSpace →
    Ram W → Prop
  | done (space : AddressSpace) (ram : Ram W) : Loads data [] space ram space ram
  | more {phdr : ProgramHeader} {phdrs : List ProgramHeader} {space next space' : AddressSpace}
      {ram mid ram' : Ram W} (hone : LoadsOne data phdr space ram next mid)
      (hrest : Loads data phdrs next mid space' ram') : Loads data (phdr :: phdrs) space ram space' ram'

/-- The conditions under which segments can be loaded: each passes the checks, no page is needed
twice or mapped already, and the frames suffice for all pages and the tables they lack. -/
structure Loadable (data : List UInt8) (phdrs : List ProgramHeader) (space : AddressSpace)
    (ram : Ram W) : Prop where
  checks : ∀ phdr ∈ phdrs, phdr.check data = .ok ()
  apart : (phdrs.flatMap ProgramHeader.pages).Nodup
  vacant : ∀ page ∈ phdrs.flatMap ProgramHeader.pages, space.entry page = none
  frames : space.needs (phdrs.flatMap ProgramHeader.pages) ≤ ram.free.card

section

variable (h : LoadsOne data phdr space ram space' ram')

include h

theorem LoadsOne.checked : Checked phdr data :=
  checked_of_check h.check

theorem LoadsOne.entry_eq_none :
    space'.entry page = none ↔ page ∉ phdr.pages ∧ space.entry page = none := by
  obtain ⟨mid, hbacks, -⟩ := h.filled
  by_cases hmem : page ∈ phdr.pages
  · obtain ⟨f, hf, -⟩ := hbacks.fresh page hmem
    rw [hf]
    exact ⟨fun hnone ↦ (by cases hnone), fun hnot ↦ absurd hmem hnot.1⟩
  · rw [hbacks.others page hmem, and_iff_right hmem]

theorem LoadsOne.keeps (hentry : space.entry page = some x) : space'.entry page = some x := by
  obtain ⟨mid, hbacks, -⟩ := h.filled
  rw [hbacks.others page, hentry]
  intro hmem
  rw [hbacks.vacant page hmem] at hentry
  cases hentry

theorem LoadsOne.bytes {f : PhysFrame} (hf : f ∈ ram.free → f ∈ ram'.free) (i : ℕ) :
    ram'.bytes f i = ram.bytes f i := by
  obtain ⟨mid, hbacks, hcopied⟩ := h.filled
  have hlength := h.checked.length_file
  have hfile := h.checked.file
  have hfree : ram'.free = mid.free := congrArg BitmapFrameAllocator.free hcopied.allocator
  rw [hfree] at hf
  rw [hcopied.others f i, hbacks.bytes f hf]
  intro j hj hspot
  obtain ⟨f', hentry, hin, hout, -⟩ :=
    hbacks.fresh _ (h.checked.containing_mem (show j < phdr.pMemsz by omega))
  rw [place, translatePage_of_entry hentry, Option.map_some] at hspot
  cases hspot
  exact hout (hf hin)

theorem LoadsOne.free_subset : ram'.free ⊆ ram.free := by
  obtain ⟨mid, hbacks, hcopied⟩ := h.filled
  rw [Ram.free, hcopied.allocator]
  exact hbacks.free

theorem LoadsOne.loadable_iff :
    Loadable data (phdr :: phdrs) space ram ↔ Loadable data phdrs space' ram' := by
  have hneeds := h.needs (phdrs.flatMap ProgramHeader.pages)
  constructor
  · rintro ⟨hchecks, hapart, hvacant, hframes⟩
    rw [List.flatMap_cons] at hapart hvacant hframes
    obtain ⟨-, hrest, hdisjoint⟩ := List.nodup_append.mp hapart
    refine ⟨fun p hp ↦ hchecks p (List.mem_cons_of_mem _ hp), hrest, fun page hp ↦ ?_, by omega⟩
    exact h.entry_eq_none.mpr ⟨fun hin ↦ hdisjoint page hin page hp rfl,
      hvacant page (List.mem_append_right _ hp)⟩
  · rintro ⟨hchecks, hapart, hvacant, hframes⟩
    obtain ⟨mid, hbacks, -⟩ := h.filled
    refine ⟨List.forall_mem_cons.mpr ⟨h.check, hchecks⟩, ?_, ?_, ?_⟩ <;> rw [List.flatMap_cons]
    · refine List.nodup_append.mpr ⟨Page.nodup_rangeInclusive _ _, hapart, ?_⟩
      rintro page hin _ hp rfl
      exact (h.entry_eq_none.mp (hvacant page hp)).1 hin
    · intro page hp
      rcases List.mem_append.mp hp with hp | hp
      · exact hbacks.vacant page hp
      · exact (h.entry_eq_none.mp (hvacant page hp)).2
    · omega

end

section

variable (h : Loads data phdrs space ram space' ram')

include h

theorem Loads.keeps (hentry : space.entry page = some x) : space'.entry page = some x := by
  induction h with
  | done => exact hentry
  | more hone _ ih => exact ih (hone.keeps hentry)

theorem Loads.entry_eq :
    ∀ phdr ∈ phdrs, Checked phdr data ∧ ∀ page, phdr.Touches page →
      ∃ f, space'.entry page = some (f, phdr.flags) := by
  induction h with
  | done => exact fun phdr hmem ↦ absurd hmem List.not_mem_nil
  | @more phdr phdrs space next space' ram mid ram' hone hrest ih =>
    intro other hmem
    rcases List.mem_cons.mp hmem with rfl | hmem
    · refine ⟨hone.checked, fun page htouches ↦ ?_⟩
      obtain ⟨mid', hbacks, -⟩ := hone.filled
      obtain ⟨f, hf, -⟩ :=
        hbacks.fresh page ((hone.checked.touches_iff hone.size).mp htouches)
      exact ⟨f, hrest.keeps hf⟩
    · exact ih other hmem

theorem Loads.entry_eq_none (hentry : space.entry page = none)
    (hpage : page ∉ phdrs.flatMap ProgramHeader.pages) : space'.entry page = none := by
  induction h with
  | done => exact hentry
  | more hone _ ih =>
    rw [List.flatMap_cons, List.mem_append, not_or] at hpage
    exact ih (hone.entry_eq_none.mpr ⟨hpage.1, hentry⟩) hpage.2

theorem Loads.needs (more : List Page) :
    space.needs (phdrs.flatMap ProgramHeader.pages ++ more) + ram'.free.card =
      space'.needs more + ram.free.card := by
  induction h with
  | done => rfl
  | @more phdr phdrs _ _ _ _ _ _ hone _ ih =>
    have hfirst := hone.needs (phdrs.flatMap ProgramHeader.pages ++ more)
    rw [List.flatMap_cons, List.append_assoc]
    omega

theorem Loads.bytes {f : PhysFrame} (hf : f ∈ ram'.free) (i : ℕ) :
    f ∈ ram.free ∧ ram'.bytes f i = ram.bytes f i := by
  induction h with
  | done => exact ⟨hf, rfl⟩
  | more hone _ ih =>
    obtain ⟨hmid, hbytes⟩ := ih hf
    exact ⟨hone.free_subset hmid, hbytes.trans (hone.bytes (fun _ ↦ hmid) i)⟩

end

theorem copySegment_of_backs (hchecked : Checked phdr data) {mid : Ram W}
    (hbacks : Backs true phdr.flags phdr.pages space ram space' mid) :
    ∃ ram', copySegment space' phdr.pVaddr (phdr.file data) mid = .ok ram' ∧
      Copied space'.place mid ram' phdr.pVaddr (phdr.file data) := by
  have hlength := hchecked.length_file
  have hfile := hchecked.file
  have hpage : ∀ a, phdr.pVaddr ≤ a → a < phdr.pVaddr + (phdr.file data).length →
      a < 2 ^ 47 ∧ Page.containingAddress a ∈ phdr.pages := by
    intro a hle hless
    have hk : a - phdr.pVaddr < phdr.pMemsz := by omega
    have hlt := hchecked.lt hk
    have hmem := hchecked.containing_mem hk
    rw [Nat.add_sub_cancel' hle] at hmem
    exact ⟨by omega, hmem⟩
  have hmapped : ∀ a, phdr.pVaddr ≤ a → a < phdr.pVaddr + (phdr.file data).length →
      space'.translatePage (.containingAddress a) ≠ none := by
    intro a hle hless hnone
    obtain ⟨f, hf, -⟩ := hbacks.fresh _ (hpage a hle hless).2
    rw [translatePage_of_entry hf] at hnone
    cases hnone
  have hhigh := hchecked.high
  have hmax : userSpaceMax = 2 ^ 30 := rfl
  refine copySegment_copied mid (by omega) hmapped fun a b hle hless hend ↦ ?_
  obtain ⟨ha, hpa⟩ := hpage a hle (by omega)
  obtain ⟨hb, hpb⟩ := hpage b (by omega) hend
  exact place_ne hbacks.apart hpa hpb ha hb (hmapped a hle (by omega)) (by omega)

variable [Mapper]

theorem backs_of_maps (h : Maps cleared flags page space ram (.ok ()) next after) :
    Backs cleared flags [page] space ram next after := by
  have hvacant := (h.isOk.mp rfl).1
  obtain ⟨hsub, -, -, hbytes⟩ := h.frames
  cases h with
  | @mapped frame taken _ _ htake hmap =>
    have hfree := (Ram.allocateFrame_some htake).1
    have hnodup := ram.free.nodup
    rw [hfree, Multiset.nodup_cons] at hnodup
    have hmapped := Mapper.mapped hmap
    have htaken := hmapped.free
    have hkept := hmapped.bytes frame
    rw [free_clear] at htaken hkept
    have hentry : ∀ q, next.entry q = if q = page then some (frame, flags) else space.entry q := by
      intro q
      rw [hmapped.entry q]
      simp [Except.isOk, Except.toBool]
    refine ⟨?_, ?_, ?_, ?_, hsub, hbytes⟩
    · intro p hp
      rw [List.mem_singleton.mp hp]
      exact entry_eq_none.mpr hvacant
    · intro p hp
      rw [hentry, if_neg fun heq ↦ hp (List.mem_singleton.mpr heq)]
    · intro p hp
      refine ⟨frame, by rw [hentry, if_pos (List.mem_singleton.mp hp)], ?_,
        fun hin ↦ hnodup.1 (htaken hin), ?_⟩
      · rw [← Finset.mem_val, hfree]
        exact Multiset.mem_cons_self _ _
      · rintro rfl i
        rw [hkept fun hin ↦ absurd hin hnodup.1]
        simp only [if_true, Ram.zero, Function.update_self]
    · intro p hp q hq _
      rw [List.mem_singleton.mp hp, List.mem_singleton.mp hq]

theorem backs_of_mapPages (h : mapPages cleared flags pages space ram = (.ok (), space', ram')) :
    Backs cleared flags pages space ram space' ram' := by
  have hall := mapPages_induction (motive := fun pages space ram result space' ram' ↦
    result = .ok () → Backs cleared flags pages space ram space' ram') ?_ ?_ ?_ h
  · exact hall rfl
  · intro space ram _
    exact ⟨fun p hp ↦ absurd hp List.not_mem_nil, fun _ _ ↦ rfl,
      fun p hp ↦ absurd hp List.not_mem_nil, fun p hp ↦ absurd hp List.not_mem_nil,
      Finset.Subset.refl _, fun _ _ ↦ rfl⟩
  · intro page pages space ram e space' ram' _ hok
    cases hok
  · intro page pages space ram next after result space' ram' _ hmaps ih hok
    exact (backs_of_maps hmaps).cons (ih hok)

theorem loadSegment_cases (hsize : phdr.pMemsz ≠ 0)
    (h : loadSegment phdr data space ram = (result, space', ram')) :
    result ≠ .error .panic ∧ (result = .ok () → LoadsOne data phdr space ram space' ram') := by
  unfold loadSegment at h
  split at h
  · rename_i fault hcheck
    cases h
    refine ⟨fun hpanic ↦ ?_, fun hok ↦ ?_⟩
    · cases hpanic
      exact check_ne_panic hcheck
    · cases hok
  · rename_i hcheck
    have hchecked := checked_of_check hcheck
    split at h
    · cases h
      exact ⟨fun hpanic ↦ (by cases hpanic), fun hok ↦ (by cases hok)⟩
    · rename_i next mid hmap
      have hbacks := backs_of_mapPages hmap
      obtain ⟨ram'', hcopy, hcopied⟩ := copySegment_of_backs hchecked hbacks
      rw [hcopy] at h
      cases h
      refine ⟨fun hpanic ↦ (by cases hpanic), fun _ ↦ ⟨hcheck, hsize, ⟨mid, hbacks, hcopied⟩, ?_⟩⟩
      intro more
      rw [Ram.free, hcopied.allocator]
      exact mapPages_needs hmap

theorem loadSegment_ok (hcheck : phdr.check data = .ok ())
    (hvacant : ∀ page ∈ phdr.pages, space.translatePage page = none)
    (hneeds : space.needs phdr.pages ≤ ram.free.card) :
    ∃ space' ram', loadSegment phdr data space ram = (.ok (), space', ram') := by
  generalize hmap : mapPages true phdr.flags phdr.pages space ram = out
  obtain ⟨result, next, mid⟩ := out
  have hok := (mapPages_isOk (Page.nodup_rangeInclusive _ _) hvacant hmap).mpr hneeds
  cases result with
  | error e => cases hok
  | ok =>
    obtain ⟨ram', hcopy, -⟩ :=
      copySegment_of_backs (checked_of_check hcheck) (backs_of_mapPages hmap)
    refine ⟨next, ram', ?_⟩
    rw [loadSegment, hcheck, hmap]
    dsimp only
    rw [hcopy]

theorem Loadable.head (h : Loadable data (phdr :: phdrs) space ram) :
    ∃ space' ram', loadSegment phdr data space ram = (.ok (), space', ram') := by
  obtain ⟨hchecks, -, hvacant, hframes⟩ := h
  rw [List.flatMap_cons] at hvacant hframes
  exact loadSegment_ok (hchecks phdr List.mem_cons_self)
    (fun page hp ↦ entry_eq_none.mp (hvacant page (List.mem_append_left _ hp)))
    ((space.needs_le_append _ _).trans hframes)

theorem loadSegments_cases {indices : List ℕ}
    (hbase : ∀ i ∈ indices, header.base i + phdrSize ≤ data.length)
    (h : loadSegments data header indices space ram = (result, space', ram')) :
    result ≠ .error .panic ∧
      (result = .ok () ↔ Loadable data (segmentsAt data header indices) space ram) ∧
      (result = .ok () → Loads data (segmentsAt data header indices) space ram space' ram') := by
  induction indices generalizing space ram with
  | nil =>
    cases h
    refine ⟨fun hpanic ↦ (by cases hpanic), ⟨fun _ ↦ ?_, fun _ ↦ rfl⟩, fun _ ↦ .done _ _⟩
    exact ⟨by simp [segmentsAt], by simp [segmentsAt], by simp [segmentsAt], Nat.zero_le _⟩
  | cons i indices ih =>
    obtain ⟨hhere, hrest⟩ := List.forall_mem_cons.mp hbase
    rw [loadSegments, readProgramHeader_eq hhere] at h
    rw [segmentsAt, List.map_cons, List.filter_cons]
    generalize headerAt data (header.base i) = phdr at h
    dsimp only at h
    by_cases hloads : phdr.loads = true
    · rw [if_pos hloads] at h ⊢
      have hsize : phdr.pMemsz ≠ 0 := by
        simp only [ProgramHeader.loads, Bool.and_eq_true, decide_eq_true_eq] at hloads
        exact hloads.2
      generalize hsegment : loadSegment phdr data space ram = out at h
      obtain ⟨outcome, next, mid⟩ := out
      obtain ⟨hnoPanic, hone⟩ := loadSegment_cases hsize hsegment
      cases outcome with
      | error fault =>
        cases h
        refine ⟨hnoPanic, ⟨fun hok ↦ (by cases hok), fun hloadable ↦ ?_⟩, fun hok ↦ (by cases hok)⟩
        obtain ⟨_, _, hok⟩ := hloadable.head
        rw [hsegment] at hok
        cases hok
      | ok =>
        obtain ⟨hresult, hiff, hall⟩ := ih hrest h
        exact ⟨hresult, hiff.trans (hone rfl).loadable_iff.symm, fun hok ↦ .more (hone rfl) (hall hok)⟩
    · rw [if_neg hloads] at h ⊢
      exact ih hrest h

theorem loadSegments_of_readHeader
    (h : readHeader data = .ok header)
    (hload : loadSegments data header (List.range header.ePhnum) space ram = (result, space', ram')) :
    result ≠ .error .panic ∧ (result = .ok () ↔ Loadable data (segments data) space ram) ∧
      (result = .ok () → Loads data (segments data) space ram space' ram') := by
  rw [segments_eq h]
  exact loadSegments_cases (fun i hi ↦ base_le_of_readHeader h (List.mem_range.mp hi)) hload

theorem load_ok (hheader : readHeader data = .ok header)
    (hcanonical : canonical header.eEntry = true) (h : Loadable data (segments data) space ram) :
    ∃ space' ram', load data space ram = (.ok header.eEntry, space', ram') ∧
      Loads data (segments data) space ram space' ram' := by
  generalize hall : loadSegments data header (List.range header.ePhnum) space ram = out
  obtain ⟨result, space', ram'⟩ := out
  obtain ⟨-, hiff, hloads⟩ := loadSegments_of_readHeader hheader hall
  cases hiff.mpr h
  refine ⟨space', ram', ?_, hloads rfl⟩
  rw [load, hheader]
  dsimp only
  rw [hall]
  dsimp only
  rw [if_pos hcanonical]

end Tarnos.Memory
