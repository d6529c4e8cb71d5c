import Tarnos.Foundation.Bytes
import Tarnos.Memory.Backing
import Tarnos.Task.Process

namespace Tarnos.Memory

open Arch Foundation Tarnos.Task

variable {W : ℕ}

def eiMag : List UInt8 := [0x7f, 0x45, 0x4c, 0x46]
def elfClass64 : ℕ := 2
def elfData2Lsb : ℕ := 1
def etExec : ℕ := 2
def emX8664 : ℕ := 62
def ptLoad : ℕ := 1

def ehdrSize : ℕ := 64
def phdrSize : ℕ := 56

def userSpaceMin : ℕ := 0x1000

def userSpaceMax : ℕ := userHeapStart.toNat

inductive ElfError
  | tooShort
  | badMagic
  | notElf64
  | notLittleEndian
  | notExecutable
  | wrongMachine
  | segmentOutOfRange
  | segmentExceedsFile
  | outOfMemory
  | mapFailed
  deriving DecidableEq, Repr

/-- How the loader stops early: with an error of its own, or in a panic. -/
inductive Fault
  | error (e : ElfError)
  | panic
  deriving DecidableEq, Repr

structure ProgramHeader where
  pType : ℕ
  pFlags : ℕ
  pOffset : ℕ
  pVaddr : ℕ
  pFilesz : ℕ
  pMemsz : ℕ
  deriving DecidableEq, Repr

/-- `from_le_bytes` of a slice, which panics outside the data. -/
def readLe (data : List UInt8) (off size : ℕ) : Except Fault ℕ :=
  if off + size ≤ data.length then
    .ok (leNat ((data.drop off).take size))
  else .error .panic

def readU8 (data : List UInt8) (off : ℕ) : Except Fault ℕ := readLe data off 1
def readU16 (data : List UInt8) (off : ℕ) : Except Fault ℕ := readLe data off 2
def readU32 (data : List UInt8) (off : ℕ) : Except Fault ℕ := readLe data off 4
def readU64 (data : List UInt8) (off : ℕ) : Except Fault ℕ := readLe data off 8

/-- What the loader takes from the file's header. -/
structure Header where
  eEntry : ℕ
  ePhoff : ℕ
  ePhentsize : ℕ
  ePhnum : ℕ
  deriving DecidableEq, Repr

def Header.base (header : Header) (i : ℕ) : ℕ := header.ePhoff + i * header.ePhentsize

def require (condition : Bool) (e : ElfError) : Except Fault Unit :=
  if condition then .ok () else .error (.error e)

def readHeader (data : List UInt8) : Except Fault Header := do
  require (ehdrSize ≤ data.length) .tooShort
  require (data.take 4 = eiMag) .badMagic
  require ((← readU8 data 4) = elfClass64) .notElf64
  require ((← readU8 data 5) = elfData2Lsb) .notLittleEndian
  let eType ← readU16 data 16
  let eMachine ← readU16 data 18
  let eEntry ← readU64 data 24
  let ePhoff ← readU64 data 32
  let ePhentsize ← readU16 data 54
  let ePhnum ← readU16 data 56
  require (eType = etExec) .notExecutable
  require (eMachine = emX8664) .wrongMachine
  require (phdrSize ≤ ePhentsize) .tooShort
  require (ePhoff + ePhnum * ePhentsize < 2 ^ 64) .tooShort
  require (ePhoff + ePhnum * ePhentsize ≤ data.length) .tooShort
  return ⟨eEntry, ePhoff, ePhentsize, ePhnum⟩

def readProgramHeader (data : List UInt8) (base : ℕ) : Except Fault ProgramHeader := do
  let pType ← readU32 data base
  let pFlags ← readU32 data (base + 4)
  let pOffset ← readU64 data (base + 8)
  let pVaddr ← readU64 data (base + 16)
  let pFilesz ← readU64 data (base + 32)
  let pMemsz ← readU64 data (base + 40)
  return ⟨pType, pFlags, pOffset, pVaddr, pFilesz, pMemsz⟩

namespace ProgramHeader

def loads (phdr : ProgramHeader) : Bool := phdr.pType = ptLoad && phdr.pMemsz ≠ 0

/-- The checks of `load_segment`. -/
def check (phdr : ProgramHeader) (data : List UInt8) : Except Fault Unit := do
  require (phdr.pVaddr + phdr.pMemsz < 2 ^ 64) .segmentOutOfRange
  require (userSpaceMin ≤ phdr.pVaddr && phdr.pVaddr + phdr.pMemsz ≤ userSpaceMax) .segmentOutOfRange
  require (phdr.pFilesz ≤ phdr.pMemsz) .segmentOutOfRange
  require (phdr.pOffset + phdr.pFilesz < 2 ^ 64) .segmentExceedsFile
  require (phdr.pOffset + phdr.pFilesz ≤ data.length) .segmentExceedsFile

def flags (phdr : ProgramHeader) : PageFlags := ⟨phdr.pFlags.testBit 1, phdr.pFlags.testBit 0⟩

/-- The pages from the one of the first byte to the one of the last. -/
def pages (phdr : ProgramHeader) : List Page :=
  Page.rangeInclusive (.containingAddress phdr.pVaddr)
    (.containingAddress (phdr.pVaddr + phdr.pMemsz - 1))

def file (phdr : ProgramHeader) (data : List UInt8) : List UInt8 :=
  (data.drop phdr.pOffset).take phdr.pFilesz

end ProgramHeader

/-- The copy loop of `load_segment`. -/
def copySegment (space : AddressSpace) (vaddr : ℕ) (remaining : List UInt8) (ram : Ram W) :
    Except Fault (Ram W) :=
  if remaining = [] then .ok ram
  else
    match space.translatePage (.containingAddress vaddr) with
    | none => .error .panic
    | some frame =>
      let pageOffset := vaddr % 4096
      let chunkLen := min remaining.length (4096 - pageOffset)
      copySegment space (vaddr + chunkLen) (remaining.drop chunkLen)
        (ram.write frame pageOffset (remaining.take chunkLen))
termination_by remaining.length
decreasing_by
  have hpos : 0 < remaining.length := List.length_pos_iff.mpr ‹_›
  have hoff : vaddr % 4096 < 4096 := Nat.mod_lt _ (by decide)
  simp only [List.length_drop]
  omega

def elfErrorFrom : GrowError → ElfError
  | .noFrame => .outOfMemory
  | .map _ => .mapFailed

theorem copySegment_agrees {ram ram' : Ram W} (h : ram.Agrees ram') (space : AddressSpace)
    (vaddr : ℕ) (remaining : List UInt8) :
    (∃ next next', copySegment space vaddr remaining ram = .ok next ∧
      copySegment space vaddr remaining ram' = .ok next' ∧ next.Agrees next') ∨
    ∃ fault, copySegment space vaddr remaining ram = .error fault ∧
      copySegment space vaddr remaining ram' = .error fault := by
  fun_induction copySegment space vaddr remaining ram generalizing ram' with
  | case1 =>
    rw [copySegment, if_pos rfl]
    exact .inl ⟨_, ram', rfl, rfl, h⟩
  | case2 vaddr remaining ram hne hnone =>
    rw [copySegment, if_neg hne, hnone]
    exact .inr ⟨.panic, rfl, rfl⟩
  | case3 =>
    rename_i vaddr remaining ram hne frame hframe pageOffset chunkLen ih
    have hstep : copySegment space vaddr remaining ram' =
        copySegment space (vaddr + chunkLen) (remaining.drop chunkLen)
          (ram'.write frame pageOffset (remaining.take chunkLen)) := by
      rw [copySegment, if_neg hne, hframe]
    rw [hstep]
    exact ih (h.write frame _ _)

variable [Mapper]

def loadSegment (phdr : ProgramHeader) (data : List UInt8) (space : AddressSpace) (ram : Ram W) :
    Except Fault Unit × AddressSpace × Ram W :=
  match phdr.check data with
  | .error fault => (.error fault, space, ram)
  | .ok () =>
    match mapPages true phdr.flags phdr.pages space ram with
    | (.error e, space, ram) => (.error (.error (elfErrorFrom e)), space, ram)
    | (.ok (), space, ram) =>
      match copySegment space phdr.pVaddr (phdr.file data) ram with
      | .error fault => (.error fault, space, ram)
      | .ok ram => (.ok (), space, ram)

/-- The loop of `load` over the program headers with the given numbers. -/
def loadSegments (data : List UInt8) (header : Header) : List ℕ → AddressSpace → Ram W →
    Except Fault Unit × AddressSpace × Ram W
  | [], space, ram => (.ok (), space, ram)
  | i :: indices, space, ram =>
    match readProgramHeader data (header.base i) with
    | .error fault => (.error fault, space, ram)
    | .ok phdr =>
      if phdr.loads then
        match loadSegment phdr data space ram with
        | (.error fault, space, ram) => (.error fault, space, ram)
        | (.ok (), space, ram) => loadSegments data header indices space ram
      else loadSegments data header indices space ram

def load (data : List UInt8) (space : AddressSpace) (ram : Ram W) :
    Except Fault ℕ × AddressSpace × Ram W :=
  match readHeader data with
  | .error fault => (.error fault, space, ram)
  | .ok header =>
    match loadSegments data header (List.range header.ePhnum) space ram with
    | (.error fault, space, ram) => (.error fault, space, ram)
    | (.ok (), space, ram) =>
      (if canonical header.eEntry then .ok header.eEntry else .error .panic, space, ram)

/-! The points at which the loader takes a frame. -/

def segmentSites (phdr : ProgramHeader) (data : List UInt8) (space : AddressSpace) (ram : Ram W) :
    List (Site W) :=
  match phdr.check data with
  | .error _ => []
  | .ok () => pageSites true phdr.flags phdr.pages space ram

def segmentsSites (data : List UInt8) (header : Header) : List ℕ → AddressSpace → Ram W →
    List (Site W)
  | [], _, _ => []
  | i :: indices, space, ram =>
    match readProgramHeader data (header.base i) with
    | .error _ => []
    | .ok phdr =>
      if phdr.loads then
        segmentSites phdr data space ram ++
          match loadSegment phdr data space ram with
          | (.error _, _, _) => []
          | (.ok (), space, ram) => segmentsSites data header indices space ram
      else segmentsSites data header indices space ram

def loadSites (data : List UInt8) (space : AddressSpace) (ram : Ram W) : List (Site W) :=
  match readHeader data with
  | .error _ => []
  | .ok header => segmentsSites data header (List.range header.ePhnum) space ram

section

variable {data : List UInt8} {space space' : AddressSpace} {ram ram' : Ram W}

theorem copySegment_backing {vaddr : ℕ} {remaining : List UInt8}
    (h : copySegment space vaddr remaining ram = .ok ram') : Backing space ram [] space ram' := by
  fun_induction copySegment space vaddr remaining ram with
  | case1 =>
    cases h
    exact .done _ _
  | case2 => cases h
  | case3 _ _ _ _ frame _ pageOffset chunkLen ih => exact .write _ _ _ (ih h)

theorem loadSegment_backing {phdr : ProgramHeader} {result : Except Fault Unit}
    (h : loadSegment phdr data space ram = (result, space', ram')) :
    Backing space ram (segmentSites phdr data space ram) space' ram' := by
  unfold loadSegment at h
  unfold segmentSites
  split at h
  · cases h
    exact .done _ _
  · split at h
    · rename_i hmap
      cases h
      exact mapPages_backing hmap
    · rename_i next after hmap
      have hpages := mapPages_backing hmap
      split at h
      · cases h
        exact hpages
      · rename_i hcopy
        cases h
        have hall := hpages.trans (copySegment_backing hcopy)
        rwa [List.append_nil] at hall

theorem loadSegments_backing {header : Header} {indices : List ℕ} {result : Except Fault Unit}
    (h : loadSegments data header indices space ram = (result, space', ram')) :
    Backing space ram (segmentsSites data header indices space ram) space' ram' := by
  induction indices generalizing space ram with
  | nil =>
    cases h
    exact .done _ _
  | cons i indices ih =>
    rw [loadSegments] at h
    rw [segmentsSites]
    cases hread : readProgramHeader data (header.base i) with
    | error fault =>
      rw [hread] at h
      cases h
      exact .done _ _
    | ok phdr =>
      rw [hread] at h
      simp only at h ⊢
      by_cases hloads : phdr.loads = true
      · rw [if_pos hloads] at h ⊢
        generalize hseg : loadSegment phdr data space ram = out at h ⊢
        obtain ⟨result, next, after⟩ := out
        have hfirst := loadSegment_backing hseg
        cases result with
        | error fault =>
          cases h
          exact hfirst.trans (.done _ _)
        | ok => exact hfirst.trans (ih h)
      · rw [if_neg hloads] at h ⊢
        exact ih h

theorem load_backing {result : Except Fault ℕ} (h : load data space ram = (result, space', ram')) :
    Backing space ram (loadSites data space ram) space' ram' := by
  unfold load at h
  unfold loadSites
  cases hheader : readHeader data with
  | error fault =>
    rw [hheader] at h
    cases h
    exact .done _ _
  | ok header =>
    rw [hheader] at h
    simp only at h ⊢
    split at h
    · rename_i hsegments
      cases h
      exact loadSegments_backing hsegments
    · rename_i hsegments
      cases h
      exact loadSegments_backing hsegments

theorem cleared_of_mem_pageSites {flags : PageFlags} {pages : List Page} {site : Site W}
    (h : site ∈ pageSites true flags pages space ram) : site.cleared = true := by
  induction pages generalizing space ram with
  | nil => cases h
  | cons page pages ih =>
    rw [pageSites, List.mem_cons] at h
    obtain rfl | h := h
    · rfl
    · split at h
      · exact ih h
      · cases h

theorem loadSegment_alike (h : ram.Agrees ram') (phdr : ProgramHeader) (data : List UInt8)
    (space : AddressSpace) :
    Alike (loadSegment phdr data space ram) (loadSegment phdr data space ram') := by
  unfold loadSegment
  cases phdr.check data with
  | error fault => exact ⟨rfl, rfl, h⟩
  | ok =>
    have hpages : Alike (mapPages true phdr.flags phdr.pages space ram)
        (mapPages true phdr.flags phdr.pages space ram') :=
      mapPages_alike h (fun site hsite ↦ .inl (cleared_of_mem_pageSites hsite))
        (fun site hsite ↦ .inl (cleared_of_mem_pageSites hsite))
    obtain ⟨result, next, after, after', hout, hout', hram⟩ := hpages.exists_eq
    simp only [hout, hout']
    cases result with
    | error e => exact ⟨rfl, rfl, hram⟩
    | ok =>
      obtain ⟨last, last', hcopy, hcopy', hlast⟩ | ⟨fault, hcopy, hcopy'⟩ :=
        copySegment_agrees hram next phdr.pVaddr (phdr.file data)
      · simp only [hcopy, hcopy']
        exact ⟨rfl, rfl, hlast⟩
      · simp only [hcopy, hcopy']
        exact ⟨rfl, rfl, hram⟩

theorem loadSegments_alike (h : ram.Agrees ram') (data : List UInt8) (header : Header)
    (indices : List ℕ) (space : AddressSpace) :
    Alike (loadSegments data header indices space ram)
      (loadSegments data header indices space ram') := by
  induction indices generalizing space ram ram' with
  | nil => exact ⟨rfl, rfl, h⟩
  | cons i indices ih =>
    rw [loadSegments, loadSegments]
    cases readProgramHeader data (header.base i) with
    | error fault => exact ⟨rfl, rfl, h⟩
    | ok phdr =>
      simp only
      by_cases hloads : phdr.loads = true
      · obtain ⟨result, next, after, after', hout, hout', hram⟩ :=
          (loadSegment_alike h phdr data space).exists_eq
        rw [if_pos hloads, if_pos hloads, hout, hout']
        cases result with
        | error fault => exact ⟨rfl, rfl, hram⟩
        | ok => exact ih hram next
      · rw [if_neg hloads, if_neg hloads]
        exact ih h space

theorem load_alike (h : ram.Agrees ram') (data : List UInt8) (space : AddressSpace) :
    Alike (load data space ram) (load data space ram') := by
  unfold load
  cases readHeader data with
  | error fault => exact ⟨rfl, rfl, h⟩
  | ok header =>
    obtain ⟨result, next, after, after', hout, hout', hram⟩ :=
      (loadSegments_alike h data header (List.range header.ePhnum) space).exists_eq
    simp only [hout, hout']
    cases result with
    | error fault | ok => exact ⟨rfl, rfl, hram⟩

end

end Tarnos.Memory
