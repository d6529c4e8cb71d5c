import Mathlib.Algebra.Group.Nat.Defs
import Mathlib.Data.List.Basic
import Mathlib.Data.Nat.Notation
import Mathlib.Tactic.Common

namespace Tarnos.Driver

def sectorSize : ℕ := 512

inductive BlockError
  | bufferNotSectorAligned
  | outOfRange
  | requestTooLarge
  | deviceError
  deriving DecidableEq, Repr

/-- A device with its own state. A read fills a buffer of the given length or fails. -/
structure BlockDevice (σ : Type) where
  readSectors : σ → ℕ → ℕ → Except BlockError (List UInt8) × σ
  filled : ∀ s lba len data s', readSectors s lba len = (.ok data, s') → data.length = len

def stored (sector : ℕ → List UInt8) (lba count : ℕ) : List UInt8 :=
  (List.range count).flatMap fun i ↦ sector (lba + i)

theorem length_stored {sector : ℕ → List UInt8} (hsize : ∀ lba, (sector lba).length = sectorSize)
    (lba count : ℕ) : (stored sector lba count).length = count * sectorSize := by
  induction count with
  | zero => rw [stored, List.range_zero, List.flatMap_nil, List.length_nil, Nat.zero_mul]
  | succ count ih =>
    rw [stored, List.range_succ, List.flatMap_append, List.length_append, ← stored, ih]
    simp only [List.flatMap_singleton, hsize, Nat.succ_mul]

variable {lbas : List ℕ}

namespace BlockDevice

variable {σ : Type} (d : BlockDevice σ)

/-- The contract: every single sector in range can be read, and a read that succeeds, of whatever
size, gives what is stored. -/
structure Serves (capacity : ℕ) (sector : ℕ → List UInt8) : Prop where
  single : ∀ s lba, lba < capacity → ∃ s', d.readSectors s lba sectorSize = (.ok (sector lba), s')
  faithful : ∀ s lba count data s', d.readSectors s lba (count * sectorSize) = (.ok data, s') →
    data = stored sector lba count

def Refuses (capacity : ℕ) : Prop :=
  ∀ s lba, capacity ≤ lba → ∃ e s', d.readSectors s lba sectorSize = (.error e, s')

/-- One read of `len` bytes after another; they fill a buffer from its start. -/
def readEach (len : ℕ) : List ℕ → σ → Except BlockError (List UInt8) × σ
  | [], s => (.ok [], s)
  | lba :: lbas, s =>
    match d.readSectors s lba len with
    | (.error e, s) => (.error e, s)
    | (.ok data, s) =>
      match readEach len lbas s with
      | (.error e, s) => (.error e, s)
      | (.ok rest, s) => (.ok (data ++ rest), s)

def Answers (len : ℕ) : List ℕ → σ → Prop
  | [], _ => True
  | lba :: lbas, s =>
    match d.readSectors s lba len with
    | (.error _, _) => False
    | (.ok _, s) => Answers len lbas s

variable {d} {capacity : ℕ} {sector : ℕ → List UInt8}

theorem readEach_isOk {len : ℕ} {s : σ} :
    (∃ data, (d.readEach len lbas s).1 = .ok data) ↔ d.Answers len lbas s := by
  induction lbas generalizing s with
  | nil => exact ⟨fun _ ↦ trivial, fun _ ↦ ⟨[], rfl⟩⟩
  | cons lba lbas ih =>
    rw [readEach, Answers]
    generalize d.readSectors s lba len = out
    obtain ⟨outcome, s'⟩ := out
    cases outcome with
    | error e => simp
    | ok data =>
      simp only
      rw [← ih]
      generalize d.readEach len lbas s' = out
      obtain ⟨outcome, s''⟩ := out
      cases outcome with
      | error e | ok rest => simp

theorem readEach_eq (hd : d.Serves capacity sector) {count : ℕ} {s : σ} {data : List UInt8}
    (h : (d.readEach (count * sectorSize) lbas s).1 = .ok data) :
    data = lbas.flatMap fun lba ↦ stored sector lba count := by
  induction lbas generalizing s data with
  | nil =>
    cases h
    rfl
  | cons lba lbas ih =>
    rw [readEach] at h
    split at h
    · cases h
    · rename_i first s' hread
      have hfirst := hd.faithful s lba count first s' hread
      split at h
      · cases h
      · rename_i rest s'' hrest
        cases h
        have htail : (d.readEach (count * sectorSize) lbas s').1 = .ok rest := by rw [hrest]
        rw [List.flatMap_cons, hfirst, ih htail]

theorem Serves.answers (hd : d.Serves capacity sector) (h : ∀ lba ∈ lbas, lba < capacity) (s : σ) :
    d.Answers sectorSize lbas s := by
  induction lbas generalizing s with
  | nil => trivial
  | cons lba lbas ih =>
    obtain ⟨s', hread⟩ := hd.single s lba (h lba List.mem_cons_self)
    rw [Answers, hread]
    exact ih (fun l hl ↦ h l (List.mem_cons_of_mem _ hl)) s'

end BlockDevice

/-- `virtio_blk`'s limit. -/
def maxSectorsPerRequest : ℕ := 8

/-- `VirtioBlk::read_sectors` on a disk that never fails: its checks, and then the transfer. -/
def virtioBlk (capacity : ℕ) (sector : ℕ → List UInt8)
    (hsize : ∀ lba, (sector lba).length = sectorSize) : BlockDevice Unit where
  readSectors s lba len :=
    (if len = 0 ∨ len % sectorSize ≠ 0 then .error .bufferNotSectorAligned
      else if maxSectorsPerRequest * sectorSize < len then .error .requestTooLarge
      else if 2 ^ 64 ≤ lba + len / sectorSize then .error .outOfRange
      else if capacity < lba + len / sectorSize then .error .outOfRange
      else .ok (stored sector lba (len / sectorSize)), s)
  filled := by
    intro s lba len data s' h
    obtain ⟨hdata, -⟩ := Prod.mk.inj h
    split at hdata
    · cases hdata
    · rename_i haligned
      split at hdata
      · cases hdata
      split at hdata
      · cases hdata
      split at hdata
      · cases hdata
      cases hdata
      rw [length_stored hsize]
      exact Nat.div_mul_cancel (Nat.dvd_of_mod_eq_zero (by tauto))

theorem stored_one (sector : ℕ → List UInt8) (lba : ℕ) : stored sector lba 1 = sector lba := by
  rw [stored, List.range_one, List.flatMap_singleton, Nat.add_zero]

theorem virtioBlk_serves {capacity : ℕ} (hcapacity : capacity < 2 ^ 64) {sector : ℕ → List UInt8}
    (hsize : ∀ lba, (sector lba).length = sectorSize) :
    (virtioBlk capacity sector hsize).Serves capacity sector := by
  constructor
  · intro s lba hlba
    refine ⟨s, ?_⟩
    have hcount : sectorSize / sectorSize = 1 := by decide
    have hchecks : ¬ (sectorSize = 0 ∨ sectorSize % sectorSize ≠ 0) ∧
        ¬ maxSectorsPerRequest * sectorSize < sectorSize := by decide
    simp only [virtioBlk]
    rw [if_neg hchecks.1, if_neg hchecks.2, hcount, if_neg (by omega), if_neg (by omega), stored_one]
  · intro s lba count data s' h
    have hcount : count * sectorSize / sectorSize = count := Nat.mul_div_cancel _ (by decide)
    simp only [virtioBlk, Prod.mk.injEq, hcount] at h
    obtain ⟨hdata, -⟩ := h
    split at hdata
    · cases hdata
    split at hdata
    · cases hdata
    split at hdata
    · cases hdata
    split at hdata
    · cases hdata
    cases hdata
    rfl

end Tarnos.Driver
