import Tarnos.Fs.ReadFile
import Tarnos.Memory.Phys

namespace Tarnos.Fs.Fat12Volume

open Driver Foundation

variable {σ : Type} {volume : Fat12Volume} {d : BlockDevice σ} {room capacity first size : ℕ}
  {heap : Heap room} {sector : ℕ → List UInt8} {name name83 data : List UInt8} {s s' : σ}
  {chain live lbas : List ℕ}

def dirEntry (volume : Fat12Volume) (d : BlockDevice σ) (name : List UInt8) (s : σ) :
    Except FatError (ℕ × ℕ) × σ :=
  match to83Name name with
  | none => (.error .nameTooLong, s)
  | some name83 => volume.findDirEntry d name83 s

theorem readFile_eq_readEntry (volume : Fat12Volume) (d : BlockDevice σ) (heap : Heap room)
    (name : List UInt8) (s : σ) : volume.readFile d heap name s =
      match volume.dirEntry d name s with
      | (.error e, s) => (.error (.error e), s)
      | (.ok (first, size), s) => volume.readEntry d heap first size s := by
  unfold readFile dirEntry
  cases to83Name name with
  | none | some name83 => rfl

theorem readFile_of_dirEntry {s₁ : σ} (h : volume.dirEntry d name s = (.ok (first, size), s₁)) :
    volume.readFile d heap name s = volume.readEntry d heap first size s₁ := by
  rw [readFile_eq_readEntry, h]

theorem dirEntry_of_readFile_ok (h : volume.readFile d heap name s = (.ok data, s')) :
    ∃ first size s₁, volume.dirEntry d name s = (.ok (first, size), s₁) ∧
      volume.readEntry d heap first size s₁ = (.ok data, s') := by
  rw [readFile_eq_readEntry] at h
  generalize volume.dirEntry d name s = out at h ⊢
  obtain ⟨outcome, s₁⟩ := out
  cases outcome with
  | error e => cases h
  | ok entry => exact ⟨entry.1, entry.2, s₁, rfl, h⟩

theorem readEntry_ok_iff : volume.readEntry d heap first size s = (.ok data, s') ↔
    (size = 0 ∧ data = [] ∧ s = s') ∨
      size ≠ 0 ∧ ∃ fat s₂ chain vector bytes, volume.readFatTable d heap s = (.ok fat, s₂) ∧
        volume.Accepted fat first chain ∧
        heap.pushes [volume.tableBytes] 4 chain.length = some vector ∧
        volume.readChain d heap [4 * vector, volume.tableBytes] chain s₂ = (.ok bytes, s') ∧
        data = bytes.take size := by
  unfold readEntry
  by_cases hsize : size = 0
  · rw [if_pos hsize]
    constructor
    · intro h
      cases h
      exact .inl ⟨hsize, rfl, rfl⟩
    · rintro (⟨-, rfl, rfl⟩ | ⟨hne, -⟩)
      · rfl
      · exact absurd hsize hne
  rw [if_neg hsize]
  constructor
  · intro h
    refine .inr ⟨hsize, ?_⟩
    split at h
    · cases h
    rename_i fat s₂ htable
    split at h
    · cases h
    rename_i vector hvector
    split at h
    · cases h
    rename_i chain hchain
    split at h
    · cases h
    rename_i bytes s₃ hbytes
    cases h
    have haccepted := clusterChain_ok_iff.mp hchain
    rw [haccepted.visited] at hvector
    exact ⟨fat, s₂, chain, vector, bytes, htable, haccepted, hvector, hbytes, rfl⟩
  · rintro (⟨hzero, -⟩ | ⟨-, fat, s₂, chain, vector, bytes, htable, hchain, hvector, hbytes, rfl⟩)
    · exact absurd hzero hsize
    · rw [htable]
      dsimp only
      rw [hchain.visited, hvector]
      dsimp only
      rw [clusterChain_ok_iff.mpr hchain]
      dsimp only
      rw [hbytes]

theorem length_readEach {len : ℕ} (h : d.readEach len lbas s = (.ok data, s')) :
    data.length = lbas.length * len := by
  induction lbas generalizing s data with
  | nil =>
    cases h
    rw [List.length_nil, List.length_nil, Nat.zero_mul]
  | cons lba lbas ih =>
    rw [BlockDevice.readEach] at h
    split at h
    · cases h
    rename_i head s₁ hread
    split at h
    · cases h
    rename_i rest s₂ hrest
    cases h
    rw [List.length_append, d.filled _ _ _ _ _ hread, ih hrest, List.length_cons, Nat.succ_mul,
      Nat.add_comm]

theorem readChain_eq_ok (h : volume.readChain d heap live chain s = (.ok data, s')) :
    d.readEach volume.clusterBytes (chain.map volume.clusterLba) s = (.ok data, s') := by
  unfold readChain at h
  split at h
  · dsimp only at h
    generalize d.readEach volume.clusterBytes (chain.map volume.clusterLba) s = out at h ⊢
    obtain ⟨outcome, s₁⟩ := out
    cases outcome with
    | error e => cases h
    | ok bytes =>
      cases h
      rfl
  · cases h

theorem length_readChain (h : volume.readChain d heap live chain s = (.ok data, s')) :
    data.length = chain.length * volume.clusterBytes := by
  rw [length_readEach (readChain_eq_ok h), List.length_map]

theorem readFatTable_ok (hd : d.Serves capacity sector)
    (h : volume.readFatTable d heap s = (.ok data, s')) : data = volume.fatBytes sector := by
  unfold readFatTable at h
  split at h
  · dsimp only at h
    generalize hout : d.readEach sectorSize volume.fatLbas s = out at h
    obtain ⟨outcome, s₁⟩ := out
    cases outcome with
    | error e => cases h
    | ok bytes =>
      cases h
      have hcount : (d.readEach (1 * sectorSize) volume.fatLbas s).1 = .ok data := by
        rw [Nat.one_mul, hout]
      rw [BlockDevice.readEach_eq hd hcount, fatBytes, stored, fatLbas, List.flatMap_map]
      simp only [stored_one]
  · cases h

theorem rootFile_of_findSome (h : (volume.rootDir sector).findSome? (judge name83) =
    some (.ok (first, size))) : volume.RootFile sector name83 first size := by
  obtain ⟨before, entry, after, hdir, hverdict, hnone⟩ := List.findSome?_eq_some_iff.mp h
  have hnames : ∀ e, judge name83 e = some (.ok (first, size)) → Names name83 e ∧
      readU16 e direntFstClusLo = first ∧ readU32 e direntFileSize = size := by
    intro e he
    by_cases hused : e.getD 0 0 = direntFreeRest
    · rw [judge, if_pos hused] at he
      cases he
    · by_cases hname : Names name83 e
      · rw [judge_of_names hname] at he
        cases he
        exact ⟨hname, rfl, rfl⟩
      · rw [judge_of_not_names hused hname] at he
        cases he
  obtain ⟨hentry, hfirst, hsize⟩ := hnames entry hverdict
  refine ⟨before, entry, after, hdir, fun e he ↦ ⟨fun hfree ↦ ?_, fun hname ↦ ?_⟩, hentry, hfirst,
    hsize⟩
  · have hjudge := hnone e he
    rw [judge, if_pos hfree] at hjudge
    cases hjudge
  · have hjudge := hnone e he
    rw [judge_of_names hname] at hjudge
    cases hjudge

theorem findInSectors_ok (hd : d.Serves capacity sector)
    (h : findInSectors d name83 lbas s = (.ok (first, size), s')) :
    (lbas.flatMap fun lba ↦ dirents (sector lba)).findSome? (judge name83) =
      some (.ok (first, size)) := by
  induction lbas generalizing s with
  | nil => cases h
  | cons lba lbas ih =>
    rw [findInSectors] at h
    split at h
    · cases h
    rename_i bytes s₁ hread
    have hcount : d.readSectors s lba (1 * sectorSize) = (.ok bytes, s₁) := by
      rwa [Nat.one_mul]
    have hbytes := hd.faithful s lba 1 bytes s₁ hcount
    rw [stored_one] at hbytes
    rw [hbytes] at h
    rw [List.flatMap_cons, List.findSome?_append]
    split at h
    · rename_i verdict hverdict
      cases h
      rw [hverdict, Option.some_or]
    · rename_i hnone
      rw [hnone, Option.none_or]
      exact ih h

theorem rootFile_of_dirEntry (hd : d.Serves capacity sector)
    (h : volume.dirEntry d name s = (.ok (first, size), s')) :
    ∃ name83, to83Name name = some name83 ∧ volume.RootFile sector name83 first size := by
  unfold dirEntry at h
  split at h
  · cases h
  · rename_i name83 hname
    exact ⟨name83, hname, rootFile_of_findSome (findInSectors_ok hd h)⟩

def Recorded (volume : Fat12Volume) (sector : ℕ → List UInt8) (name : List UInt8)
    (first size : ℕ) : Prop :=
  ∃ name83, to83Name name = some name83 ∧ volume.RootFile sector name83 first size

theorem Recorded.unique {first' size' : ℕ} (h : volume.Recorded sector name first size)
    (h' : volume.Recorded sector name first' size') : first = first' ∧ size = size' := by
  obtain ⟨name83, hname, hfile⟩ := h
  obtain ⟨name83', hname', hfile'⟩ := h'
  rw [hname] at hname'
  cases hname'
  have hsame := findSome_of_rootFile hfile
  rw [findSome_of_rootFile hfile'] at hsame
  cases hsame
  exact ⟨rfl, rfl⟩

def Content (volume : Fat12Volume) (sector : ℕ → List UInt8) (first size : ℕ)
    (content : List UInt8) : Prop :=
  size = 0 ∧ content = [] ∨ size ≠ 0 ∧ ∃ chain, Walk (volume.fatBytes sector) first chain ∧
    content = (chain.flatMap (volume.clusterData sector)).take size ∧
    content.length = min (chain.length * volume.clusterBytes) size

theorem content_of_readFile (hd : d.Serves capacity sector)
    (h : volume.readFile d heap name s = (.ok data, s')) :
    ∃ first size, volume.Recorded sector name first size ∧
      volume.Content sector first size data := by
  obtain ⟨first, size, s₁, hentry, hread⟩ := dirEntry_of_readFile_ok h
  refine ⟨first, size, rootFile_of_dirEntry hd hentry, ?_⟩
  rcases readEntry_ok_iff.mp hread with
    ⟨hsize, hdata, -⟩ | ⟨hsize, fat, s₂, chain, vector, bytes, htable, hchain, -, hbytes, rfl⟩
  · exact .inl ⟨hsize, hdata⟩
  · have hfat := readFatTable_ok hd htable
    subst hfat
    have hcontent := readChain_ok hd (congrArg Prod.fst hbytes)
    refine .inr ⟨hsize, chain, hchain.walk, by rw [hcontent], ?_⟩
    rw [List.length_take, length_readChain hbytes, Nat.min_comm]

/-- A file that is read has the length its directory entry records exactly if it is empty or the
table on the device links a chain from its first cluster that covers that length. -/
theorem length_readFile_iff (hd : d.Serves capacity sector)
    (h : volume.readFile d heap name s = (.ok data, s')) :
    ∃ name83 first size, to83Name name = some name83 ∧
      volume.RootFile sector name83 first size ∧
      (data.length = size ↔ size = 0 ∨ ∃ chain, Walk (volume.fatBytes sector) first chain ∧
        size ≤ chain.length * volume.clusterBytes) := by
  obtain ⟨first, size, ⟨name83, hname, hfile⟩, hcontent⟩ := content_of_readFile hd h
  refine ⟨name83, first, size, hname, hfile, ?_⟩
  rcases hcontent with ⟨rfl, rfl⟩ | ⟨hsize, chain, hwalk, -, hlength⟩
  · exact ⟨fun _ ↦ .inl rfl, fun _ ↦ rfl⟩
  · rw [hlength]
    constructor
    · intro hmin
      exact .inr ⟨chain, hwalk, by omega⟩
    · rintro (hzero | ⟨chain', hwalk', hcovers⟩)
      · exact absurd hzero hsize
      · rw [hwalk'.unique hwalk] at hcovers
        omega

def shortDisk (lba : ℕ) : List UInt8 :=
  if lba = 2 then (disk 1 2).set direntFileSize 0xE8 |>.set (direntFileSize + 1) 0x03 else disk 1 lba

theorem length_shortDisk (lba : ℕ) : (shortDisk lba).length = sectorSize := by
  unfold shortDisk
  split
  · rw [List.length_set, List.length_set, length_disk]
  · exact length_disk 1 lba

def shortDriver : BlockDevice Unit := virtioBlk 64 shortDisk length_shortDisk

theorem shortDisk_serves : shortDriver.Serves 64 shortDisk :=
  virtioBlk_serves (by decide) length_shortDisk

theorem mount_shortDisk : mount shortDriver () = (.ok (diskVolume 1), ()) ∧
    (diskVolume 1).dirEntry shortDriver [0x41] () = (.ok (2, 1000), ()) := by
  decide +kernel

theorem readFile_shortDisk :
    (diskVolume 1).readFile shortDriver (.unshared Memory.heapSize) [0x41] () =
      (.ok (List.replicate 512 3), ()) := by
  rw [readFile_of_dirEntry mount_shortDisk.2]
  refine readEntry_ok_iff.mpr (.inr ⟨by decide, shortDisk 1, (), [2], 4, List.replicate 512 3,
    by decide +kernel, ⟨.last ⟨?_, by decide +kernel⟩, by decide, by decide⟩, by decide,
    by decide +kernel, by decide +kernel⟩)
  unfold HasDigit
  decide +kernel

theorem length_readFile_disk : ∃ name83 first size, to83Name [0x41] = some name83 ∧
    (diskVolume 1).RootFile (disk 1) name83 first size ∧
    (5 = size ↔ size = 0 ∨ ∃ chain, Walk ((diskVolume 1).fatBytes (disk 1)) first chain ∧
      size ≤ chain.length * (diskVolume 1).clusterBytes) := by
  have hentry : (diskVolume 1).dirEntry (diskDriver 1) [0x41] () = (.ok (2, 5), ()) := by
    decide +kernel
  have hread : (diskVolume 1).readFile (diskDriver 1) (.unshared Memory.heapSize) [0x41] () =
      (.ok (List.replicate 5 3), ()) := by
    rw [readFile_of_dirEntry hentry]
    refine readEntry_ok_iff.mpr (.inr ⟨by decide, disk 1 1, (), [2], 4, List.replicate 512 3,
      by decide +kernel, ⟨.last ⟨?_, by decide +kernel⟩, by decide, by decide⟩, by decide,
      by decide +kernel,
      by decide +kernel⟩)
    unfold HasDigit
    decide +kernel
  exact length_readFile_iff (disk_serves 1) hread

/-- 512 bytes of a file of 1000 are returned as the file. -/
theorem readFile_shorter : shortDriver.Serves 64 shortDisk ∧
    mount shortDriver () = (.ok (diskVolume 1), ()) ∧
    (diskVolume 1).dirEntry shortDriver [0x41] () = (.ok (2, 1000), ()) ∧
    (diskVolume 1).readFile shortDriver (.unshared Memory.heapSize) [0x41] () =
      (.ok (List.replicate 512 3), ()) ∧ (List.replicate 512 (3 : UInt8)).length ≠ 1000 :=
  ⟨shortDisk_serves, mount_shortDisk.1, mount_shortDisk.2, readFile_shortDisk,
    by rw [List.length_replicate]; decide⟩

def onDevice (volume : Fat12Volume) (capacity : ℕ) : Fat12Volume :=
  { volume with rootDirSectors := min volume.rootDirSectors (capacity - volume.rootDirStartLba) }

/-- The heap gives all that is asked for to read a file from this cluster on: the copy of the table,
and once the table is read, the vector as far as the chain is followed and the buffer for a chain
that is accepted. -/
def Fits (volume : Fat12Volume) (heap : Heap room) (capacity : ℕ) (fat : List UInt8) (first : ℕ) :
    Prop :=
  heap.buffer [] volume.tableBytes = true ∧ ((∀ lba ∈ volume.fatLbas, lba < capacity) →
    heap.pushes [volume.tableBytes] 4 (volume.visited fat first) ≠ none ∧
      ∀ chain, volume.Accepted fat first chain → volume.Affords heap chain)

theorem Affords.le (h : volume.Affords heap chain) :
    volume.tableBytes + chain.length * volume.clusterBytes ≤ room := by
  obtain ⟨htable, vector, -, hdata⟩ := h
  have htable := Heap.eq_zero_or_le htable
  have hdata := Heap.eq_zero_or_le hdata
  simp only [List.sum_nil, List.sum_cons] at htable hdata
  omega

end Tarnos.Fs.Fat12Volume
