import Tarnos.Fs.Walk

namespace Tarnos.Fs

open Driver Foundation

namespace Fat12Volume

variable {volume : Fat12Volume} {chain : List ℕ}

section Lookup

variable {σ : Type} {d : BlockDevice σ} {capacity : ℕ} {sector : ℕ → List UInt8}
  {name83 : List UInt8} {first size : ℕ}

def rootDir (volume : Fat12Volume) (sector : ℕ → List UInt8) : List (List UInt8) :=
  volume.rootDirLbas.flatMap fun lba ↦ dirents (sector lba)

structure Names (name83 entry : List UInt8) : Prop where
  used : entry.getD 0 0 ≠ direntFreeRest
  present : entry.getD 0 0 ≠ direntDeleted
  short : entry.getD direntAttr 0 &&& attrLongNameMask ≠ attrLongNameMask
  noLabel : entry.getD direntAttr 0 &&& attrVolumeId = 0
  name : entry.take direntNameLen = name83

def RootFile (volume : Fat12Volume) (sector : ℕ → List UInt8) (name83 : List UInt8)
    (first size : ℕ) : Prop :=
  ∃ before entry after, volume.rootDir sector = before ++ entry :: after ∧
    (∀ e ∈ before, e.getD 0 0 ≠ direntFreeRest ∧ ¬ Names name83 e) ∧ Names name83 entry ∧
    readU16 entry direntFstClusLo = first ∧ readU32 entry direntFileSize = size

theorem judge_of_names {entry : List UInt8} (h : Names name83 entry) : judge name83 entry =
    some (.ok (readU16 entry direntFstClusLo, readU32 entry direntFileSize)) := by
  rw [judge, if_neg h.used, if_neg h.present, if_neg h.short, if_neg (not_not.mpr h.noLabel),
    if_pos h.name]

theorem judge_of_not_names {entry : List UInt8} (hused : entry.getD 0 0 ≠ direntFreeRest)
    (h : ¬ Names name83 entry) : judge name83 entry = none := by
  rw [judge, if_neg hused]
  split
  · rfl
  · rename_i hpresent
    split
    · rfl
    · rename_i hshort
      split
      · rfl
      · rename_i hlabel
        rw [if_neg fun hname ↦ h ⟨hused, hpresent, hshort, not_not.mp hlabel, hname⟩]

theorem findInSectors_eq {lbas : List ℕ}
    (h : ∀ lba ∈ lbas, ∀ s, ∃ s', d.readSectors s lba sectorSize = (.ok (sector lba), s')) (s : σ) :
    (findInSectors d name83 lbas s).1 =
      ((lbas.flatMap fun lba ↦ dirents (sector lba)).findSome? (judge name83)).getD
        (.error .noSuchFile) := by
  induction lbas generalizing s with
  | nil => rfl
  | cons lba lbas ih =>
    obtain ⟨s', hread⟩ := h lba List.mem_cons_self s
    rw [findInSectors, hread, List.flatMap_cons, List.findSome?_append]
    dsimp only
    cases (dirents (sector lba)).findSome? (judge name83) with
    | none => exact ih (fun l hl ↦ h l (List.mem_cons_of_mem _ hl)) s'
    | some verdict => rfl

theorem findSome_of_rootFile (h : volume.RootFile sector name83 first size) :
    (volume.rootDir sector).findSome? (judge name83) = some (.ok (first, size)) := by
  obtain ⟨before, entry, after, hdir, hbefore, hentry, rfl, rfl⟩ := h
  have hnone : before.findSome? (judge name83) = none :=
    List.findSome?_eq_none_iff.mpr fun e he ↦ judge_of_not_names (hbefore e he).1 (hbefore e he).2
  rw [hdir, List.findSome?_append, hnone, List.findSome?_cons, judge_of_names hentry]
  rfl

theorem findDirEntry_eq (hd : d.Serves capacity sector)
    (hrange : ∀ lba ∈ volume.rootDirLbas, lba < capacity)
    (h : volume.RootFile sector name83 first size) (s : σ) :
    (volume.findDirEntry d name83 s).1 = .ok (first, size) := by
  rw [findDirEntry, findInSectors_eq fun lba hlba s ↦ hd.single s lba (hrange lba hlba), ← rootDir,
    findSome_of_rootFile h]
  rfl

def fatBytes (volume : Fat12Volume) (sector : ℕ → List UInt8) : List UInt8 :=
  stored sector volume.fatStartLba volume.fatSizeSectors

def clusterData (volume : Fat12Volume) (sector : ℕ → List UInt8) (c : ℕ) : List UInt8 :=
  stored sector (volume.clusterLba c) volume.sectorsPerCluster

theorem readFatTable_eq (hd : d.Serves capacity sector)
    (hrange : ∀ lba ∈ volume.fatLbas, lba < capacity) {room : ℕ} {heap : Heap room}
    (hroom : heap.buffer [] volume.tableBytes = true) (s : σ) :
    (volume.readFatTable d heap s).1 = .ok (volume.fatBytes sector) := by
  obtain ⟨data, hdata⟩ := BlockDevice.readEach_isOk.mpr (hd.answers hrange s)
  have hcount : (d.readEach (1 * sectorSize) volume.fatLbas s).1 = .ok data := by
    rwa [Nat.one_mul]
  have hbytes := BlockDevice.readEach_eq hd hcount
  rw [readFatTable, if_pos hroom]
  dsimp only
  rw [hdata, hbytes, fatBytes, stored, fatLbas, List.flatMap_map]
  simp only [stored_one]
  rfl

end Lookup

section Read

variable {σ : Type} {d : BlockDevice σ} {capacity room size : ℕ} {heap : Heap room}
  {sector : ℕ → List UInt8} {name : List UInt8} {s : σ}

theorem mount_eq_ok {s' : σ} (h : mount d s = (.ok volume, s')) :
    volume.fatStartLba + volume.fatSizeSectors ≤ volume.rootDirStartLba ∧
      volume.rootDirStartLba + volume.rootDirSectors = volume.dataStartLba := by
  unfold mount at h
  split at h
  · cases h
  · rename_i bootSector _ _
    obtain ⟨hparse, -⟩ := Prod.mk.inj h
    unfold parse at hparse
    dsimp only at hparse
    generalize (if readU16 bootSector bpbTotSec16 ≠ 0 then readU16 bootSector bpbTotSec16
      else readU32 bootSector bpbTotSec32) = totalSectors at hparse
    split at hparse
    · cases hparse
    split at hparse
    · cases hparse
    split at hparse
    · cases hparse
    rename_i hnonzero
    split at hparse
    · cases hparse
    cases hparse
    push Not at hnonzero
    refine ⟨?_, rfl⟩
    exact Nat.add_le_add_left (Nat.le_mul_of_pos_left _ (Nat.pos_of_ne_zero hnonzero.2.1)) _

/-- A file of the root directory whose chain is valid, lies on the device and covers its size. -/
structure StoredFile (volume : Fat12Volume) (capacity : ℕ) (sector : ℕ → List UInt8)
    (name : List UInt8) (size : ℕ) (chain : List ℕ) : Prop where
  root : ∃ name83 first, to83Name name = some name83 ∧
    volume.RootFile sector name83 first size ∧ volume.Chain (volume.fatBytes sector) first chain
  onDevice : ∀ c ∈ chain, volume.clusterLba c + volume.sectorsPerCluster ≤ capacity
  covers : size ≤ chain.length * volume.clusterBytes

def lookedUp (volume : Fat12Volume) (d : BlockDevice σ) (heap : Heap room) (name : List UInt8)
    (s : σ) : σ :=
  match to83Name name with
  | none => s
  | some name83 => (volume.readFatTable d heap (volume.findDirEntry d name83 s).2).2

/-- The heap gives the copy of the table, beside it the vector of the chain, and beside both the
buffer for the chain's data, each when it is asked for. -/
def Affords (volume : Fat12Volume) (heap : Heap room) (chain : List ℕ) : Prop :=
  heap.buffer [] volume.tableBytes = true ∧
    ∃ capacity, heap.pushes [volume.tableBytes] 4 chain.length = some capacity ∧
      heap.buffer [4 * capacity, volume.tableBytes] (chain.length * volume.clusterBytes) = true

/-- The heap gives the buffers, and the device services a read of each whole cluster. -/
def Obtains (volume : Fat12Volume) (d : BlockDevice σ) (heap : Heap room) (name : List UInt8)
    (chain : List ℕ) (s : σ) : Prop :=
  volume.Affords heap chain ∧
    d.Answers volume.clusterBytes (chain.map volume.clusterLba) (volume.lookedUp d heap name s)

theorem StoredFile.inRange (h : volume.StoredFile capacity sector name size chain)
    (hfat : volume.fatStartLba + volume.fatSizeSectors ≤ volume.rootDirStartLba)
    (hroot : volume.rootDirStartLba + volume.rootDirSectors = volume.dataStartLba) :
    (∀ lba ∈ volume.rootDirLbas, lba < capacity) ∧ ∀ lba ∈ volume.fatLbas, lba < capacity := by
  obtain ⟨name83, first, -, -, hchain⟩ := h.root
  have hlast := h.onDevice first (List.mem_of_mem_head? hchain.walk.head)
  have hdata : volume.dataStartLba ≤ capacity := by
    rw [clusterLba] at hlast
    omega
  constructor
  · intro lba hlba
    obtain ⟨i, hi, rfl⟩ := List.mem_map.mp hlba
    have hi' := List.mem_range.mp hi
    omega
  · intro lba hlba
    obtain ⟨i, hi, rfl⟩ := List.mem_map.mp hlba
    have hi' := List.mem_range.mp hi
    omega

theorem readChain_iff (hd : d.Serves capacity sector) (volume : Fat12Volume) (heap : Heap room)
    (live chain : List ℕ) (s : σ) :
    (volume.readChain d heap live chain s).1 = .ok (chain.flatMap (volume.clusterData sector)) ↔
      heap.buffer live (chain.length * volume.clusterBytes) = true ∧
        d.Answers volume.clusterBytes (chain.map volume.clusterLba) s := by
  unfold readChain
  by_cases hroom : heap.buffer live (chain.length * volume.clusterBytes) = true
  · rw [if_pos hroom, ← BlockDevice.readEach_isOk]
    dsimp only
    constructor
    · intro h
      refine ⟨hroom, ?_⟩
      generalize d.readEach volume.clusterBytes (chain.map volume.clusterLba) s = out at h ⊢
      obtain ⟨outcome, s'⟩ := out
      cases outcome with
      | error e => cases h
      | ok data => exact ⟨data, rfl⟩
    · rintro ⟨-, data, hdata⟩
      have hbytes := BlockDevice.readEach_eq hd hdata
      rw [List.flatMap_map] at hbytes
      rw [hdata, hbytes]
      rfl
  · rw [if_neg hroom]
    constructor
    · intro h
      cases h
    · exact fun h ↦ absurd h.1 hroom

theorem readChain_ok (hd : d.Serves capacity sector) {live : List ℕ} {data : List UInt8}
    (h : (volume.readChain d heap live chain s).1 = .ok data) :
    data = chain.flatMap (volume.clusterData sector) := by
  unfold readChain at h
  split at h
  · dsimp only at h
    generalize hout : d.readEach volume.clusterBytes (chain.map volume.clusterLba) s = out at h
    obtain ⟨outcome, s'⟩ := out
    cases outcome with
    | error e => cases h
    | ok data' =>
      cases h
      have hbytes := BlockDevice.readEach_eq hd (congrArg Prod.fst hout)
      rw [List.flatMap_map] at hbytes
      exact hbytes
  · cases h

theorem readFile_eq (hd : d.Serves capacity sector) {s₀ s₁ : σ}
    (hmount : mount d s₀ = (.ok volume, s₁))
    (hfile : volume.StoredFile capacity sector name size chain) :
    (volume.readFile d heap name s).1 =
        .ok ((chain.flatMap (volume.clusterData sector)).take size) ↔
      size = 0 ∨ volume.Obtains d heap name chain s := by
  obtain ⟨hfat, hroot⟩ := mount_eq_ok hmount
  obtain ⟨hdirRange, hfatRange⟩ := hfile.inRange hfat hroot
  obtain ⟨name83, first, hname, hentry, hchain⟩ := hfile.root
  have hfound := findDirEntry_eq hd hdirRange hentry s
  unfold Obtains Affords lookedUp readFile
  rw [hname]
  dsimp only
  generalize volume.findDirEntry d name83 s = out at hfound ⊢
  obtain ⟨outcome, s'⟩ := out
  cases hfound
  dsimp only [readEntry]
  by_cases hsize : size = 0
  · rw [if_pos hsize, hsize, List.take_zero]
    exact ⟨fun _ ↦ .inl rfl, fun _ ↦ rfl⟩
  rw [if_neg hsize, or_iff_right hsize]
  by_cases hroom : heap.buffer [] volume.tableBytes = true
  swap
  · rw [readFatTable, if_neg hroom]
    exact ⟨fun h ↦ (by cases h), fun h ↦ absurd h.1.1 hroom⟩
  have htable := readFatTable_eq hd hfatRange hroom s'
  generalize volume.readFatTable d heap s' = out at htable ⊢
  obtain ⟨outcome, s''⟩ := out
  cases htable
  dsimp only
  rw [hchain.accepted.visited]
  cases heap.pushes [volume.tableBytes] 4 chain.length with
  | none => exact ⟨fun h ↦ (by cases h), fun ⟨⟨_, _, h, _⟩, _⟩ ↦ (by cases h)⟩
  | some vector =>
    dsimp only
    rw [clusterChain_ok_iff.mpr hchain.accepted]
    dsimp only
    have hiff := readChain_iff hd volume heap [4 * vector, volume.tableBytes] chain s''
    generalize hout : volume.readChain d heap [4 * vector, volume.tableBytes] chain s'' = out
      at hiff ⊢
    obtain ⟨outcome, last⟩ := out
    cases outcome with
    | error e =>
      refine ⟨fun h ↦ (by cases h), fun ⟨⟨_, _, hvector, hbuffer⟩, hanswers⟩ ↦ ?_⟩
      cases hvector
      cases hiff.mpr ⟨hbuffer, hanswers⟩
    | ok data =>
      have hdata := readChain_ok hd (congrArg Prod.fst hout)
      rw [hdata] at hiff ⊢
      exact ⟨fun _ ↦ ⟨⟨hroom, _, rfl, (hiff.mp rfl).1⟩, (hiff.mp rfl).2⟩, fun _ ↦ rfl⟩

/-- A stored file is read back, cut at its size, exactly if it is empty or can be obtained; with one
sector to a cluster the device always does its part. -/
theorem readFile_iff (hd : d.Serves capacity sector) {s₀ s₁ : σ}
    (hmount : mount d s₀ = (.ok volume, s₁))
    (hfile : volume.StoredFile capacity sector name size chain) :
    ((volume.readFile d heap name s).1 =
        .ok ((chain.flatMap (volume.clusterData sector)).take size) ↔
      size = 0 ∨ volume.Obtains d heap name chain s) ∧
    (volume.sectorsPerCluster = 1 →
      d.Answers volume.clusterBytes (chain.map volume.clusterLba)
        (volume.lookedUp d heap name s)) := by
  refine ⟨readFile_eq hd hmount hfile, fun hone ↦ ?_⟩
  rw [clusterBytes, hone, Nat.one_mul]
  apply hd.answers
  intro lba hlba
  obtain ⟨c, hc, rfl⟩ := List.mem_map.mp hlba
  have hlast := hfile.onDevice c hc
  omega

end Read

/-- The sectors of a small volume: the boot sector, the table, the directory with one file of five
bytes in cluster 2, and data. -/
def disk (sectorsPerCluster : UInt8) (lba : ℕ) : List UInt8 :=
  match lba with
  | 0 => (List.range 512).map fun i ↦
    if i = 12 then 2 else if i = 13 then sectorsPerCluster else if i = 14 then 1
    else if i = 16 then 1 else if i = 17 then 16 else if i = 19 then 64 else if i = 22 then 1
    else if i = 510 then 0x55 else if i = 511 then 0xAA else 0
  | 1 => [0xF0, 0xFF, 0xFF, 0xFF, 0x0F] ++ List.replicate 507 0
  | 2 => [0x41] ++ List.replicate 10 0x20 ++ [0x20] ++ List.replicate 14 0 ++ [2, 0, 5, 0, 0, 0] ++
    List.replicate 480 0
  | n => List.replicate 512 (UInt8.ofNat n)

theorem length_disk (sectorsPerCluster : UInt8) (lba : ℕ) :
    (disk sectorsPerCluster lba).length = sectorSize := by
  unfold disk
  split <;> simp only [List.length_map, List.length_range, List.length_append, List.length_cons,
    List.length_nil, List.length_replicate] <;> rfl

def diskDriver (sectorsPerCluster : UInt8) : BlockDevice Unit :=
  virtioBlk 64 (disk sectorsPerCluster) (length_disk sectorsPerCluster)

theorem disk_stored {n : UInt8} (hn : n = 1 ∨ n = 16) :
    (diskVolume n).StoredFile 64 (disk n) [0x41] 5 [2] ∧
      mount (diskDriver n) () = (.ok (diskVolume n), ()) := by
  obtain rfl | rfl := hn
  all_goals
    refine ⟨⟨⟨[0x41] ++ List.replicate 10 0x20, 2, by decide, ?_, ?_⟩, by decide, by decide⟩,
      by decide +kernel⟩
    · refine ⟨[], (dirents (disk 1 2)).headD [], (dirents (disk 1 2)).tail, by decide +kernel,
        by simp, ?_, by decide +kernel, by decide +kernel⟩
      constructor <;> decide +kernel
    · refine ⟨.last ⟨?_, by decide +kernel⟩, List.forall_mem_singleton.mpr ⟨by decide, by decide⟩⟩
      unfold HasDigit
      decide +kernel

theorem disk_serves (n : UInt8) : (diskDriver n).Serves 64 (disk n) :=
  virtioBlk_serves (by decide) (length_disk n)

theorem readFile_iff_disk :
    ((diskVolume 1).readFile (diskDriver 1) (Heap.unshared 8388608) [0x41] ()).1 =
      .ok (([2].flatMap ((diskVolume 1).clusterData (disk 1))).take 5) := by
  obtain ⟨hstored, hmount⟩ := disk_stored (.inl rfl)
  have hiff := @readFile_iff _ _ _ _ _ _ _ (.unshared 8388608) _ _ () (disk_serves 1) _ _ hmount
    hstored
  exact hiff.1.mpr (.inr ⟨⟨by decide, 4, by decide, by decide⟩, hiff.2 rfl⟩)

/-- Sixteen sectors to a cluster: more than the driver takes in one request. -/
theorem readFile_cluster_too_large : (diskDriver 16).Serves 64 (disk 16) ∧
    mount (diskDriver 16) () = (.ok (diskVolume 16), ()) ∧
    (diskVolume 16).StoredFile 64 (disk 16) [0x41] 5 [2] ∧
    ((diskVolume 16).readFile (diskDriver 16) (Heap.unshared 8388608) [0x41] ()).1 ≠
      .ok (([2].flatMap ((diskVolume 16).clusterData (disk 16))).take 5) := by
  obtain ⟨hstored, hmount⟩ := disk_stored (.inr rfl)
  refine ⟨disk_serves 16, hmount, hstored, fun h ↦ ?_⟩
  obtain hzero | ⟨-, hanswers⟩ := (readFile_eq (disk_serves 16) hmount hstored).mp h
  · cases hzero
  · exact hanswers

end Fat12Volume

end Tarnos.Fs
