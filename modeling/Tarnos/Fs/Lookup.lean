import Tarnos.Fs.ReadFile

namespace Tarnos.Fs.Fat12Volume

open Driver

variable {σ : Type} {d : BlockDevice σ} {sector : ℕ → List UInt8} {name83 : List UInt8}
  {volume : Fat12Volume} {entry : List UInt8}

def attrDirectory : UInt8 := 0x10

instance (name83 entry : List UInt8) : Decidable (Names name83 entry) :=
  decidable_of_iff (entry.getD 0 0 ≠ direntFreeRest ∧ entry.getD 0 0 ≠ direntDeleted ∧
      entry.getD direntAttr 0 &&& attrLongNameMask ≠ attrLongNameMask ∧
      entry.getD direntAttr 0 &&& attrVolumeId = 0 ∧ entry.take direntNameLen = name83)
    ⟨fun h ↦ ⟨h.1, h.2.1, h.2.2.1, h.2.2.2.1, h.2.2.2.2⟩,
      fun h ↦ ⟨h.used, h.present, h.short, h.noLabel, h.name⟩⟩

def IsDirectory (entry : List UInt8) : Prop := entry.getD direntAttr 0 &&& attrDirectory ≠ 0

instance (entry : List UInt8) : Decidable (IsDirectory entry) :=
  inferInstanceAs (Decidable (_ ≠ _))

def fields (entry : List UInt8) : ℕ × ℕ :=
  (readU16 entry direntFstClusLo, readU32 entry direntFileSize)

def inUse (dir : List (List UInt8)) : List (List UInt8) :=
  dir.takeWhile fun entry ↦ decide (entry.getD 0 0 ≠ direntFreeRest)

def answer : Option (List UInt8) → Except FatError (ℕ × ℕ)
  | some entry => .ok (fields entry)
  | none => .error .noSuchFile

def firstNamed (dir : List (List UInt8)) (name83 : List UInt8) : Option (List UInt8) :=
  (inUse dir).find? fun entry ↦ decide (Names name83 entry)

def firstFile (dir : List (List UInt8)) (name83 : List UInt8) : Option (List UInt8) :=
  (inUse dir).find? fun entry ↦ decide (Names name83 entry ∧ ¬ IsDirectory entry)

theorem inUse_cons_end (h : entry.getD 0 0 = direntFreeRest)
    (dir : List (List UInt8)) : inUse (entry :: dir) = [] :=
  List.takeWhile_cons_of_neg (by simpa using h)

theorem inUse_cons (h : entry.getD 0 0 ≠ direntFreeRest)
    (dir : List (List UInt8)) : inUse (entry :: dir) = entry :: inUse dir :=
  List.takeWhile_cons_of_pos (by simpa using h)

theorem judge_of_end (h : entry.getD 0 0 = direntFreeRest) :
    judge name83 entry = some (.error .noSuchFile) := by
  rw [judge, if_pos h]

theorem findSome_judge (dir : List (List UInt8)) (name83 : List UInt8) :
    (dir.findSome? (judge name83)).getD (.error .noSuchFile) = answer (firstNamed dir name83) := by
  induction dir with
  | nil => rfl
  | cons entry dir ih =>
    by_cases hend : entry.getD 0 0 = direntFreeRest
    · rw [List.findSome?_cons, judge_of_end hend, firstNamed, inUse_cons_end hend]
      rfl
    · rw [firstNamed, inUse_cons hend, List.findSome?_cons]
      by_cases hnames : Names name83 entry
      · rw [judge_of_names hnames, List.find?_cons_of_pos (by simpa using hnames)]
        rfl
      · rw [judge_of_not_names hend hnames, List.find?_cons_of_neg (by simpa using hnames)]
        exact ih

theorem firstFile_eq_firstNamed {dir : List (List UInt8)}
    (h : ∀ entry, firstNamed dir name83 = some entry → ¬ IsDirectory entry) :
    firstFile dir name83 = firstNamed dir name83 := by
  unfold firstFile firstNamed at *
  generalize inUse dir = used at h ⊢
  induction used with
  | nil => rfl
  | cons entry rest ih =>
    by_cases hnames : Names name83 entry
    · have hfound : (entry :: rest).find? (fun e ↦ decide (Names name83 e)) = some entry :=
        List.find?_cons_of_pos (by simpa using hnames)
      rw [hfound]
      exact List.find?_cons_of_pos (by simpa using And.intro hnames (h entry hfound))
    · have hskip : (entry :: rest).find? (fun e ↦ decide (Names name83 e)) =
          rest.find? (fun e ↦ decide (Names name83 e)) :=
        List.find?_cons_of_neg (by simpa using hnames)
      rw [hskip] at h ⊢
      rw [List.find?_cons_of_neg (by simp [hnames])]
      exact ih h

/-- The lookup returns the first file of the name, or that there is none, if and only if no
subdirectory of the same name stands before it (or one with the same two fields does). -/
theorem findDirEntry_exact_iff (volume : Fat12Volume) (name83 : List UInt8) (s : σ)
    (hd : ∀ lba ∈ volume.rootDirLbas, ∀ s, ∃ s',
      d.readSectors s lba sectorSize = (.ok (sector lba), s')) :
    (volume.findDirEntry d name83 s).1 = answer (firstFile (volume.rootDir sector) name83) ↔
      ∀ entry, firstNamed (volume.rootDir sector) name83 = some entry → IsDirectory entry →
        answer (firstFile (volume.rootDir sector) name83) = .ok (fields entry) := by
  rw [findDirEntry, findInSectors_eq hd, ← rootDir, findSome_judge]
  constructor
  · intro h entry hentry _
    rw [← h, hentry]
    rfl
  · intro h
    by_cases hdir : ∃ entry, firstNamed (volume.rootDir sector) name83 = some entry ∧
        IsDirectory entry
    · obtain ⟨entry, hentry, hdirectory⟩ := hdir
      rw [h entry hentry hdirectory, hentry]
      rfl
    · rw [firstFile_eq_firstNamed fun entry hentry hdirectory ↦ hdir ⟨entry, hentry, hdirectory⟩]

theorem findDirEntry_exact_iff_disk :
    ((diskVolume 1).findDirEntry (diskDriver 1) ([0x41] ++ List.replicate 10 0x20) ()).1 =
      answer (firstFile ((diskVolume 1).rootDir (disk 1)) ([0x41] ++ List.replicate 10 0x20)) := by
  have hrange : ∀ lba ∈ (diskVolume 1).rootDirLbas, lba < 64 := by decide
  have hnamed : ∀ entry, firstNamed ((diskVolume 1).rootDir (disk 1))
      ([0x41] ++ List.replicate 10 0x20) = some entry → ¬ IsDirectory entry := by
    decide +kernel
  refine (findDirEntry_exact_iff (diskVolume 1) _ ()
    fun lba hlba s ↦ (disk_serves 1).single s lba (hrange lba hlba)).mpr ?_
  intro entry hentry hdirectory
  exact absurd hdirectory (hnamed entry hentry)

def folder (lba : ℕ) : List UInt8 :=
  match lba with
  | 2 => [0x41] ++ List.replicate 10 0x20 ++ [0x10] ++ List.replicate 14 0 ++ [2, 0, 0, 0, 0, 0] ++
    List.replicate 480 0
  | n => disk 1 n

theorem length_folder (lba : ℕ) : (folder lba).length = sectorSize := by
  unfold folder
  split
  · simp only [List.length_append, List.length_cons, List.length_nil, List.length_replicate]
    rfl
  · exact length_disk 1 _

theorem subdirectory_found : mount (virtioBlk 64 folder length_folder) () = (.ok (diskVolume 1), ()) ∧
    firstFile ((diskVolume 1).rootDir folder) ([0x41] ++ List.replicate 10 0x20) = none ∧
    ((diskVolume 1).findDirEntry (virtioBlk 64 folder length_folder)
      ([0x41] ++ List.replicate 10 0x20) ()).1 = .ok (2, 0) ∧
    ((diskVolume 1).readFile (virtioBlk 64 folder length_folder)
      (Foundation.Heap.unshared 8388608) [0x41] ()).1 = .ok [] := by
  refine ⟨?_, ?_, ?_, ?_⟩ <;> decide +kernel

end Tarnos.Fs.Fat12Volume
