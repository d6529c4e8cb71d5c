import Tarnos.Driver.Block
import Tarnos.Foundation.Bytes
import Tarnos.Foundation.Heap

namespace Tarnos.Fs

open Driver Foundation

def bootSigOffset : ℕ := 510
def bootSig : List UInt8 := [0x55, 0xAA]

def bpbBytsPerSec : ℕ := 11
def bpbSecPerClus : ℕ := 13
def bpbRsvdSecCnt : ℕ := 14
def bpbNumFats : ℕ := 16
def bpbRootEntCnt : ℕ := 17
def bpbTotSec16 : ℕ := 19
def bpbFatSz16 : ℕ := 22
def bpbTotSec32 : ℕ := 32

def direntSize : ℕ := 32
def direntNameLen : ℕ := 11
def direntAttr : ℕ := 11
def direntFstClusLo : ℕ := 26
def direntFileSize : ℕ := 28

def direntFreeRest : UInt8 := 0x00
def direntDeleted : UInt8 := 0xE5

def attrVolumeId : UInt8 := 0x08
def attrLongNameMask : UInt8 := 0x0F

def fat12EocMin : ℕ := 0xFF8
def fat12BadCluster : ℕ := 0xFF7
def fat12MaxClusters : ℕ := 4085
def firstDataCluster : ℕ := 2

def readAt (data : List UInt8) (off len : ℕ) : ℕ := leNat ((data.drop off).take len)

def readU8 (data : List UInt8) (off : ℕ) : ℕ := readAt data off 1
def readU16 (data : List UInt8) (off : ℕ) : ℕ := readAt data off 2
def readU32 (data : List UInt8) (off : ℕ) : ℕ := readAt data off 4

inductive FatError
  | io (e : BlockError)
  | badSignature
  | unsupportedSectorSize
  | corruptBootSector
  | notFat12
  | noSuchFile
  | corruptFat
  | nameTooLong
  | noDevice
  deriving DecidableEq, Repr

/-- How a read stops early: with an error, or in the panic of a heap that cannot give a buffer. -/
inductive Fault
  | error (e : FatError)
  | panic
  deriving DecidableEq, Repr

structure Fat12Volume where
  sectorsPerCluster : ℕ
  fatSizeSectors : ℕ
  fatStartLba : ℕ
  rootDirStartLba : ℕ
  rootDirSectors : ℕ
  dataStartLba : ℕ
  totalClusters : ℕ
  deriving DecidableEq, Repr

namespace Fat12Volume

variable {σ : Type} {room : ℕ}

def parse (bootSector : List UInt8) : Except FatError Fat12Volume :=
  let bytesPerSector := readU16 bootSector bpbBytsPerSec
  let sectorsPerCluster := readU8 bootSector bpbSecPerClus
  let numFats := readU8 bootSector bpbNumFats
  let fatSizeSectors := readU16 bootSector bpbFatSz16
  let totalSectors16 := readU16 bootSector bpbTotSec16
  let rootDirSectors := (readU16 bootSector bpbRootEntCnt * direntSize + bytesPerSector - 1) /
    bytesPerSector
  let fatStartLba := readU16 bootSector bpbRsvdSecCnt
  let rootDirStartLba := fatStartLba + numFats * fatSizeSectors
  let dataStartLba := rootDirStartLba + rootDirSectors
  let totalSectors :=
    if totalSectors16 ≠ 0 then totalSectors16 else readU32 bootSector bpbTotSec32
  let totalClusters := (totalSectors - dataStartLba) / sectorsPerCluster
  if (bootSector.drop bootSigOffset).take 2 ≠ bootSig then .error .badSignature
  else if bytesPerSector ≠ sectorSize then .error .unsupportedSectorSize
  else if sectorsPerCluster = 0 ∨ numFats = 0 ∨ fatSizeSectors = 0 then .error .corruptBootSector
  else if fat12MaxClusters ≤ totalClusters then .error .notFat12
  else .ok ⟨sectorsPerCluster, fatSizeSectors, fatStartLba, rootDirStartLba, rootDirSectors,
    dataStartLba, totalClusters⟩

def mount (d : BlockDevice σ) (s : σ) : Except FatError Fat12Volume × σ :=
  match d.readSectors s 0 sectorSize with
  | (.error e, s) => (.error (.io e), s)
  | (.ok bootSector, s) => (parse bootSector, s)

def fatLbas (volume : Fat12Volume) : List ℕ :=
  (List.range volume.fatSizeSectors).map fun i ↦ volume.fatStartLba + i

def tableBytes (volume : Fat12Volume) : ℕ := volume.fatSizeSectors * sectorSize

def readFatTable (volume : Fat12Volume) (d : BlockDevice σ) (heap : Heap room) (s : σ) :
    Except Fault (List UInt8) × σ :=
  if heap.buffer [] volume.tableBytes then
    let out := d.readEach sectorSize volume.fatLbas s
    (out.1.mapError fun e ↦ .error (.io e), out.2)
  else (.error .panic, s)

def fat12Entry (fat : List UInt8) (cluster : ℕ) : Except FatError ℕ :=
  let offset := cluster * 3 / 2
  if fat.length ≤ offset + 1 then .error .corruptFat
  else
    let packed := readU16 fat offset
    .ok (if cluster % 2 = 0 then packed % 0x1000 else packed / 0x10)

/-- The loop of `cluster_chain`: what it has pushed when it ends, and how it ends. -/
def clusterChainFrom (volume : Fat12Volume) (fat : List UInt8) (chain : List ℕ) (cluster : ℕ) :
    List ℕ × Except FatError Unit :=
  if cluster < firstDataCluster then (chain, .error .corruptFat)
  else if volume.totalClusters < chain.length + 1 then (chain ++ [cluster], .error .corruptFat)
  else
    match fat12Entry fat cluster with
    | .error e => (chain ++ [cluster], .error e)
    | .ok next =>
      if fat12EocMin ≤ next then (chain ++ [cluster], .ok ())
      else if next = 0 ∨ next = fat12BadCluster then (chain ++ [cluster], .error .corruptFat)
      else clusterChainFrom volume fat (chain ++ [cluster]) next
termination_by volume.totalClusters - chain.length
decreasing_by
  rw [List.length_append, List.length_singleton]
  omega

def clusterChain (volume : Fat12Volume) (fat : List UInt8) (startCluster : ℕ) :
    Except FatError (List ℕ) :=
  match clusterChainFrom volume fat [] startCluster with
  | (_, .error e) => .error e
  | (chain, .ok ()) => .ok chain

def visited (volume : Fat12Volume) (fat : List UInt8) (startCluster : ℕ) : ℕ :=
  (clusterChainFrom volume fat [] startCluster).1.length

/-- `to_ascii_uppercase`. -/
def upper (c : UInt8) : UInt8 := if 0x61 ≤ c ∧ c ≤ 0x7A then c - 0x20 else c

/-- `rsplit_once('.')` on the bytes of a name. -/
def splitName (name : List UInt8) : List UInt8 × List UInt8 :=
  let ext := (name.reverse.takeWhile (· ≠ 0x2E)).reverse
  if 0x2E ∈ name then (name.take (name.length - ext.length - 1), ext) else (name, [])

def to83Name (name : List UInt8) : Option (List UInt8) :=
  let (base, ext) := splitName name
  if base = [] ∨ 8 < base.length ∨ 3 < ext.length ∨ ¬ name.all (· < 0x80) then none
  else some ((base.map upper).rightpad 8 0x20 ++ (ext.map upper).rightpad 3 0x20)

def dirents (sector : List UInt8) : List (List UInt8) :=
  (List.range (sector.length / direntSize)).map fun i ↦ (sector.drop (i * direntSize)).take direntSize

/-- What one entry decides: nothing, the end of the search, or the result. -/
def judge (name83 : List UInt8) (entry : List UInt8) : Option (Except FatError (ℕ × ℕ)) :=
  let firstByte := entry.getD 0 0
  let attr := entry.getD direntAttr 0
  if firstByte = direntFreeRest then some (.error .noSuchFile)
  else if firstByte = direntDeleted then none
  else if attr &&& attrLongNameMask = attrLongNameMask then none
  else if attr &&& attrVolumeId ≠ 0 then none
  else if entry.take direntNameLen = name83 then
    some (.ok (readU16 entry direntFstClusLo, readU32 entry direntFileSize))
  else none

/-- The loop of `find_dir_entry` over the sectors of the directory. -/
def findInSectors (d : BlockDevice σ) (name83 : List UInt8) : List ℕ → σ →
    Except FatError (ℕ × ℕ) × σ
  | [], s => (.error .noSuchFile, s)
  | lba :: lbas, s =>
    match d.readSectors s lba sectorSize with
    | (.error e, s) => (.error (.io e), s)
    | (.ok sector, s) =>
      match (dirents sector).findSome? (judge name83) with
      | some verdict => (verdict, s)
      | none => findInSectors d name83 lbas s

section

variable (volume : Fat12Volume)

def rootDirLbas : List ℕ :=
  (List.range volume.rootDirSectors).map fun i ↦ volume.rootDirStartLba + i

def findDirEntry (d : BlockDevice σ) (name83 : List UInt8) (s : σ) : Except FatError (ℕ × ℕ) × σ :=
  findInSectors d name83 volume.rootDirLbas s

def clusterBytes : ℕ := volume.sectorsPerCluster * sectorSize

def clusterLba (cluster : ℕ) : ℕ :=
  volume.dataStartLba + (cluster - firstDataCluster) * volume.sectorsPerCluster

def readChain (d : BlockDevice σ) (heap : Heap room) (live chain : List ℕ) (s : σ) :
    Except Fault (List UInt8) × σ :=
  if heap.buffer live (chain.length * volume.clusterBytes) then
    let out := d.readEach volume.clusterBytes (chain.map volume.clusterLba) s
    (out.1.mapError fun e ↦ .error (.io e), out.2)
  else (.error .panic, s)

/-- `read_file` once it has the directory entry. The copy of the table is held while the chain grows,
four bytes to a cluster, and both while the data is read. -/
def readEntry (d : BlockDevice σ) (heap : Heap room) (firstCluster fileSize : ℕ) (s : σ) :
    Except Fault (List UInt8) × σ :=
  if fileSize = 0 then (.ok [], s)
  else
    match volume.readFatTable d heap s with
    | (.error e, s) => (.error e, s)
    | (.ok fat, s) =>
      match heap.pushes [volume.tableBytes] 4 (volume.visited fat firstCluster) with
      | none => (.error .panic, s)
      | some capacity =>
        match volume.clusterChain fat firstCluster with
        | .error e => (.error (.error e), s)
        | .ok chain =>
          match volume.readChain d heap [4 * capacity, volume.tableBytes] chain s with
          | (.error e, s) => (.error e, s)
          | (.ok data, s) => (.ok (data.take fileSize), s)

def readFile (d : BlockDevice σ) (heap : Heap room) (name : List UInt8) (s : σ) :
    Except Fault (List UInt8) × σ :=
  match to83Name name with
  | none => (.error (.error .nameTooLong), s)
  | some name83 =>
    match volume.findDirEntry d name83 s with
    | (.error e, s) => (.error (.error e), s)
    | (.ok (firstCluster, fileSize), s) => volume.readEntry d heap firstCluster fileSize s

end

end Fat12Volume

end Tarnos.Fs
