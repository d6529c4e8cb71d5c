import Tarnos.Fs.Fat
import Tarnos.Kernel.Syscall

namespace Tarnos.Kernel

open Abi Arch Driver Foundation Fs

def blockReadOutcome (range : Except SyscallError Unit) (read : Option (Except BlockError Unit)) :
    Except SyscallError UInt64 :=
  match range, read with
  | .error e, _ => .error e
  | .ok _, some (.ok _) => .ok 0
  | .ok _, some (.error .outOfRange) => .error .ioOutOfRange
  | .ok _, some (.error _) => .error .ioError
  | .ok _, none => .error .ioError

def fileError : FatError → SyscallError
  | .noSuchFile => .noSuchFile
  | .nameTooLong => .invalidArgument
  | _ => .ioError

def fileReadOutcome (range : Except SyscallError Unit) (bufLen : UInt64)
    (file : Option (Except FatError (List UInt8))) : Except SyscallError UInt64 :=
  match range, file with
  | .error e, _ => .error e
  | .ok _, none => .error .badCapability
  | .ok _, some (.error e) => .error (fileError e)
  | .ok _, some (.ok data) => .ok (UInt64.ofNat (min data.length bufLen.toNat))

/-- The results the two transfers can have for the registers `f`, whatever disk they meet. -/
inductive Transferred (f : TrapFrame) : Except SyscallError UInt64 → Prop
  | block (hnumber : f.rax = sysBlockRead) (range : Except SyscallError Unit)
      (read : Option (Except BlockError Unit)) : Transferred f (blockReadOutcome range read)
  | absent (hnumber : f.rax = sysFileRead) (range : Except SyscallError Unit) :
      Transferred f (fileReadOutcome range f.r9 none)
  | failed (hnumber : f.rax = sysFileRead) (range : Except SyscallError Unit) (e : FatError) :
      Transferred f (fileReadOutcome range f.r9 (some (.error e)))
  | file (hnumber : f.rax = sysFileRead) (range : Except SyscallError Unit) {σ : Type}
      {volume : Fat12Volume} {d : BlockDevice σ} {room : ℕ} {heap : Foundation.Heap room}
      {name data : List UInt8} {s s' : σ} (hread : volume.readFile d heap name s = (.ok data, s')) :
      Transferred f (fileReadOutcome range f.r9 (some (.ok data)))

theorem readU32_lt (data : List UInt8) (off : ℕ) : readU32 data off < 2 ^ 32 := by
  rw [readU32, readAt, leNat_take]
  exact Nat.mod_lt _ (by decide)

theorem judge_size_lt {name83 entry : List UInt8} {cluster size : ℕ}
    (h : Fat12Volume.judge name83 entry = some (.ok (cluster, size))) : size < 2 ^ 32 := by
  unfold Fat12Volume.judge at h
  dsimp only at h
  split_ifs at h
  · cases h
  · cases h
    exact readU32_lt entry direntFileSize

theorem findInSectors_size_lt {σ : Type} {d : BlockDevice σ} {name83 : List UInt8} {lbas : List ℕ}
    {s s' : σ} {cluster size : ℕ}
    (h : Fat12Volume.findInSectors d name83 lbas s = (.ok (cluster, size), s')) :
    size < 2 ^ 32 := by
  induction lbas generalizing s with
  | nil => cases h
  | cons lba lbas ih =>
    rw [Fat12Volume.findInSectors] at h
    split at h
    · cases h
    · split at h
      · rename_i sector _ _ verdict hverdict
        cases h
        obtain ⟨_, _, entry, _, hjudge, _⟩ := List.findSome?_eq_some_iff.mp hverdict
        exact judge_size_lt hjudge
      · exact ih h

theorem length_readEntry_le {σ : Type} {volume : Fat12Volume} {d : BlockDevice σ} {room : ℕ}
    {heap : Foundation.Heap room} {first size : ℕ} {data : List UInt8} {s s' : σ}
    (h : volume.readEntry d heap first size s = (.ok data, s')) : data.length ≤ size := by
  unfold Fat12Volume.readEntry at h
  split at h
  · cases h
    exact Nat.zero_le _
  split at h
  · cases h
  split at h
  · cases h
  split at h
  · cases h
  split at h
  · cases h
  · cases h
    exact List.length_take_le _ _

theorem length_readFile_lt {σ : Type} {volume : Fat12Volume} {d : BlockDevice σ} {room : ℕ}
    {heap : Foundation.Heap room} {name data : List UInt8} {s s' : σ}
    (h : volume.readFile d heap name s = (.ok data, s')) : data.length < 2 ^ 32 := by
  unfold Fat12Volume.readFile at h
  split at h
  · cases h
  split at h
  · cases h
  · rename_i hentry
    exact (length_readEntry_le h).trans_lt (findInSectors_size_lt hentry)

theorem blockReadOutcome_ok {range : Except SyscallError Unit}
    {read : Option (Except BlockError Unit)} {n : UInt64}
    (h : blockReadOutcome range read = .ok n) : n = 0 := by
  unfold blockReadOutcome at h
  split at h <;> cases h
  rfl

theorem fileReadOutcome_ok {range : Except SyscallError Unit} {bufLen n : UInt64}
    {file : Option (Except FatError (List UInt8))} (h : fileReadOutcome range bufLen file = .ok n) :
    ∃ data, file = some (.ok data) ∧ n = UInt64.ofNat (min data.length bufLen.toNat) := by
  unfold fileReadOutcome at h
  split at h <;> cases h
  exact ⟨_, rfl, rfl⟩

theorem Transferred.lt {f : TrapFrame} {n : UInt64} {result : Except SyscallError UInt64}
    (h : Transferred f result) (hok : result = .ok n) : n.toNat < 2 ^ 32 := by
  cases h with
  | block _ range read =>
    rw [blockReadOutcome_ok hok]
    decide
  | absent _ range | failed _ range e =>
    obtain ⟨data, hdata, -⟩ := fileReadOutcome_ok hok
    cases hdata
  | @file _ range σ volume d room heap name data s s' hread =>
    obtain ⟨_, hdata, rfl⟩ := fileReadOutcome_ok hok
    cases hdata
    have hlt : min data.length f.r9.toNat < 2 ^ 32 :=
      (min_le_left _ _).trans_lt (length_readFile_lt hread)
    rwa [UInt64.toNat_ofNat_of_lt' (hlt.trans (by decide))]

end Tarnos.Kernel
