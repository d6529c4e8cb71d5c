import Tarnos.Fs.Buffers
import Tarnos.Kernel.Transfer
import Tarnos.Memory.UserRange

namespace Tarnos.Kernel.UserReads

open Abi Arch Driver Fs Fs.Fat12Volume Memory Tarnos.Task

variable {E σ : Type} [DecidableEq E] {W room : ℕ} {result : Except SyscallError UInt64}
  {ptr : UInt64}

def blockError : BlockError → SyscallError
  | .outOfRange => .ioOutOfRange
  | _ => .ioError

/-- `sys_block_read` for the process that is current, if one is, and the device found at boot. -/
def sysBlockRead (process : Option (Process E)) (leaves : Leaves) (device : Option (BlockDevice σ))
    (f : TrapFrame) (s : σ) (ram : Ram W) : Except Halt UInt64 × σ × Ram W :=
  if f.r10 = 0 ∨ Kernel.maxSectorsPerRequest < f.r10 then (.error (.error .invalidArgument), s, ram)
  else
    match process with
    | none => (.error (.error .badCapability), s, ram)
    | some process =>
      match resolveDevice process ⟨f.rdi.toUInt32⟩ .blockDevice with
      | .error e => (.error (.error e), s, ram)
      | .ok () =>
        match validateWriteRange leaves f.rdx (f.r10 * 512) with
        | .error halt => (.error halt, s, ram)
        | .ok _ =>
          match device with
          | none => (.error (.error .ioError), s, ram)
          | some d =>
            match d.readSectors s f.rsi.toNat (f.r10 * 512).toNat with
            | (.error e, s) => (.error (.error (blockError e)), s, ram)
            | (.ok data, s) =>
              match copyIntoUserRange leaves f.rdx data ram with
              | (.error halt, ram) => (.error halt, s, ram)
              | (.ok (), ram) => (.ok 0, s, ram)

/-- `sys_file_read` with the mounted root volume on its device, if there is one. -/
def sysFileRead (process : Option (Process E)) (leaves : Leaves)
    (root : Option (Fat12Volume × BlockDevice σ)) (heap : Foundation.Heap room) (f : TrapFrame)
    (s : σ) (ram : Ram W) : Except Halt UInt64 × σ × Ram W :=
  match unpackShortName f.rsi f.rdx f.r10 with
  | none => (.error (.panic .slice), s, ram)
  | some name =>
    match process with
    | none => (.error (.error .badCapability), s, ram)
    | some process =>
      match resolveDevice process ⟨f.rdi.toUInt32⟩ .fsRoot with
      | .error e => (.error (.error e), s, ram)
      | .ok () =>
        match validateWriteRange leaves f.r8 f.r9 with
        | .error halt => (.error halt, s, ram)
        | .ok _ =>
          match root with
          | none => (.error (.error .badCapability), s, ram)
          | some (volume, d) =>
            match volume.readFile d heap name s with
            | (.error .panic, s) => (.error (.panic .heap), s, ram)
            | (.error (.error e), s) => (.error (.error (fileError e)), s, ram)
            | (.ok data, s) =>
              let copyLen := min data.length f.r9.toNat
              match copyIntoUserRange leaves f.r8 (data.take copyLen) ram with
              | (.error halt, ram) => (.error halt, s, ram)
              | (.ok (), ram) => (.ok (UInt64.ofNat copyLen), s, ram)

section Cases

variable {process : Option (Process E)} {leaves : Leaves} {device : Option (BlockDevice σ)}
  {root : Option (Fat12Volume × BlockDevice σ)} {heap : Foundation.Heap room} {f : TrapFrame}
  {s : σ} {ram : Ram W}

/-- How a call can end: without a byte written, or with everything it obtained where the caller
wanted it. -/
inductive Ends (leaves : Leaves) (ram : Ram W) (ptr : UInt64)
    (obtained : List UInt8 → UInt64 → σ → Prop) :
    Except Halt UInt64 × σ × Ram W → Prop
  | fails (e : SyscallError) (s : σ) : Ends leaves ram ptr obtained (.error (.error e), s, ram)
  | panics (why : Crash) (s : σ) (hwhy : why = .nonCanonical ∨ why = .heap) :
      Ends leaves ram ptr obtained (.error (.panic why), s, ram)
  | copies {data : List UInt8} {n : UInt64} {s : σ} {ram' : Ram W} (hobtained : obtained data n s)
      (hcopied : Copied leaves.place ram ram' ptr.toNat data) :
      Ends leaves ram ptr obtained (.ok n, s, ram')

theorem ends_of_halt {len : UInt64} {halt : Halt} {obtained : List UInt8 → UInt64 → σ → Prop}
    (h : validateWriteRange leaves ptr len = .error halt) (s : σ) (ram : Ram W) :
    Ends leaves ram ptr obtained (.error halt, s, ram) := by
  cases halt with
  | error e => exact .fails e s
  | panic why =>
    have hwhy := validateWriteRange_crash h
    subst hwhy
    exact .panics _ s (.inl rfl)

def BlockObtained (device : Option (BlockDevice σ)) (f : TrapFrame) (s : σ) (data : List UInt8)
    (n : UInt64) (s' : σ) : Prop :=
  n = 0 ∧ ∃ d, device = some d ∧
    d.readSectors s f.rsi.toNat (f.r10.toNat * sectorSize) = (.ok data, s')

theorem toNat_sectors (h : ¬ (f.r10 = 0 ∨ Kernel.maxSectorsPerRequest < f.r10)) :
    (f.r10 * 512).toNat = f.r10.toNat * sectorSize := by
  have hle := UInt64.le_iff_toNat_le.mp (UInt64.not_lt.mp (not_or.mp h).2)
  have hmax : Kernel.maxSectorsPerRequest.toNat = 8 := rfl
  have hsize : (512 : UInt64).toNat = 512 := rfl
  rw [UInt64.toNat_mul, hsize, sectorSize]
  omega

theorem sysBlockRead_ends (hdistinct : leaves.Distinct) :
    Ends leaves ram f.rdx (BlockObtained device f s) (sysBlockRead process leaves device f s ram) := by
  unfold sysBlockRead
  split
  · exact .fails _ s
  rename_i hcount
  have hsectors := toNat_sectors hcount
  cases process with
  | none => exact .fails _ s
  | some process =>
    dsimp only
    split
    · exact .fails _ s
    split
    · rename_i halt hvalid
      exact ends_of_halt hvalid s ram
    rename_i stop hvalid
    cases device with
    | none => exact .fails _ s
    | some d =>
      dsimp only
      split
      · exact .fails _ _
      · rename_i data s' hread
        have hlength : data.length = (f.r10 * 512).toNat := d.filled _ _ _ _ _ hread
        obtain ⟨ram', hcopy, hcopied⟩ := copyIntoUserRange_copied ⟨stop, hvalid⟩ hlength.le
          (fun a b hle hless hend ↦ hdistinct.apart ⟨stop, hvalid⟩ hle hless (by omega)) ram
        rw [hcopy]
        rw [hsectors] at hread
        exact .copies ⟨rfl, d, rfl, hread⟩ hcopied

/-- What `sys_file_read` obtains: as much of a file that is read as the buffer holds. -/
def FileObtained (root : Option (Fat12Volume × BlockDevice σ)) (heap : Foundation.Heap room)
    (f : TrapFrame) (s : σ) (data : List UInt8) (n : UInt64) (s' : σ) : Prop :=
  ∃ volume d name file, root = some (volume, d) ∧
    unpackShortName f.rsi f.rdx f.r10 = some name ∧
    volume.readFile d heap name s = (.ok file, s') ∧
    data = file.take (min file.length f.r9.toNat) ∧
    n = UInt64.ofNat (min file.length f.r9.toNat)

theorem sysFileRead_of_readFile {process : Process E} {volume : Fat12Volume} {d : BlockDevice σ}
    {name file : List UInt8} {s' : σ} (hdistinct : leaves.Distinct)
    (hname : unpackShortName f.rsi f.rdx f.r10 = some name)
    (hresolve : resolveDevice process ⟨f.rdi.toUInt32⟩ .fsRoot = .ok ())
    (hvalid : ∃ stop, validateWriteRange leaves f.r8 f.r9 = .ok stop)
    (hread : volume.readFile d heap name s = (.ok file, s'))
    (ram : Ram W) :
    ∃ ram', sysFileRead (some process) leaves (some (volume, d)) heap f s ram =
        (.ok (UInt64.ofNat (min file.length f.r9.toNat)), s', ram') ∧
      Copied leaves.place ram ram' f.r8.toNat (file.take (min file.length f.r9.toNat)) := by
  have hlength : (file.take (min file.length f.r9.toNat)).length ≤ f.r9.toNat := by
    rw [List.length_take]
    omega
  obtain ⟨ram', hcopy, hcopied⟩ := copyIntoUserRange_copied hvalid hlength
    (fun a b hle hless hend ↦ hdistinct.apart hvalid hle hless (by omega)) ram
  obtain ⟨stop, hstop⟩ := hvalid
  refine ⟨ram', ?_, hcopied⟩
  unfold sysFileRead
  simp only [hname, hresolve, hstop, hread, hcopy]

theorem sysFileRead_ends (hdistinct : leaves.Distinct) :
    Ends leaves ram f.r8 (FileObtained root heap f s)
      (sysFileRead process leaves root heap f s ram) := by
  obtain ⟨name, hname⟩ := exists_unpackShortName f.rsi f.rdx f.r10
  cases process with
  | none =>
    simp only [sysFileRead, hname]
    exact .fails _ s
  | some process =>
    cases hresolve : resolveDevice process ⟨f.rdi.toUInt32⟩ .fsRoot with
    | error e =>
      simp only [sysFileRead, hname, hresolve]
      exact .fails _ s
    | ok =>
      cases hvalid : validateWriteRange leaves f.r8 f.r9 with
      | error halt =>
        simp only [sysFileRead, hname, hresolve, hvalid]
        exact ends_of_halt hvalid s ram
      | ok stop =>
        cases root with
        | none =>
          simp only [sysFileRead, hname, hresolve, hvalid]
          exact .fails _ s
        | some mounted =>
          obtain ⟨volume, d⟩ := mounted
          rcases hread : volume.readFile d heap name s with
            ⟨(e | _) | file, s'⟩
          · simp only [sysFileRead, hname, hresolve, hvalid, hread]
            exact .fails _ _
          · simp only [sysFileRead, hname, hresolve, hvalid, hread]
            exact .panics _ _ (.inr rfl)
          · obtain ⟨ram', hcall, hcopied⟩ :=
              sysFileRead_of_readFile hdistinct hname hresolve ⟨stop, hvalid⟩ hread ram
            rw [hcall]
            exact .copies ⟨volume, d, name, file, rfl, hname, hread, rfl, rfl⟩ hcopied

theorem transferred_of_sysFileRead {process : Process E} (hdistinct : leaves.Distinct)
    (hnumber : f.rax = Abi.sysFileRead)
    (hresolve : resolveDevice process ⟨f.rdi.toUInt32⟩ .fsRoot = .ok ())
    (h : (sysFileRead (some process) leaves root heap f s ram).1 = result.mapError .error) :
    Transferred f result := by
  obtain ⟨name, hname⟩ := exists_unpackShortName f.rsi f.rdx f.r10
  cases hvalid : validateWriteRange leaves f.r8 f.r9 with
  | error halt =>
    simp only [sysFileRead, hname, hresolve, hvalid] at h
    cases result with
    | error e => exact .absent hnumber (.error e)
    | ok n => cases h
  | ok stop =>
    cases root with
    | none =>
      simp only [sysFileRead, hname, hresolve, hvalid] at h
      cases result with
      | error e =>
        cases h
        exact .absent hnumber (.ok ())
      | ok n => cases h
    | some mounted =>
      obtain ⟨volume, d⟩ := mounted
      rcases hread : volume.readFile d heap name s with
        ⟨(e | _) | file, s'⟩
      · simp only [sysFileRead, hname, hresolve, hvalid, hread] at h
        cases result with
        | error e' =>
          cases h
          exact .failed hnumber (.ok ()) e
        | ok n => cases h
      · simp only [sysFileRead, hname, hresolve, hvalid, hread] at h
        cases result with
        | error e | ok n => cases h
      · obtain ⟨ram', hcall, -⟩ :=
          sysFileRead_of_readFile hdistinct hname hresolve ⟨stop, hvalid⟩ hread ram
        rw [hcall] at h
        cases result with
        | error e => cases h
        | ok n =>
          cases h
          exact .file hnumber (.ok ()) hread

theorem transferred_of_sysBlockRead (hdistinct : leaves.Distinct)
    (hnumber : f.rax = Abi.sysBlockRead)
    (h : (sysBlockRead process leaves device f s ram).1 = result.mapError .error) :
    Transferred f result := by
  have hends : Ends leaves ram f.rdx (BlockObtained device f s)
      (sysBlockRead process leaves device f s ram) := sysBlockRead_ends hdistinct
  cases result with
  | error e =>
    exact .block hnumber (.error e) none
  | ok n =>
    generalize sysBlockRead process leaves device f s ram = out at h hends
    cases hends with
    | fails e s' | panics why s' => cases h
    | copies hobtained =>
      cases h
      rw [hobtained.1]
      exact .block hnumber (.ok ()) (some (.ok ()))

end Cases

section Exact

variable {process : Option (Process E)} {leaves : Leaves} {device : Option (BlockDevice σ)}
  {root : Option (Fat12Volume × BlockDevice σ)} {heap : Foundation.Heap room} {capacity : ℕ}
  {f : TrapFrame} {s s' : σ}
  {ram ram' : Ram W} {sector : ℕ → List UInt8} {volume : Fat12Volume} {d : BlockDevice σ} {n : UInt64}

/-- The call has put the first bytes of the file into the caller's buffer, as many as the file has
by its directory entry, or as the buffer holds. -/
def FileExact (volume : Fat12Volume) (sector : ℕ → List UInt8) (leaves : Leaves) (f : TrapFrame)
    (ram ram' : Ram W) (n : UInt64) : Prop :=
  ∃ name first size content, unpackShortName f.rsi f.rdx f.r10 = some name ∧
    volume.Recorded sector name first size ∧ volume.Content sector first size content ∧
    n.toNat = min size f.r9.toNat ∧ n.toNat ≤ content.length ∧
    Copied leaves.place ram ram' f.r8.toNat (content.take n.toNat)

def Covers (volume : Fat12Volume) (sector : ℕ → List UInt8) (f : TrapFrame) : Prop :=
  ∀ name first size chain, unpackShortName f.rsi f.rdx f.r10 = some name →
    volume.Recorded sector name first size → Walk (volume.fatBytes sector) first chain →
    min size f.r9.toNat ≤ chain.length * volume.clusterBytes

theorem fileExact_iff {data : List UInt8} (hd : d.Serves capacity sector)
    (hroot : root = some (volume, d)) (hobtained : FileObtained root heap f s data n s')
    (hcopied : Copied leaves.place ram ram' f.r8.toNat data) :
    FileExact volume sector leaves f ram ram' n ↔ Covers volume sector f := by
  obtain ⟨volume', d', name, file, hroot', hname, hread, rfl, hn⟩ := hobtained
  rw [hroot] at hroot'
  cases hroot'
  obtain ⟨first, size, hrecorded, hcontent⟩ := content_of_readFile hd hread
  have hlt : min file.length f.r9.toNat < 2 ^ 64 :=
    (min_le_right _ _).trans_lt f.r9.toNat_lt
  have hn' : n.toNat = min file.length f.r9.toNat := by
    rw [hn, UInt64.toNat_ofNat', Nat.mod_eq_of_lt hlt]
  constructor
  · rintro ⟨name', first', size', content, hname', hrecorded', -, hmin, -, -⟩ name'' first'' size''
      chain hname'' hrecorded'' hwalk
    cases hname.symm.trans hname'
    cases hname.symm.trans hname''
    obtain ⟨rfl, rfl⟩ := hrecorded.unique hrecorded'
    obtain ⟨rfl, rfl⟩ := hrecorded.unique hrecorded''
    rcases hcontent with ⟨rfl, -⟩ | ⟨-, chain', hwalk', -, hlength⟩
    · rw [Nat.zero_min]
      exact Nat.zero_le _
    · rw [hwalk.unique hwalk']
      omega
  · intro hcovers
    have hmin : n.toNat = min size f.r9.toNat := by
      rcases hcontent with ⟨rfl, rfl⟩ | ⟨-, chain, hwalk, -, hlength⟩
      · rw [hn', List.length_nil]
      · have hle := hcovers name first size chain hname hrecorded hwalk
        omega
    refine ⟨name, first, size, file, hname, hrecorded, hcontent, hmin, by omega, ?_⟩
    rwa [hn']

/-- Both calls write exactly what they obtain or nothing, and nothing stops them after the range has
been validated. The block read obtains the requested sectors, and the file read its part of the file
exactly if the chain on the device is long enough for it. -/
theorem user_reads_exact (process : Option (Process E)) (leaves : Leaves)
    (device : Option (BlockDevice σ)) (root : Option (Fat12Volume × BlockDevice σ))
    (heap : Foundation.Heap room) (f : TrapFrame) (s : σ) (ram : Ram W) (capacity : ℕ)
    (sector : ℕ → List UInt8)
    (hdistinct : leaves.Distinct) (hdevice : ∀ d, device = some d → d.Serves capacity sector)
    (hroot : ∀ volume d, root = some (volume, d) → d.Serves capacity sector) :
    Ends leaves ram f.rdx (fun data n _ ↦ n = 0 ∧ data = stored sector f.rsi.toNat f.r10.toNat)
        (sysBlockRead process leaves device f s ram) ∧
      Ends leaves ram f.r8 (FileObtained root heap f s)
        (sysFileRead process leaves root heap f s ram) ∧
      ∀ n s' ram', sysFileRead process leaves root heap f s ram = (.ok n, s', ram') →
        ∃ volume d, root = some (volume, d) ∧
          (FileExact volume sector leaves f ram ram' n ↔ Covers volume sector f) := by
  have hblock : Ends leaves ram f.rdx (BlockObtained device f s)
      (sysBlockRead process leaves device f s ram) := sysBlockRead_ends hdistinct
  have hfile : Ends leaves ram f.r8 (FileObtained root heap f s)
      (sysFileRead process leaves root heap f s ram) := sysFileRead_ends hdistinct
  refine ⟨?_, hfile, fun n s' ram' hok ↦ ?_⟩
  · generalize sysBlockRead process leaves device f s ram = out at hblock
    cases hblock with
    | fails e s' => exact .fails e s'
    | panics why s' hwhy => exact .panics why s' hwhy
    | copies hobtained hcopied =>
      obtain ⟨hn, d, hd, hread⟩ := hobtained
      exact .copies ⟨hn, (hdevice d hd).faithful _ _ _ _ _ hread⟩ hcopied
  · rw [hok] at hfile
    cases hfile with
    | copies hobtained hcopied =>
      have hmounted := hobtained
      obtain ⟨volume, d, name, file, hmounted, -⟩ := hmounted
      exact ⟨volume, d, hmounted, fileExact_iff (hroot volume d hmounted) hmounted hobtained hcopied⟩

theorem sysFileRead_empty (process : Option (Process E))
    (root : Option (Fat12Volume × BlockDevice σ)) (heap : Foundation.Heap room) (f : TrapFrame)
    (s : σ) (ram : Ram W) {ptr' : UInt64}
    (hvalid : ∃ stop, validateWriteRange leaves ptr 0 = .ok stop)
    (hvalid' : ∃ stop, validateWriteRange leaves ptr' 0 = .ok stop) :
    sysFileRead process leaves root heap { f with r8 := ptr, r9 := 0 } s ram =
      sysFileRead process leaves root heap { f with r8 := ptr', r9 := 0 } s ram := by
  obtain ⟨stop, hstop⟩ := hvalid
  obtain ⟨stop', hstop'⟩ := hvalid'
  have hzero : ∀ data : List UInt8, data.take (min data.length (0 : UInt64).toNat) = [] := by
    intro data
    rw [show (0 : UInt64).toNat = 0 from rfl, Nat.min_zero, List.take_zero]
  unfold sysFileRead
  simp only [hstop, hstop', hzero, copyIntoUserRange_nil ⟨stop, hstop⟩,
    copyIntoUserRange_nil ⟨stop', hstop'⟩]

/-- For a range of addresses, validation is exact unless the range is empty and starts in the middle
of a page that could not be written; and an empty buffer is then read the same as one at 0. -/
theorem validate_exact_iff (leaves : Leaves) (ptr len : UInt64)
    (hcanonical : ∀ a, ptr.toNat ≤ a → a < ptr.toNat + len.toNat → canonical a = true) :
    (((∃ stop, validateWriteRange leaves ptr len = .ok stop) ↔
        ptr.toNat + len.toNat < 2 ^ 64 ∧
          ∀ a, ptr.toNat ≤ a → a < ptr.toNat + len.toNat → leaves.Grants a) ↔
      len ≠ 0 ∨ ptr.toNat % 4096 = 0 ∨ leaves.Writable ptr.toNat) ∧
    (len = 0 → ptr.toNat % 4096 = 0 ∨ leaves.Writable ptr.toNat →
      ∀ (process : Option (Process E)) (root : Option (Fat12Volume × BlockDevice σ))
        (heap : Foundation.Heap room) (f : TrapFrame) (s : σ) (ram : Ram W),
        sysFileRead process leaves root heap { f with r8 := ptr, r9 := len } s ram =
          sysFileRead process leaves root heap { f with r8 := 0, r9 := len } s ram) := by
  have hlen : len ≠ 0 ↔ len.toNat ≠ 0 := not_congr (@UInt64.toNat_inj len 0).symm
  have hempty : ∀ ptr' : UInt64, ptr'.toNat % 4096 = 0 ∨ leaves.Writable ptr'.toNat →
      ∃ stop, validateWriteRange leaves ptr' 0 = .ok stop := by
    intro ptr' hstart
    have hptr := ptr'.toNat_lt
    have hzero : (0 : UInt64).toNat = 0 := rfl
    refine validateWriteRange_ok_iff_bytes.mpr ⟨⟨by omega, fun a hle hless ↦ ?_⟩, .inr hstart⟩
    omega
  constructor
  · have hptr := ptr.toNat_lt
    rw [validateWriteRange_ok_iff_bytes, hlen]
    have hbytes : (∀ a, ptr.toNat ≤ a → a < ptr.toNat + len.toNat → leaves.Writable a) ↔
        ∀ a, ptr.toNat ≤ a → a < ptr.toNat + len.toNat → leaves.Grants a :=
      forall₃_congr fun a hle hless ↦ and_iff_right (hcanonical a hle hless)
    rw [hbytes]
    constructor
    · intro hexact
      by_cases hzero : len.toNat = 0
      · exact (hexact.mpr ⟨by omega, fun a hle hless ↦ absurd hless (by omega)⟩).2
      · exact .inl hzero
    · intro hcondition
      exact ⟨fun h ↦ h.1, fun h ↦ ⟨h, hcondition⟩⟩
  · rintro rfl hstart process root heap f s ram
    exact sysFileRead_empty process root heap f s ram (hempty ptr hstart) (hempty 0 (.inl rfl))

end Exact

theorem valid_of_leaf {leaves : Leaves} {n : ℕ} {l : Leaf} (hptr : ptr.toNat = n * 4096)
    (hn : n < 2 ^ 35) (h : leaves n = some l) (hgrants : l.required = true) :
    ∃ stop, validateWriteRange leaves ptr 1000 = .ok stop := by
  have hlen : (1000 : UInt64).toNat = 1000 := rfl
  refine validateWriteRange_ok_iff_bytes.mpr
    ⟨⟨by omega, fun a hle hless ↦ ⟨?_, l, ?_, hgrants⟩⟩, .inl (by decide)⟩
  · simp only [canonical, Bool.or_eq_true, decide_eq_true_eq]
    omega
  · rwa [show a / 4096 = n by omega]

def onePage : Leaves := fun page ↦ if page = 1 then some ⟨⟨7⟩, true, true, true⟩ else none

theorem onePage_some {page : ℕ} {leaf : Leaf} (h : onePage page = some leaf) : page = 1 := by
  unfold onePage at h
  split at h
  · assumption
  · cases h

theorem onePage_distinct : onePage.Distinct :=
  fun _ _ _ _ hp hq _ _ _ ↦ (onePage_some hp).trans (onePage_some hq).symm

theorem onePage_canonical {a : ℕ} (hle : (0x1000 : UInt64).toNat ≤ a)
    (hless : a < (0x1000 : UInt64).toNat + (1000 : UInt64).toNat) :
    canonical a = true ∧ a / 4096 = 1 := by
  have hptr : (0x1000 : UInt64).toNat = 4096 := rfl
  have hlen : (1000 : UInt64).toNat = 1000 := rfl
  simp only [canonical, Bool.or_eq_true, decide_eq_true_eq]
  omega

theorem onePage_valid : ∃ stop, validateWriteRange onePage 0x1000 1000 = .ok stop :=
  valid_of_leaf (n := 1) (l := ⟨⟨7⟩, true, true, true⟩) rfl (by decide) rfl rfl

theorem validate_exact_onePage : ((∃ stop, validateWriteRange onePage 0x1000 1000 = .ok stop) ↔
    (0x1000 : UInt64).toNat + (1000 : UInt64).toNat < 2 ^ 64 ∧
      ∀ a, (0x1000 : UInt64).toNat ≤ a → a < (0x1000 : UInt64).toNat + (1000 : UInt64).toNat →
        onePage.Grants a) ∧ onePage.Grants 0x1234 := by
  have hexact := ((@validate_exact_iff Unit Unit _ 0 0 onePage 0x1000 1000
    fun _ hle hless ↦ (onePage_canonical hle hless).1).1).mpr (.inl (by decide))
  exact ⟨hexact, (hexact.mp onePage_valid).2 0x1234 (by decide) (by decide)⟩

theorem validate_rejects_empty :
    ¬ (∃ stop, validateWriteRange (fun _ ↦ none) 0x1001 0 = .ok stop) ∧
      (0x1001 : UInt64).toNat + (0 : UInt64).toNat < 2 ^ 64 ∧
      ∀ a, (0x1001 : UInt64).toNat ≤ a → a < (0x1001 : UInt64).toNat + (0 : UInt64).toNat →
        canonical a = true ∧ Leaves.Grants (fun _ ↦ none) a := by
  refine ⟨fun hvalid ↦ ?_, by decide, fun a hle hless ↦ ?_⟩
  · rcases (validateWriteRange_ok_iff_bytes.mp hvalid).2 with hlen | haligned | hwritable
    · exact absurd rfl hlen
    · revert haligned
      decide
    · obtain ⟨-, leaf, hleaf, -⟩ := hwritable
      cases hleaf
  · have hzero : (0 : UInt64).toNat = 0 := rfl
    omega

def reader : Process Unit :=
  { Process.new (E := Unit) (Pid.new 0 1) 0 0 none with
    capTable := Kcore.CapTable.new.insert ⟨0⟩ ⟨.fsRoot, .read⟩ }

def readA : TrapFrame :=
  { rax := Abi.sysFileRead, rdi := 0, rsi := 0x41, rdx := 0, r10 := 1, r8 := 0x1000, r9 := 1000 }

def blank : Ram 0 := ⟨.new, fun _ _ ↦ 0⟩

def kernelHeap : Foundation.Heap heapSize := .unshared heapSize

theorem user_reads_exact_disk :
    Ends onePage blank readA.r8
      (FileObtained (some (diskVolume 1, diskDriver 1)) kernelHeap readA ())
      (sysFileRead (some reader) onePage (some (diskVolume 1, diskDriver 1)) kernelHeap readA ()
        blank) := by
  have hexact := user_reads_exact (some reader) onePage (some (diskDriver 1))
    (some (diskVolume 1, diskDriver 1)) kernelHeap readA () blank 64 (disk 1) onePage_distinct
    (fun d hd ↦ by cases hd; exact disk_serves 1) (fun volume d hd ↦ by cases hd; exact disk_serves 1)
  exact hexact.2.1

theorem sysFileRead_short : ∃ ram', sysFileRead (some reader) onePage
      (some (diskVolume 1, shortDriver)) kernelHeap readA () blank = (.ok 512, (), ram') ∧
    ¬ FileExact (diskVolume 1) shortDisk onePage readA blank ram' 512 := by
  have hresolve : resolveDevice reader ⟨readA.rdi.toUInt32⟩ .fsRoot = .ok () := by decide
  have hname : unpackShortName readA.rsi readA.rdx readA.r10 = some [0x41] := by decide +kernel
  obtain ⟨stop, hvalid⟩ := onePage_valid
  have hcount : UInt64.ofNat (min (List.replicate 512 (3 : UInt8)).length readA.r9.toNat) = 512 := by
    rw [List.length_replicate]
    rfl
  obtain ⟨ram', hcall, hcopied⟩ :=
    sysFileRead_of_readFile onePage_distinct hname hresolve ⟨stop, hvalid⟩ readFile_shortDisk blank
  rw [hcount] at hcall
  refine ⟨ram', hcall, fun hexact ↦ ?_⟩
  have hcovers := (fileExact_iff shortDisk_serves rfl
    ⟨_, _, _, _, rfl, hname, readFile_shortDisk, rfl, hcount.symm⟩ hcopied).mp hexact
  obtain ⟨first, size, hrecorded, hcontent⟩ := content_of_readFile shortDisk_serves readFile_shortDisk
  have hentry := rootFile_of_dirEntry shortDisk_serves mount_shortDisk.2
  obtain ⟨rfl, rfl⟩ := hrecorded.unique hentry
  rcases hcontent with ⟨hzero, -⟩ | ⟨-, chain, hwalk, -, hlength⟩
  · cases hzero
  · have hle := hcovers _ 2 1000 chain hname hrecorded hwalk
    have hlen : readA.r9.toNat = 1000 := rfl
    rw [List.length_replicate] at hlength
    omega

end Tarnos.Kernel.UserReads
