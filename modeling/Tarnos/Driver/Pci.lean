import Mathlib.Algebra.Group.Nat.Defs
import Mathlib.Logic.Function.Basic
import Tarnos.Foundation.Bytes

namespace Tarnos.Driver

open Foundation Function

abbrev ConfigSpace := UInt8 → UInt8

/-- What stops the kernel in the middle of the capability list. -/
inductive PciFault
  | addOverflow
  | indexOutOfBounds
  deriving DecidableEq, Repr

def addU8 (a b : UInt8) : Except PciFault UInt8 :=
  if a.toNat + b.toNat < 2 ^ 8 then .ok (a + b) else .error .addOverflow

def addU32 (a b : UInt32) : Except PciFault UInt32 :=
  if a.toNat + b.toNat < 2 ^ 32 then .ok (a + b) else .error .addOverflow

namespace ConfigSpace

def readU32 (cfg : ConfigSpace) (offset : UInt8) : UInt32 :=
  let base := offset &&& 0xFC
  UInt32.ofNat (leNat ((List.range 4).map fun i ↦ cfg (base + UInt8.ofNat i)))

def readU16 (cfg : ConfigSpace) (offset : UInt8) : UInt16 :=
  let dword := cfg.readU32 (offset &&& ~~~ 0b11)
  let shift := (offset &&& 0b11) * 8
  (dword >>> shift.toUInt32).toUInt16

def readU8 (cfg : ConfigSpace) (offset : UInt8) : UInt8 :=
  let dword := cfg.readU32 (offset &&& ~~~ 0b11)
  let shift := (offset &&& 0b11) * 8
  (dword >>> shift.toUInt32).toUInt8

def status (cfg : ConfigSpace) : UInt16 := cfg.readU16 0x06

def capabilities (cfg : ConfigSpace) : UInt8 :=
  if cfg.status &&& (1 : UInt16) <<< 4 ≠ 0 then cfg.readU8 0x34 else 0

/-- `PciCapabilities::next`: the entry at `next`, if there is one, and the next link. -/
def nextCapability (cfg : ConfigSpace) (next : UInt8) :
    Except PciFault (Option (UInt8 × UInt8 × UInt8)) :=
  if next = 0 then .ok none
  else do
    let offset := next
    let capId := cfg.readU8 offset
    let link ← addU8 offset 1
    .ok (some (capId, offset, cfg.readU8 link))

end ConfigSpace

def pciCapIdVendorSpecific : UInt8 := 0x09
def virtioPciCapCommonCfg : UInt8 := 1
def virtioPciCapNotifyCfg : UInt8 := 2
def virtioPciCapDeviceCfg : UInt8 := 4

structure VirtioCap where
  bar : Fin 6
  offset : UInt32
  length : UInt32
  deriving DecidableEq, Repr

/-- What `VirtioBlk::new` has found in the capability list so far. -/
structure Scan where
  common : Option VirtioCap := none
  notify : Option VirtioCap := none
  notifyOffMultiplier : UInt32 := 0
  deviceCfg : Option VirtioCap := none
  barMinSize : Fin 6 → UInt32 := fun _ ↦ 0

namespace Scan

def barIndex (bar : UInt8) : Except PciFault (Fin 6) :=
  if h : bar.toNat < 6 then .ok ⟨bar.toNat, h⟩ else .error .indexOutOfBounds

def visit (cfg : ConfigSpace) (scan : Scan) (capId capOffset : UInt8) : Except PciFault Scan :=
  if capId ≠ pciCapIdVendorSpecific then .ok scan
  else do
    let cfgType := cfg.readU8 (← addU8 capOffset 3)
    let bar := cfg.readU8 (← addU8 capOffset 4)
    let offset := cfg.readU32 (← addU8 capOffset 8)
    let length := cfg.readU32 (← addU8 capOffset 12)
    let bar ← barIndex bar
    let size ← addU32 offset length
    let cap : VirtioCap := ⟨bar, offset, length⟩
    let scan := { scan with barMinSize := update scan.barMinSize bar (max (scan.barMinSize bar) size) }
    if cfgType = virtioPciCapCommonCfg then .ok { scan with common := some cap }
    else if cfgType = virtioPciCapNotifyCfg then do
      let multiplier := cfg.readU32 (← addU8 capOffset 16)
      .ok { scan with notify := some cap, notifyOffMultiplier := multiplier }
    else if cfgType = virtioPciCapDeviceCfg then .ok { scan with deviceCfg := some cap }
    else .ok scan

/-- The loop over the capabilities from `next` on; `none` is a loop that has not ended yet. -/
def run (cfg : ConfigSpace) : ℕ → UInt8 → Scan → Option (Except PciFault Scan)
  | 0, _, _ => none
  | fuel + 1, next, scan =>
    match cfg.nextCapability next with
    | .error fault => some (.error fault)
    | .ok none => some (.ok scan)
    | .ok (some (capId, capOffset, next)) =>
      match scan.visit cfg capId capOffset with
      | .error fault => some (.error fault)
      | .ok scan => run cfg fuel next scan

end Scan

def mmioVbase : ℕ := 0xffff_9600_0000_0000
def barVstride : ℕ := 0x10_0000

/-- What becomes of the device: the addresses of its three structures, or a panic that names what it
lacks. -/
inductive Verdict
  | rejected
  | accepted (commonCfg notifyBase deviceCfg : ℕ)
  deriving DecidableEq, Repr

/-- `resolve`: only a BAR of which some bytes are needed was mapped. -/
def Scan.resolve (scan : Scan) (cap : VirtioCap) : Option ℕ :=
  if 0 < scan.barMinSize cap.bar then some (mmioVbase + cap.bar * barVstride + cap.offset.toNat)
  else none

def Scan.verdict (scan : Scan) : Verdict :=
  match scan.common.bind scan.resolve, scan.notify.bind scan.resolve,
    scan.deviceCfg.bind scan.resolve with
  | some commonCfg, some notifyBase, some deviceCfg => .accepted commonCfg notifyBase deviceCfg
  | _, _, _ => .rejected

/-- `VirtioBlk::new` up to the addresses of the device's registers. -/
def virtioBlkNew (fuel : ℕ) (cfg : ConfigSpace) : Option (Except PciFault Verdict) :=
  (Scan.run cfg fuel cfg.capabilities {}).map fun result ↦ result.map Scan.verdict

section Checks

theorem addU8_of_lt {a b : UInt8} (h : a.toNat + b.toNat < 2 ^ 8) : addU8 a b = .ok (a + b) :=
  if_pos h

theorem addU32_of_lt {a b : UInt32} (h : a.toNat + b.toNat < 2 ^ 32) : addU32 a b = .ok (a + b) :=
  if_pos h

theorem of_addU8 {a b sum : UInt8} (h : addU8 a b = .ok sum) :
    a.toNat + b.toNat < 2 ^ 8 ∧ sum = a + b := by
  unfold addU8 at h
  split at h
  · rename_i hlt
    cases h
    exact ⟨hlt, rfl⟩
  · cases h

theorem of_addU32 {a b sum : UInt32} (h : addU32 a b = .ok sum) : a.toNat + b.toNat < 2 ^ 32 := by
  unfold addU32 at h
  split at h
  · assumption
  · cases h

theorem Scan.of_barIndex {bar : UInt8} {i : Fin 6} (h : barIndex bar = .ok i) : bar.toNat < 6 := by
  unfold barIndex at h
  split at h
  · assumption
  · cases h

theorem of_bind {α β : Type} {x : Except PciFault α} {f : α → Except PciFault β} {b : β}
    (h : x >>= f = .ok b) : ∃ a, x = .ok a ∧ f a = .ok b := by
  cases x with
  | error fault => cases h
  | ok a => exact ⟨a, rfl, h⟩

end Checks

namespace ConfigSpace

variable {cfg : ConfigSpace} {next o : UInt8} {offsets : List UInt8}

theorem and_mask (n : ℕ) (h : n < 256) :
    UInt8.ofNat n &&& 0xFC = UInt8.ofNat (4 * (n / 4)) ∧
      UInt8.ofNat n &&& ~~~ 0b11 = UInt8.ofNat (4 * (n / 4)) ∧
      ((UInt8.ofNat n &&& 0b11) * 8).toUInt32.toNat = 8 * (n % 4) ∧
      UInt8.ofNat (4 * (n / 4)) &&& 0xFC = UInt8.ofNat (4 * (n / 4)) := by
  revert n
  decide +kernel

theorem readU8_eq (cfg : ConfigSpace) (o : UInt8) : cfg.readU8 o = cfg o := by
  obtain ⟨-, hdword, hshift, hbase⟩ := and_mask o.toNat o.toNat_lt
  rw [UInt8.ofNat_toNat] at hdword hshift
  generalize hbytes :
    (List.range 4).map (fun i ↦ cfg (UInt8.ofNat (4 * (o.toNat / 4)) + UInt8.ofNat i)) = bytes
  have hlen : bytes.length = 4 := by
    rw [← hbytes, List.length_map, List.length_range]
  have hnat : leNat bytes < 2 ^ 32 := by
    have := leNat_lt bytes
    rwa [hlen] at this
  have hmod : o.toNat % 4 < bytes.length := by omega
  have hread : (cfg.readU8 o).toNat = bytes[o.toNat % 4].toNat := by
    simp only [readU8, readU32, hdword, hbase, hbytes]
    rw [toNat_getElem hmod, UInt32.toNat_toUInt8, UInt32.toNat_shiftRight, hshift,
      UInt32.toNat_ofNat_of_lt' hnat, Nat.mod_eq_of_lt (show 8 * (o.toNat % 4) < 32 by omega),
      Nat.shiftRight_eq_div_pow, Nat.pow_mul]
  have hsplit : UInt8.ofNat (4 * (o.toNat / 4)) + UInt8.ofNat (o.toNat % 4) = o := by
    rw [← UInt8.ofNat_add, Nat.div_add_mod, UInt8.ofNat_toNat]
  rw [UInt8.toNat_inj.mp hread]
  simp only [← hbytes, List.getElem_map, List.getElem_range, hsplit]

/-- The entry at `o` lies inside the configuration space, with a BAR that exists and a window that
ends below 4 GiB if it is a virtio one. -/
structure Fits (cfg : ConfigSpace) (o : UInt8) : Prop where
  link : o ≠ 0xFF
  inside : cfg o = pciCapIdVendorSpecific → o.toNat + 12 < 2 ^ 8
  bar : cfg o = pciCapIdVendorSpecific → (cfg (o + 4)).toNat < 6
  window : cfg o = pciCapIdVendorSpecific →
    (cfg.readU32 (o + 8)).toNat + (cfg.readU32 (o + 12)).toNat < 2 ^ 32
  multiplier : cfg o = pciCapIdVendorSpecific → cfg (o + 3) = virtioPciCapNotifyCfg →
    o.toNat + 16 < 2 ^ 8

/-- The links from `next` on lead through the entries at `offsets` to the end of the list. -/
inductive Lists (cfg : ConfigSpace) : UInt8 → List UInt8 → Prop
  | nil : Lists cfg 0 []
  | cons {o : UInt8} {offsets : List UInt8} (ho : o ≠ 0) (h : Lists cfg (cfg (o + 1)) offsets) :
      Lists cfg o (o :: offsets)

theorem lt_of_ne_top (h : o ≠ 0xFF) : o.toNat + (1 : UInt8).toNat < 2 ^ 8 := by
  have hlt := o.toNat_lt
  have hne : o.toNat ≠ 255 := fun heq ↦ h (UInt8.toNat_inj.mp heq)
  have hone : (1 : UInt8).toNat = 1 := rfl
  omega

theorem ne_top_of_lt (h : o.toNat + (1 : UInt8).toNat < 2 ^ 8) : o ≠ 0xFF := by
  rintro rfl
  exact absurd h (by decide)

theorem nextCapability_of_ne (h : next ≠ 0) (hlink : next ≠ 0xFF) :
    cfg.nextCapability next = .ok (some (cfg next, next, cfg (next + 1))) := by
  simp only [nextCapability, if_neg h, addU8_of_lt (lt_of_ne_top hlink), readU8_eq]
  rfl

theorem of_nextCapability {entry : UInt8 × UInt8 × UInt8}
    (h : cfg.nextCapability next = .ok (some entry)) :
    next ≠ 0 ∧ next ≠ 0xFF ∧ entry = (cfg next, next, cfg (next + 1)) := by
  unfold nextCapability at h
  split at h
  · cases h
  · rename_i hne
    obtain ⟨link, hadd, hentry⟩ := of_bind h
    obtain ⟨hlt, rfl⟩ := of_addU8 hadd
    cases hentry
    exact ⟨hne, ne_top_of_lt hlt, by rw [readU8_eq, readU8_eq]⟩

end ConfigSpace

namespace Scan

variable {cfg : ConfigSpace} {scan scan' : Scan} {o : UInt8}

theorem of_visit (h : scan.visit cfg (cfg o) o = .ok scan') (ho : o ≠ 0xFF) : cfg.Fits o := by
  by_cases hid : cfg o = pciCapIdVendorSpecific
  · unfold visit at h
    rw [if_neg (not_not.mpr hid)] at h
    obtain ⟨atType, htype, h₁⟩ := of_bind h
    obtain ⟨atBar, hbar, h₂⟩ := of_bind h₁
    obtain ⟨atOffset, hoffset, h₃⟩ := of_bind h₂
    obtain ⟨atLength, hlength, h₄⟩ := of_bind h₃
    obtain ⟨bar, hindex, h₅⟩ := of_bind h₄
    obtain ⟨size, hsize, hmatch⟩ := of_bind h₅
    obtain ⟨-, rfl⟩ := of_addU8 htype
    obtain ⟨-, rfl⟩ := of_addU8 hbar
    obtain ⟨-, rfl⟩ := of_addU8 hoffset
    obtain ⟨hinside, rfl⟩ := of_addU8 hlength
    refine ⟨ho, fun _ ↦ hinside, fun _ ↦ ?_, fun _ ↦ of_addU32 hsize, fun _ hnotify ↦ ?_⟩
    · rw [← cfg.readU8_eq]
      exact of_barIndex hindex
    · simp only [cfg.readU8_eq, hnotify] at hmatch
      rw [if_neg (by decide), if_pos trivial] at hmatch
      obtain ⟨atMultiplier, hmultiplier, -⟩ := of_bind hmatch
      exact (of_addU8 hmultiplier).1
  · exact ⟨ho, fun h ↦ absurd h hid, fun h ↦ absurd h hid, fun h ↦ absurd h hid,
      fun h ↦ absurd h hid⟩

theorem visit_of_fits (h : cfg.Fits o) (scan : Scan) :
    ∃ scan', scan.visit cfg (cfg o) o = .ok scan' := by
  unfold visit
  by_cases hid : cfg o = pciCapIdVendorSpecific
  · have hinside := h.inside hid
    have hwindow := h.window hid
    have hbar := h.bar hid
    have hadd : ∀ n : ℕ, n ≤ 12 → addU8 o (UInt8.ofNat n) = .ok (o + UInt8.ofNat n) := by
      intro n hn
      have hnat : (UInt8.ofNat n).toNat = n :=
        UInt8.toNat_ofNat_of_lt' (Nat.lt_of_le_of_lt hn (by decide))
      exact addU8_of_lt (by omega)
    have hindex : barIndex (cfg.readU8 (o + 4)) = .ok ⟨_, hbar⟩ := by
      rw [cfg.readU8_eq]
      exact dif_pos hbar
    rw [if_neg (not_not.mpr hid)]
    rw [show addU8 o 3 = _ from hadd 3 (by decide), show addU8 o 4 = _ from hadd 4 (by decide),
      show addU8 o 8 = _ from hadd 8 (by decide), show addU8 o 12 = _ from hadd 12 (by decide)]
    simp only [bind, Except.bind]
    rw [show barIndex (cfg.readU8 (o + UInt8.ofNat 4)) = _ from hindex]
    dsimp only
    rw [show addU32 (cfg.readU32 (o + UInt8.ofNat 8)) (cfg.readU32 (o + UInt8.ofNat 12)) = _ from
      addU32_of_lt hwindow]
    dsimp only
    by_cases hnotify : cfg (o + 3) = virtioPciCapNotifyCfg
    · rw [addU8_of_lt (show o.toNat + (16 : UInt8).toNat < 2 ^ 8 from h.multiplier hid hnotify)]
      split_ifs <;> exact ⟨_, rfl⟩
    · have htype : cfg.readU8 (o + UInt8.ofNat 3) ≠ virtioPciCapNotifyCfg := by
        rw [cfg.readU8_eq]
        exact hnotify
      rw [if_neg htype]
      split_ifs <;> exact ⟨_, rfl⟩
  · rw [if_pos hid]
    exact ⟨scan, rfl⟩

theorem run_of_lists {next : UInt8} {offsets : List UInt8} (h : cfg.Lists next offsets)
    (hfits : ∀ o ∈ offsets, cfg.Fits o) (scan : Scan) :
    ∃ scan', run cfg (offsets.length + 1) next scan = some (.ok scan') := by
  induction h generalizing scan with
  | nil => exact ⟨scan, rfl⟩
  | @cons o offsets ho h ih =>
    have ho' := hfits o List.mem_cons_self
    obtain ⟨visited, hvisit⟩ := visit_of_fits ho' scan
    obtain ⟨scan', hrest⟩ := ih (fun o' h' ↦ hfits o' (List.mem_cons_of_mem _ h')) visited
    refine ⟨scan', ?_⟩
    rw [List.length_cons, run, ConfigSpace.nextCapability_of_ne ho ho'.link]
    dsimp only
    rw [hvisit]
    exact hrest

theorem lists_of_run {fuel : ℕ} {next : UInt8} (h : run cfg fuel next scan = some (.ok scan')) :
    ∃ offsets, cfg.Lists next offsets ∧ ∀ o ∈ offsets, cfg.Fits o := by
  induction fuel generalizing next scan with
  | zero => cases h
  | succ fuel ih =>
    rw [run] at h
    split at h
    · cases h
    · rename_i hnext
      have hend : next = 0 := by
        by_contra hne
        rw [ConfigSpace.nextCapability, if_neg hne] at hnext
        obtain ⟨link, -, hsome⟩ := of_bind hnext
        cases hsome
      subst hend
      exact ⟨[], .nil, fun o ho ↦ absurd ho List.not_mem_nil⟩
    · rename_i capId capOffset link hnext
      obtain ⟨hne, htop, hentry⟩ := ConfigSpace.of_nextCapability hnext
      cases hentry
      split at h
      · cases h
      · rename_i visited hvisit
        obtain ⟨offsets, hlists, hfits⟩ := ih h
        refine ⟨next :: offsets, .cons hne hlists, fun o ho ↦ ?_⟩
        rcases List.mem_cons.mp ho with rfl | ho
        · exact of_visit hvisit htop
        · exact hfits o ho

end Scan

/-- The capability list comes to an end, and the device is accepted or rejected with no addition that
overflows and no index out of bounds before. -/
def Settles (cfg : ConfigSpace) : Prop := ∃ fuel verdict, virtioBlkNew fuel cfg = some (.ok verdict)

theorem settles_iff_run {cfg : ConfigSpace} :
    Settles cfg ↔ ∃ fuel scan, Scan.run cfg fuel cfg.capabilities {} = some (.ok scan) := by
  unfold Settles virtioBlkNew
  constructor
  · rintro ⟨fuel, verdict, h⟩
    obtain ⟨result, hrun, hverdict⟩ := Option.map_eq_some_iff.mp h
    cases result with
    | error fault => cases hverdict
    | ok scan => exact ⟨fuel, scan, hrun⟩
  · rintro ⟨fuel, scan, hrun⟩
    exact ⟨fuel, scan.verdict, by rw [hrun]; rfl⟩

/-- A device is settled exactly if its links come to an end and every entry on the way fits. -/
theorem settles_iff (cfg : ConfigSpace) :
    Settles cfg ↔ ∃ offsets, cfg.Lists cfg.capabilities offsets ∧ ∀ o ∈ offsets, cfg.Fits o := by
  rw [settles_iff_run]
  constructor
  · rintro ⟨fuel, scan, hrun⟩
    exact Scan.lists_of_run hrun
  · rintro ⟨offsets, hlists, hfits⟩
    obtain ⟨scan, hrun⟩ := Scan.run_of_lists hlists hfits {}
    exact ⟨offsets.length + 1, scan, hrun⟩

/-- A device with a capability list that starts at `pointer`, and `entry` for the bytes behind the
header. -/
def listAt (pointer : UInt8) (entry : UInt8 → UInt8) : ConfigSpace := fun o ↦
  if o = 0x06 then 0x10 else if o = 0x34 then pointer else entry o

def selfLoop : ConfigSpace := listAt 0x40 fun o ↦ if o = 0x41 then 0x40 else 0

theorem run_selfLoop (fuel : ℕ) (scan : Scan) : Scan.run selfLoop fuel 0x40 scan = none := by
  induction fuel with
  | zero => rfl
  | succ fuel ih =>
    have hnext : selfLoop.nextCapability 0x40 = .ok (some (0, 0x40, 0x40)) :=
      ConfigSpace.nextCapability_of_ne (by decide) (by decide)
    rw [Scan.run, hnext]
    exact ih

/-- The walk of an entry that links to itself never ends. An entry at 0xFF, one that starts near the
end of the space, a BAR index of 6 and a window that ends past 4 GiB stop the kernel. -/
theorem capability_walk_fails :
    (∀ fuel, virtioBlkNew fuel selfLoop = none) ∧
      virtioBlkNew 2 (listAt 0xFF fun _ ↦ 0) = some (.error .addOverflow) ∧
      virtioBlkNew 2 (listAt 0xF8 fun o ↦ if o = 0xF8 then 0x09 else 0) =
        some (.error .addOverflow) ∧
      virtioBlkNew 2 (listAt 0x40 fun o ↦
        if o = 0x40 then 0x09 else if o = 0x44 then 6 else 0) = some (.error .indexOutOfBounds) ∧
      virtioBlkNew 2 (listAt 0x40 fun o ↦
        if o = 0x40 then 0x09 else if 0x48 ≤ o ∧ o < 0x50 then 0xFF else 0) =
          some (.error .addOverflow) := by
  refine ⟨fun fuel ↦ ?_, by decide +kernel, by decide +kernel, by decide +kernel,
    by decide +kernel⟩
  have hpointer : selfLoop.capabilities = 0x40 := by decide +kernel
  rw [virtioBlkNew, hpointer, run_selfLoop]
  rfl

end Tarnos.Driver
