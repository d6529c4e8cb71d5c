import Tarnos.Abi
import Tarnos.Arch.TrapFrame
import Tarnos.Memory.Image

namespace Tarnos.Memory

open Abi Arch

variable {W : ℕ}

/-- The entry at the end of a page's walk. -/
structure Leaf where
  frame : PhysFrame
  present : Bool
  writable : Bool
  user : Bool
  deriving DecidableEq

/-- Page tables, by what they hold for each page of the address space. -/
abbrev Leaves := ℕ → Option Leaf

/-- The user half of a process's own tables; what they map is present and user-accessible. -/
def AddressSpace.leaves (space : AddressSpace) : Leaves := fun number ↦
  if h : number < 2 ^ 35 then
    (space.entry ⟨number, h⟩).map fun x ↦ ⟨x.1, true, x.2.writable, true⟩
  else none

theorem AddressSpace.leaves_of_entry {space : AddressSpace} {page : Page} {frame : PhysFrame}
    {flags : PageFlags} (h : space.entry page = some (frame, flags)) :
    space.leaves page.number = some ⟨frame, true, flags.writable, true⟩ := by
  rw [leaves, dif_pos page.user, h, Option.map_some]

/-- Why the kernel stops: an address that is none, a page that is not mapped after all, a sum that
overflows, a heap without room, or a slice past the end of its buffer. -/
inductive Crash
  | nonCanonical
  | unmapped
  | overflow
  | heap
  | slice
  deriving DecidableEq, Repr

/-- How a transfer stops early. -/
inductive Halt
  | error (e : SyscallError)
  | panic (why : Crash)
  deriving DecidableEq, Repr

/-- The flags that `validate_write_range` requires. -/
def Leaf.required (leaf : Leaf) : Bool := leaf.present && leaf.writable && leaf.user

/-- `u64::saturating_add`. -/
def saturatingAdd (a b : UInt64) : UInt64 :=
  if a.toNat + b.toNat < 2 ^ 64 then a + b else 0xFFFF_FFFF_FFFF_FFFF

theorem toNat_saturatingAdd (a b : UInt64) :
    (saturatingAdd a b).toNat = min (a.toNat + b.toNat) (2 ^ 64 - 1) := by
  have ha := a.toNat_lt
  unfold saturatingAdd
  split
  · rename_i hsum
    rw [UInt64.toNat_add]
    omega
  · rename_i hsum
    have hmax : (0xFFFF_FFFF_FFFF_FFFF : UInt64).toNat = 2 ^ 64 - 1 := rfl
    rw [hmax]
    omega

theorem toNat_max (a b : UInt64) : (max a b).toNat = max a.toNat b.toNat := by
  change (if a ≤ b then b else a).toNat = _
  split
  · rename_i h
    rw [max_eq_right (UInt64.le_iff_toNat_le.mp h)]
  · rename_i h
    rw [max_eq_left (UInt64.le_iff_toNat_le.mp (UInt64.le_of_lt (UInt64.not_le.mp h)))]

theorem toNat_min (a b : UInt64) : (min a b).toNat = min a.toNat b.toNat := by
  change (if a ≤ b then a else b).toNat = _
  split
  · rename_i h
    rw [min_eq_left (UInt64.le_iff_toNat_le.mp h)]
  · rename_i h
    rw [min_eq_right (UInt64.le_iff_toNat_le.mp (UInt64.le_of_lt (UInt64.not_le.mp h)))]

theorem lt_saturatingAdd {pageAddr stop : UInt64} (h : pageAddr < stop) :
    stop.toNat - (saturatingAdd pageAddr 4096).toNat < stop.toNat - pageAddr.toNat := by
  have hlt := UInt64.lt_iff_toNat_lt.mp h
  have hstop := stop.toNat_lt
  have hpage : (4096 : UInt64).toNat = 4096 := rfl
  rw [toNat_saturatingAdd, hpage]
  omega

def pageStart (ptr : UInt64) : UInt64 := ptr &&& ~~~0xFFF

theorem toNat_pageStart (ptr : UInt64) : (pageStart ptr).toNat = ptr.toNat / 4096 * 4096 := by
  have hptr := ptr.toNat_lt
  have hmask : (pageStart ptr).toNat = ((ptr.toBitVec >>> 12) <<< 12).toNat :=
    congrArg BitVec.toNat (and_not_mask ptr.toBitVec)
  rw [hmask, BitVec.toNat_shiftLeft, BitVec.toNat_ushiftRight, Nat.shiftRight_eq_div_pow,
    Nat.shiftLeft_eq, UInt64.toNat_toBitVec]
  omega

/-- `translate_in(VirtAddr::new(..))` of the start of a page. -/
def translateIn (leaves : Leaves) (pageAddr : UInt64) : Except Crash (Option Leaf) :=
  if canonical pageAddr.toNat then .ok (leaves (pageAddr.toNat / 4096)) else .error .nonCanonical

/-- The loop of `validate_write_range`. -/
def validatePages (leaves : Leaves) (stop pageAddr : UInt64) : Except Halt Unit :=
  if _ : pageAddr < stop then
    match translateIn leaves pageAddr with
    | .error why => .error (.panic why)
    | .ok none => .error (.error .invalidArgument)
    | .ok (some leaf) =>
      if leaf.required then validatePages leaves stop (saturatingAdd pageAddr 4096)
      else .error (.error .invalidArgument)
  else .ok ()
termination_by stop.toNat - pageAddr.toNat
decreasing_by exact lt_saturatingAdd ‹_›

def validateWriteRange (leaves : Leaves) (ptr len : UInt64) : Except Halt UInt64 :=
  if ptr.toNat + len.toNat < 2 ^ 64 then
    match validatePages leaves (ptr + len) (pageStart ptr) with
    | .error halt => .error halt
    | .ok () => .ok (ptr + len)
  else .error (.error .invalidArgument)

/-- The loop of `copy_into_user_range`. -/
def copyPages (leaves : Leaves) (ptr stop : UInt64) (src : List UInt8) (pageAddr : UInt64)
    (ram : Ram W) : Except Halt Unit × Ram W :=
  if _ : pageAddr < stop then
    match translateIn leaves pageAddr with
    | .error why => (.error (.panic why), ram)
    | .ok none => (.error (.panic .unmapped), ram)
    | .ok (some leaf) =>
      let copyStart := max ptr pageAddr
      let copyEnd := min stop (saturatingAdd pageAddr 4096)
      let offsetInPage := copyStart - pageAddr
      let offsetInSrc := copyStart - ptr
      let copyLen := copyEnd - copyStart
      copyPages leaves ptr stop src (saturatingAdd pageAddr 4096)
        (ram.write leaf.frame offsetInPage.toNat
          ((src.drop offsetInSrc.toNat).take copyLen.toNat))
  else (.ok (), ram)
termination_by stop.toNat - pageAddr.toNat
decreasing_by exact lt_saturatingAdd ‹_›

def copyIntoUserRange (leaves : Leaves) (ptr : UInt64) (src : List UInt8) (ram : Ram W) :
    Except Halt Unit × Ram W :=
  if ptr.toNat + src.length < 2 ^ 64 then
    copyPages leaves ptr (ptr + UInt64.ofNat src.length) src (pageStart ptr) ram
  else (.error (.panic .overflow), ram)

/-- The address lies in a page whose leaf entry is present, writable and user-accessible. -/
def Leaves.Grants (leaves : Leaves) (address : ℕ) : Prop :=
  ∃ leaf, leaves (address / 4096) = some leaf ∧ leaf.required = true

section Validate

variable {leaves : Leaves} {stop pageAddr ptr len : UInt64} {e : SyscallError}

theorem canonical_of_translateIn {entry : Option Leaf}
    (h : translateIn leaves pageAddr = .ok entry) :
    canonical pageAddr.toNat = true ∧ leaves (pageAddr.toNat / 4096) = entry := by
  unfold translateIn at h
  split at h
  · rename_i hcanonical
    exact ⟨hcanonical, Except.ok.inj h⟩
  · cases h

theorem validatePages_done (h : stop ≤ pageAddr) : validatePages leaves stop pageAddr = .ok () := by
  rw [validatePages, dif_neg (UInt64.not_lt.mpr h)]

theorem next_page (stop : UInt64) (haligned : 4096 ∣ pageAddr.toNat) :
    stop ≤ saturatingAdd pageAddr 4096 ∨
      (saturatingAdd pageAddr 4096).toNat = pageAddr.toNat + 4096 ∧
        4096 ∣ (saturatingAdd pageAddr 4096).toNat := by
  have hstop := stop.toNat_lt
  have hpage : (4096 : UInt64).toNat = 4096 := rfl
  rw [UInt64.le_iff_toNat_le, toNat_saturatingAdd, hpage]
  by_cases hfits : pageAddr.toNat + 4096 ≤ 2 ^ 64 - 1
  · right
    rw [min_eq_left hfits]
    exact ⟨rfl, Nat.dvd_add haligned (Nat.dvd_refl _)⟩
  · left
    rw [min_eq_right (by omega)]
    omega

theorem validatePages_ok_iff (haligned : 4096 ∣ pageAddr.toNat) :
    validatePages leaves stop pageAddr = .ok () ↔
      ∀ a, 4096 ∣ a → pageAddr.toNat ≤ a → a < stop.toNat →
        canonical a = true ∧ leaves.Grants a := by
  fun_induction validatePages leaves stop pageAddr with
  | case1 pageAddr hlt why htranslate =>
    have hlt' := UInt64.lt_iff_toNat_lt.mp hlt
    constructor
    · intro h
      cases h
    · intro h
      unfold translateIn at htranslate
      rw [if_pos (h _ haligned le_rfl hlt').1] at htranslate
      cases htranslate
  | case2 pageAddr hlt htranslate =>
    have hlt' := UInt64.lt_iff_toNat_lt.mp hlt
    constructor
    · intro h
      cases h
    · intro h
      obtain ⟨hcanonical, leaf, hleaf, -⟩ := h _ haligned le_rfl hlt'
      unfold translateIn at htranslate
      rw [if_pos hcanonical, hleaf] at htranslate
      cases htranslate
  | case3 pageAddr hlt leaf htranslate hrequired ih =>
    have hlt' := UInt64.lt_iff_toNat_lt.mp hlt
    have hhere : canonical pageAddr.toNat = true ∧ leaves.Grants pageAddr.toNat := by
      unfold translateIn at htranslate
      split at htranslate
      · rename_i hcanonical
        exact ⟨hcanonical, leaf, Except.ok.inj htranslate, hrequired⟩
      · cases htranslate
    rcases next_page stop haligned with hend | ⟨hnext, haligned'⟩
    · rw [validatePages_done hend]
      have hend' := UInt64.le_iff_toNat_le.mp hend
      have hpage : (4096 : UInt64).toNat = 4096 := rfl
      rw [toNat_saturatingAdd, hpage] at hend'
      refine ⟨fun _ a hdvd hle hstop ↦ ?_, fun _ ↦ rfl⟩
      have heq : a = pageAddr.toNat := by omega
      rw [heq]
      exact hhere
    · rw [ih haligned', hnext]
      constructor
      · intro h a hdvd hle hstop
        rcases Nat.eq_or_lt_of_le hle with heq | hlater
        · rw [← heq]
          exact hhere
        · exact h a hdvd (by omega) hstop
      · intro h a hdvd hle hstop
        exact h a hdvd (by omega) hstop
  | case4 pageAddr hlt leaf htranslate hrequired =>
    have hlt' := UInt64.lt_iff_toNat_lt.mp hlt
    constructor
    · intro h
      cases h
    · intro h
      obtain ⟨hcanonical, leaf', hleaf, hrequired'⟩ := h _ haligned le_rfl hlt'
      unfold translateIn at htranslate
      rw [if_pos hcanonical, hleaf] at htranslate
      cases htranslate
      exact absurd hrequired' hrequired
  | case5 pageAddr hle =>
    refine ⟨fun _ a _ hfirst hstop ↦ ?_, fun _ ↦ rfl⟩
    have hle' := UInt64.le_iff_toNat_le.mp (UInt64.not_lt.mp hle)
    omega

theorem validatePages_error (h : validatePages leaves stop pageAddr = .error (.error e)) :
    e = .invalidArgument := by
  fun_induction validatePages leaves stop pageAddr with
  | case1 => cases h
  | case2 =>
    cases h
    rfl
  | case3 pageAddr hlt leaf htranslate hrequired ih => exact ih h
  | case4 =>
    cases h
    rfl
  | case5 => cases h

theorem validatePages_panic_iff (haligned : 4096 ∣ pageAddr.toNat) :
    (∃ why, validatePages leaves stop pageAddr = .error (.panic why)) ↔
      ∃ a, 4096 ∣ a ∧ pageAddr.toNat ≤ a ∧ a < stop.toNat ∧ canonical a = false ∧
        ∀ b, 4096 ∣ b → pageAddr.toNat ≤ b → b < a → canonical b = true ∧ leaves.Grants b := by
  fun_induction validatePages leaves stop pageAddr with
  | case1 pageAddr hlt why htranslate =>
    have hlt' := UInt64.lt_iff_toNat_lt.mp hlt
    refine ⟨fun _ ↦ ⟨_, haligned, le_rfl, hlt', ?_, fun b _ hle hless ↦ absurd hle (by omega)⟩,
      fun _ ↦ ⟨why, rfl⟩⟩
    unfold translateIn at htranslate
    split at htranslate
    · cases htranslate
    · rename_i hcanonical
      exact Bool.not_eq_true _ ▸ hcanonical
  | case2 pageAddr hlt htranslate =>
    have hcanonical := canonical_of_translateIn htranslate
    constructor
    · rintro ⟨why, h⟩
      cases h
    · rintro ⟨a, hdvd, hle, hstop, hnot, hbefore⟩
      rcases Nat.eq_or_lt_of_le hle with heq | hlater
      · rw [← heq, hcanonical.1] at hnot
        cases hnot
      · obtain ⟨-, leaf, hleaf, -⟩ := hbefore _ haligned le_rfl hlater
        rw [hcanonical.2] at hleaf
        cases hleaf
  | case3 pageAddr hlt leaf htranslate hrequired ih =>
    obtain ⟨hcanonical, hleaf⟩ := canonical_of_translateIn htranslate
    have hhere : canonical pageAddr.toNat = true ∧ leaves.Grants pageAddr.toNat :=
      ⟨hcanonical, leaf, hleaf, hrequired⟩
    rcases next_page stop haligned with hend | ⟨hnext, haligned'⟩
    · rw [validatePages_done hend]
      have hend' := UInt64.le_iff_toNat_le.mp hend
      have hpage : (4096 : UInt64).toNat = 4096 := rfl
      rw [toNat_saturatingAdd, hpage] at hend'
      constructor
      · rintro ⟨why, h⟩
        cases h
      · rintro ⟨a, hdvd, hle, hstop, hnot, -⟩
        have heq : a = pageAddr.toNat := by omega
        rw [heq, hcanonical] at hnot
        cases hnot
    · rw [ih haligned', hnext]
      constructor
      · rintro ⟨a, hdvd, hle, hstop, hnot, hbefore⟩
        refine ⟨a, hdvd, by omega, hstop, hnot, fun b hdvd' hle' hless ↦ ?_⟩
        rcases Nat.eq_or_lt_of_le hle' with heq | hlater
        · rw [← heq]
          exact hhere
        · exact hbefore b hdvd' (by omega) hless
      · rintro ⟨a, hdvd, hle, hstop, hnot, hbefore⟩
        rcases Nat.eq_or_lt_of_le hle with heq | hlater
        · rw [← heq, hcanonical] at hnot
          cases hnot
        · exact ⟨a, hdvd, by omega, hstop, hnot, fun b hdvd' hle' hless ↦
            hbefore b hdvd' (by omega) hless⟩
  | case4 pageAddr hlt leaf htranslate hrequired =>
    obtain ⟨hcanonical, hleaf⟩ := canonical_of_translateIn htranslate
    constructor
    · rintro ⟨why, h⟩
      cases h
    · rintro ⟨a, hdvd, hle, hstop, hnot, hbefore⟩
      rcases Nat.eq_or_lt_of_le hle with heq | hlater
      · rw [← heq, hcanonical] at hnot
        cases hnot
      · obtain ⟨-, leaf', hleaf', hrequired'⟩ := hbefore _ haligned le_rfl hlater
        rw [hleaf] at hleaf'
        cases hleaf'
        exact absurd hrequired' hrequired
  | case5 pageAddr hle =>
    have hle' := UInt64.le_iff_toNat_le.mp (UInt64.not_lt.mp hle)
    constructor
    · rintro ⟨why, h⟩
      cases h
    · rintro ⟨a, -, hfirst, hstop, -⟩
      omega

theorem toNat_end (h : ptr.toNat + len.toNat < 2 ^ 64) :
    (ptr + len).toNat = ptr.toNat + len.toNat := by
  rw [UInt64.toNat_add, Nat.mod_eq_of_lt h]

theorem pageStart_aligned (ptr : UInt64) : 4096 ∣ (pageStart ptr).toNat := by
  rw [toNat_pageStart]
  exact Nat.dvd_mul_left _ _

theorem validateWriteRange_ok_iff : (∃ stop, validateWriteRange leaves ptr len = .ok stop) ↔
    ptr.toNat + len.toNat < 2 ^ 64 ∧
      ∀ a, 4096 ∣ a → ptr.toNat / 4096 * 4096 ≤ a → a < ptr.toNat + len.toNat →
        canonical a = true ∧ leaves.Grants a := by
  unfold validateWriteRange
  by_cases hsum : ptr.toNat + len.toNat < 2 ^ 64
  · rw [if_pos hsum, ← toNat_pageStart, ← toNat_end hsum,
      ← validatePages_ok_iff (pageStart_aligned ptr)]
    rcases validatePages leaves (ptr + len) (pageStart ptr) with halt | ⟨⟩
    · exact ⟨fun ⟨_, h⟩ ↦ (by cases h), fun h ↦ (by cases h.2)⟩
    · exact ⟨fun _ ↦ ⟨by rwa [toNat_end hsum], rfl⟩, fun _ ↦ ⟨_, rfl⟩⟩
  · rw [if_neg hsum]
    exact ⟨fun ⟨_, h⟩ ↦ (by cases h), fun h ↦ absurd h.1 hsum⟩

/-- The range has a page that is no address behind pages that the check lets pass. -/
def Leaves.LeadsOut (leaves : Leaves) (ptr len : UInt64) : Prop :=
  ptr.toNat + len.toNat < 2 ^ 64 ∧
    ∃ a, 4096 ∣ a ∧ ptr.toNat / 4096 * 4096 ≤ a ∧ a < ptr.toNat + len.toNat ∧
      canonical a = false ∧ ∀ b, 4096 ∣ b → ptr.toNat / 4096 * 4096 ≤ b → b < a →
        canonical b = true ∧ leaves.Grants b

theorem validateWriteRange_panic_iff :
    (∃ why, validateWriteRange leaves ptr len = .error (.panic why)) ↔
      leaves.LeadsOut ptr len := by
  unfold validateWriteRange Leaves.LeadsOut
  by_cases hsum : ptr.toNat + len.toNat < 2 ^ 64
  · rw [if_pos hsum, ← toNat_pageStart, ← toNat_end hsum,
      ← validatePages_panic_iff (pageStart_aligned ptr)]
    rcases validatePages leaves (ptr + len) (pageStart ptr) with halt | ⟨⟩
    · constructor
      · rintro ⟨why, h⟩
        cases h
        exact ⟨by rwa [toNat_end hsum], why, rfl⟩
      · rintro ⟨-, why, h⟩
        cases h
        exact ⟨why, rfl⟩
    · exact ⟨fun ⟨_, h⟩ ↦ (by cases h), fun ⟨_, _, h⟩ ↦ (by cases h)⟩
  · rw [if_neg hsum]
    exact ⟨fun ⟨_, h⟩ ↦ (by cases h), fun h ↦ absurd h.1 hsum⟩

theorem validateWriteRange_error (h : validateWriteRange leaves ptr len = .error (.error e)) :
    e = .invalidArgument := by
  unfold validateWriteRange at h
  split at h
  · split at h
    · rename_i halt hpages
      cases h
      exact validatePages_error hpages
    · cases h
  · cases h
    rfl

theorem validatePages_crash {why : Crash}
    (h : validatePages leaves stop pageAddr = .error (.panic why)) : why = .nonCanonical := by
  fun_induction validatePages leaves stop pageAddr with
  | case1 pageAddr hlt why' htranslate =>
    cases h
    unfold translateIn at htranslate
    split at htranslate
    · cases htranslate
    · cases htranslate
      rfl
  | case2 => cases h
  | case3 pageAddr hlt leaf htranslate hrequired ih => exact ih h
  | case4 => cases h
  | case5 => cases h

theorem validateWriteRange_crash {why : Crash}
    (h : validateWriteRange leaves ptr len = .error (.panic why)) : why = .nonCanonical := by
  unfold validateWriteRange at h
  split at h
  · split at h
    · rename_i halt hpages
      cases h
      exact validatePages_crash hpages
    · cases h
  · cases h

/-- Validation answers, with success or with `InvalidArgument`, exactly if the range does not lead
out of the address space behind pages that pass. -/
theorem validateWriteRange_answers_iff (leaves : Leaves) (ptr len : UInt64) :
    ((∃ stop, validateWriteRange leaves ptr len = .ok stop) ∨
        validateWriteRange leaves ptr len = .error (.error .invalidArgument)) ↔
      ¬ leaves.LeadsOut ptr len := by
  rw [← validateWriteRange_panic_iff]
  have herror : ∀ e, validateWriteRange leaves ptr len = .error (.error e) →
      e = .invalidArgument := fun e ↦ validateWriteRange_error
  generalize validateWriteRange leaves ptr len = out at herror ⊢
  rcases out with halt | stop
  · cases halt with
    | error e =>
      have he := herror e rfl
      subst he
      exact ⟨fun _ ⟨_, h⟩ ↦ (by cases h), fun _ ↦ .inr rfl⟩
    | panic why =>
      constructor
      · rintro (⟨stop, h⟩ | h)
        · cases h
        · cases h
      · intro h
        exact absurd ⟨why, rfl⟩ h
  · exact ⟨fun _ ⟨_, h⟩ ↦ (by cases h), fun _ ↦ .inl ⟨stop, rfl⟩⟩

/-- One byte just behind the lower half, with nothing mapped. -/
theorem validateWriteRange_panics :
    validateWriteRange (fun _ ↦ none) 0x0000_8000_0000_0000 1 = .error (.panic .nonCanonical) := by
  have hsum : (0x0000_8000_0000_0000 : UInt64).toNat + (1 : UInt64).toNat < 2 ^ 64 := by decide
  have hlt : pageStart 0x0000_8000_0000_0000 < (0x0000_8000_0000_0000 : UInt64) + 1 := by decide
  have htranslate : translateIn (fun _ ↦ none) (pageStart 0x0000_8000_0000_0000) =
      .error .nonCanonical := rfl
  rw [validateWriteRange, if_pos hsum, validatePages, dif_pos hlt, htranslate]

end Validate

def Leaves.place (leaves : Leaves) (address : ℕ) : Option (PhysFrame × ℕ) :=
  (leaves (address / 4096)).map fun leaf ↦ (leaf.frame, address % 4096)

def Leaves.Distinct (leaves : Leaves) : Prop :=
  ∀ p q leaf leaf', leaves p = some leaf → leaves q = some leaf' → leaf.user = true →
    leaf'.user = true → leaf.frame = leaf'.frame → p = q

section Copy

variable {leaves : Leaves} {ptr stop pageAddr : UInt64} {src : List UInt8}

theorem Leaves.Distinct.place_ne (h : leaves.Distinct) {a b : ℕ} (ha : leaves.Grants a)
    (hb : leaves.Grants b) (hne : a ≠ b) : leaves.place a ≠ leaves.place b := by
  obtain ⟨leaf, hleaf, hrequired⟩ := ha
  obtain ⟨leaf', hleaf', hrequired'⟩ := hb
  intro hplace
  rw [place, place, hleaf, hleaf', Option.map_some, Option.map_some, Option.some_inj,
    Prod.mk.injEq] at hplace
  obtain ⟨hframe, hoffset⟩ := hplace
  have huser : leaf.user = true ∧ leaf'.user = true := by
    simp only [Leaf.required, Bool.and_eq_true] at hrequired hrequired'
    exact ⟨hrequired.2, hrequired'.2⟩
  have hpage := h _ _ leaf leaf' hleaf hleaf' huser.1 huser.2 hframe
  omega

theorem grants_of_page {a : ℕ} (h : leaves.Grants (a / 4096 * 4096)) : leaves.Grants a := by
  obtain ⟨leaf, hleaf, hrequired⟩ := h
  rw [Nat.mul_div_cancel _ (by decide)] at hleaf
  exact ⟨leaf, hleaf, hrequired⟩

theorem copied_page (ram : Ram W) {leaf : Leaf} {page start : ℕ} {data : List UInt8}
    (hleaf : leaves (page / 4096) = some leaf) (haligned : 4096 ∣ page) (hstart : page ≤ start)
    (hend : start + data.length ≤ page + 4096) :
    Copied leaves.place ram (ram.write leaf.frame (start - page) data) start data := by
  apply Copied.write
  intro k hk
  have hpage : (start + k) / 4096 = page / 4096 := by omega
  have hoffset : (start + k) % 4096 = start - page + k := by omega
  rw [Leaves.place, hpage, hoffset, hleaf, Option.map_some]

theorem copyPages_copied (ram : Ram W)
    (hapart : ∀ a b, ptr.toNat ≤ a → a < b → b < stop.toNat → leaves.place a ≠ leaves.place b)
    (hstop : stop.toNat = ptr.toNat + src.length) (haligned : 4096 ∣ pageAddr.toNat)
    (hfirst : ptr.toNat < pageAddr.toNat + 4096)
    (hgrants : ∀ a, 4096 ∣ a → pageAddr.toNat ≤ a → a < stop.toNat →
      canonical a = true ∧ leaves.Grants a) :
    ∃ ram', copyPages leaves ptr stop src pageAddr ram = (.ok (), ram') ∧
      Copied leaves.place ram ram' (max ptr.toNat pageAddr.toNat)
        (src.drop (max ptr.toNat pageAddr.toNat - ptr.toNat)) := by
  fun_induction copyPages leaves ptr stop src pageAddr ram with
  | case1 pageAddr ram hlt why htranslate =>
    have hhere := hgrants _ haligned le_rfl (UInt64.lt_iff_toNat_lt.mp hlt)
    rw [translateIn, if_pos hhere.1] at htranslate
    cases htranslate
  | case2 pageAddr ram hlt htranslate =>
    obtain ⟨-, leaf, hleaf, -⟩ := hgrants _ haligned le_rfl (UInt64.lt_iff_toNat_lt.mp hlt)
    rw [(canonical_of_translateIn htranslate).2] at hleaf
    cases hleaf
  | case3 pageAddr ram hlt leaf htranslate copyStart copyEnd offsetInPage offsetInSrc copyLen ih =>
    have hlt' := UInt64.lt_iff_toNat_lt.mp hlt
    have hleaf := (canonical_of_translateIn htranslate).2
    have hpage : (4096 : UInt64).toNat = 4096 := rfl
    have hptr := ptr.toNat_lt
    have hlimit := stop.toNat_lt
    have hnext := toNat_saturatingAdd pageAddr 4096
    rw [hpage] at hnext
    have hcopyStart : copyStart.toNat = max ptr.toNat pageAddr.toNat := toNat_max ptr pageAddr
    have hcopyEnd : copyEnd.toNat = min stop.toNat (saturatingAdd pageAddr 4096).toNat :=
      toNat_min stop _
    have hinPage : offsetInPage.toNat = max ptr.toNat pageAddr.toNat - pageAddr.toNat := by
      rw [← hcopyStart]
      exact UInt64.toNat_sub_of_le _ _ (UInt64.le_iff_toNat_le.mpr (by omega))
    have hinSrc : offsetInSrc.toNat = max ptr.toNat pageAddr.toNat - ptr.toNat := by
      rw [← hcopyStart]
      exact UInt64.toNat_sub_of_le _ _ (UInt64.le_iff_toNat_le.mpr (by omega))
    have hcopyLen : copyLen.toNat = copyEnd.toNat - copyStart.toNat :=
      UInt64.toNat_sub_of_le _ _ (UInt64.le_iff_toNat_le.mpr (by omega))
    rw [hinPage, hinSrc, hcopyLen, hcopyStart] at ih ⊢
    generalize hm : max ptr.toNat pageAddr.toNat = m at *
    generalize hchunk : (src.drop (m - ptr.toNat)).take (copyEnd.toNat - m) = chunk at *
    have hlength : chunk.length = copyEnd.toNat - m := by
      rw [← hchunk, List.length_take, List.length_drop]
      omega
    have hcopied : Copied leaves.place ram
        (ram.write leaf.frame (m - pageAddr.toNat) chunk) m chunk :=
      copied_page ram hleaf haligned (by omega) (by omega)
    by_cases hend : stop ≤ saturatingAdd pageAddr 4096
    · -- the last page: what goes there is the rest of the source
      have hend' := UInt64.le_iff_toNat_le.mp hend
      rw [List.take_of_length_le (by rw [List.length_drop]; omega)] at hchunk
      rw [copyPages, dif_neg (UInt64.not_lt.mpr hend), hchunk]
      exact ⟨_, rfl, hcopied⟩
    · obtain ⟨hnext', haligned'⟩ := (next_page stop haligned).resolve_left hend
      have hmore := UInt64.lt_iff_toNat_lt.mp (UInt64.not_le.mp hend)
      obtain ⟨ram', hcopy, hrest⟩ := ih haligned' (by omega) fun a hdvd hle ↦
        hgrants a hdvd (by omega)
      refine ⟨ram', hcopy, ?_⟩
      rw [max_eq_right (by omega), hnext'] at hrest
      have hsplit : src.drop (m - ptr.toNat) =
          chunk ++ src.drop (pageAddr.toNat + 4096 - ptr.toNat) := by
        have hsum : m - ptr.toNat + (copyEnd.toNat - m) = pageAddr.toNat + 4096 - ptr.toNat := by
          omega
        rw [← List.take_append_drop (copyEnd.toNat - m) (src.drop (m - ptr.toNat)), hchunk,
          List.drop_drop, hsum]
      have hbetween : m + chunk.length = pageAddr.toNat + 4096 := by omega
      rw [hsplit]
      apply hcopied.append
      · rwa [hbetween]
      · intro k hk j hj
        rw [List.length_drop] at hj
        exact hapart _ _ (by omega) (by omega) (by omega)
  | case4 pageAddr ram hle =>
    have hle' := UInt64.le_iff_toNat_le.mp (UInt64.not_lt.mp hle)
    refine ⟨ram, rfl, ?_⟩
    rw [List.drop_eq_nil_of_le (by omega)]
    exact .nil _ _ _

theorem copyIntoUserRange_copied {len : UInt64}
    (hvalid : ∃ stop, validateWriteRange leaves ptr len = .ok stop) (hlength : src.length ≤ len.toNat)
    (hapart : ∀ a b, ptr.toNat ≤ a → a < b → b < ptr.toNat + src.length →
      leaves.place a ≠ leaves.place b)
    (ram : Ram W) : ∃ ram', copyIntoUserRange leaves ptr src ram = (.ok (), ram') ∧
      Copied leaves.place ram ram' ptr.toNat src := by
  obtain ⟨hsum, hgrants⟩ := validateWriteRange_ok_iff.mp hvalid
  have hofNat : (UInt64.ofNat src.length).toNat = src.length := by
    rw [UInt64.toNat_ofNat', Nat.mod_eq_of_lt (by omega)]
  have hstop : (ptr + UInt64.ofNat src.length).toNat = ptr.toNat + src.length := by
    rw [toNat_end (by omega), hofNat]
  have hstart := toNat_pageStart ptr
  obtain ⟨ram', hcopy, hcopied⟩ := copyPages_copied ram (fun a b hle hless hend ↦
    hapart a b hle hless (by omega)) hstop (pageStart_aligned ptr) (by omega) fun a hdvd hle hless ↦
      hgrants a hdvd (by omega) (by omega)
  refine ⟨ram', ?_, ?_⟩
  · rw [copyIntoUserRange, if_pos (by omega), hcopy]
  · rwa [max_eq_left (by omega), Nat.sub_self, List.drop_zero] at hcopied

theorem Leaves.Distinct.apart (h : leaves.Distinct) {len : UInt64}
    (hvalid : ∃ stop, validateWriteRange leaves ptr len = .ok stop) {a b : ℕ} (hle : ptr.toNat ≤ a)
    (hless : a < b) (hend : b < ptr.toNat + len.toNat) : leaves.place a ≠ leaves.place b := by
  obtain ⟨-, hgrants⟩ := validateWriteRange_ok_iff.mp hvalid
  have hgranted : ∀ x, ptr.toNat ≤ x → x < ptr.toNat + len.toNat → leaves.Grants x := fun x hx hx' ↦
    grants_of_page (hgrants _ (Nat.dvd_mul_left _ _) (by omega) (by omega)).2
  exact h.place_ne (hgranted a hle (by omega)) (hgranted b (by omega) hend) (by omega)

theorem copyIntoUserRange_nil {len : UInt64}
    (hvalid : ∃ stop, validateWriteRange leaves ptr len = .ok stop) (ram : Ram W) :
    copyIntoUserRange leaves ptr [] ram = (.ok (), ram) := by
  obtain ⟨ram', hcopy, hcopied⟩ := copyIntoUserRange_copied hvalid (Nat.zero_le _)
    (fun a b hle hless hend ↦ absurd hend (by rw [List.length_nil]; omega)) ram
  rw [hcopy]
  have hbytes : ram'.bytes = ram.bytes := by
    funext f i
    exact hcopied.others f i fun k hk ↦ absurd hk (Nat.not_lt_zero k)
  have hsame : ram' = ram := by
    obtain ⟨allocator, bytes⟩ := ram
    obtain ⟨allocator', bytes'⟩ := ram'
    cases hbytes
    cases hcopied.allocator
    rfl
  rw [hsame]

def Leaves.Writable (leaves : Leaves) (address : ℕ) : Prop :=
  canonical address = true ∧ leaves.Grants address

theorem canonical_page (a : ℕ) : canonical (a / 4096 * 4096) = canonical a := by
  rw [Bool.eq_iff_iff]
  simp only [canonical, Bool.or_eq_true, decide_eq_true_eq]
  omega

theorem writable_page (a : ℕ) : leaves.Writable (a / 4096 * 4096) ↔ leaves.Writable a := by
  rw [Leaves.Writable, Leaves.Writable, canonical_page, Leaves.Grants, Leaves.Grants,
    Nat.mul_div_cancel _ (by decide)]

/-- Byte by byte: the page of the start counts even if the range is empty, unless the range starts
with it. -/
theorem validateWriteRange_ok_iff_bytes {len : UInt64} :
    (∃ stop, validateWriteRange leaves ptr len = .ok stop) ↔
      (ptr.toNat + len.toNat < 2 ^ 64 ∧
        ∀ a, ptr.toNat ≤ a → a < ptr.toNat + len.toNat → leaves.Writable a) ∧
      (len.toNat ≠ 0 ∨ ptr.toNat % 4096 = 0 ∨ leaves.Writable ptr.toNat) := by
  rw [validateWriteRange_ok_iff]
  constructor
  · rintro ⟨hsum, hpages⟩
    refine ⟨⟨hsum, fun a hle hless ↦ ?_⟩, ?_⟩
    · exact (writable_page a).mp (hpages _ (Nat.dvd_mul_left _ _) (by omega) (by omega))
    · by_cases haligned : ptr.toNat % 4096 = 0
      · exact .inr (.inl haligned)
      · refine .inr (.inr ((writable_page _).mp ?_))
        exact hpages _ (Nat.dvd_mul_left _ _) le_rfl (by omega)
  · rintro ⟨⟨hsum, hbytes⟩, hempty⟩
    refine ⟨hsum, fun a hdvd hle hless ↦ ?_⟩
    by_cases hin : ptr.toNat ≤ a
    · exact hbytes a hin hless
    · -- the page that the range starts in the middle of
      have hfirst : a = ptr.toNat / 4096 * 4096 := by omega
      rw [hfirst]
      apply (writable_page _).mpr
      rcases hempty with hlen | haligned | hwritable
      · exact hbytes _ le_rfl (by omega)
      · omega
      · exact hwritable

end Copy

end Tarnos.Memory
