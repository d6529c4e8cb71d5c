import Mathlib.Algebra.Group.Nat.Defs
import Mathlib.Tactic.Common

namespace Tarnos.Task

/-- A process identifier: a table index in the low 32 bits, the slot's generation above it. -/
structure Pid where
  raw : UInt64
  deriving DecidableEq, Repr

namespace Pid

def new (index : ℕ) (generation : UInt32) : Pid :=
  ⟨UInt64.ofNat index ||| (generation.toUInt64 <<< 32)⟩

def index (p : Pid) : ℕ := (p.raw &&& 0xFFFF_FFFF).toNat

def generation (p : Pid) : UInt32 := (p.raw >>> 32).toUInt32

theorem index_eq_mod (p : Pid) : p.index = p.raw.toNat % 2 ^ 32 := by
  have hmask : (0xFFFF_FFFF : UInt64).toNat = 2 ^ 32 - 1 := rfl
  rw [index, UInt64.toNat_and, hmask, Nat.and_two_pow_sub_one_eq_mod]

theorem generation_toNat (p : Pid) : p.generation.toNat = p.raw.toNat / 2 ^ 32 := by
  have hlt : p.raw.toNat < 2 ^ 64 := p.raw.toNat_lt
  have hshift : (p.raw >>> 32).toNat = p.raw.toNat / 2 ^ 32 := by
    rw [UInt64.toNat_shiftRight, Nat.shiftRight_eq_div_pow]
    rfl
  rw [generation, UInt64.toNat_toUInt32, hshift]
  omega

theorem raw_new {i : ℕ} (hi : i < 2 ^ 32) (g : UInt32) :
    (new i g).raw.toNat = g.toNat * 2 ^ 32 + i := by
  have hg : g.toNat < 2 ^ 32 := g.toNat_lt
  have hindex : (UInt64.ofNat i).toNat = i := by
    rw [UInt64.toNat_ofNat']
    omega
  have hhigh : (g.toUInt64 <<< 32).toNat = g.toNat <<< 32 := by
    rw [UInt64.toNat_shiftLeft, UInt32.toNat_toUInt64]
    have h32 : (32 : UInt64).toNat % 64 = 32 := rfl
    rw [h32, Nat.shiftLeft_eq]
    omega
  rw [new, UInt64.toNat_or, hindex, hhigh, Nat.or_comm, ← Nat.shiftLeft_add_eq_or_of_lt hi,
    Nat.shiftLeft_eq]

theorem index_new {i : ℕ} (hi : i < 2 ^ 32) (g : UInt32) : (new i g).index = i := by
  rw [index_eq_mod, raw_new hi]
  omega

theorem generation_new {i : ℕ} (hi : i < 2 ^ 32) (g : UInt32) : (new i g).generation = g := by
  apply UInt32.toNat_inj.mp
  rw [generation_toNat, raw_new hi]
  omega

theorem eq_of_index_generation {p q : Pid} (hindex : p.index = q.index)
    (hgen : p.generation = q.generation) : p = q := by
  have hdiv : p.raw.toNat / 2 ^ 32 = q.raw.toNat / 2 ^ 32 := by
    rw [← generation_toNat, ← generation_toNat, hgen]
  rw [index_eq_mod, index_eq_mod] at hindex
  have hraw : p.raw.toNat = q.raw.toNat := by omega
  obtain ⟨r⟩ := p
  obtain ⟨r'⟩ := q
  exact congrArg Pid.mk (UInt64.toNat_inj.mp hraw)

end Pid

end Tarnos.Task
