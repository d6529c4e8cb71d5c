import Mathlib.Algebra.Order.Ring.Nat
import Mathlib.Tactic.Common
import Mathlib.Tactic.Ring

namespace Tarnos.Foundation

def leNat : List UInt8 → ℕ := List.foldr (fun byte value ↦ byte.toNat + 256 * value) 0

variable {bytes : List UInt8}

theorem leNat_nil : leNat [] = 0 := rfl

theorem leNat_cons (byte : UInt8) (bytes : List UInt8) :
    leNat (byte :: bytes) = byte.toNat + 256 * leNat bytes := rfl

theorem leNat_drop (bytes : List UInt8) (n : ℕ) : leNat (bytes.drop n) = leNat bytes / 256 ^ n := by
  induction n generalizing bytes with
  | zero => simp
  | succ n ih =>
    cases bytes with
    | nil => simp [leNat_nil]
    | cons byte bytes =>
      have hbyte := byte.toNat_lt
      rw [List.drop_succ_cons, ih, leNat_cons, pow_succ', ← Nat.div_div_eq_div_mul]
      congr 1
      omega

theorem leNat_take (bytes : List UInt8) (n : ℕ) : leNat (bytes.take n) = leNat bytes % 256 ^ n := by
  induction n generalizing bytes with
  | zero => simp [leNat_nil, Nat.mod_one]
  | succ n ih =>
    cases bytes with
    | nil => simp [leNat_nil]
    | cons byte bytes =>
      have hbyte := byte.toNat_lt
      have hlow : (byte.toNat + 256 * leNat bytes) % 256 = byte.toNat := by omega
      have hhigh : (byte.toNat + 256 * leNat bytes) / 256 = leNat bytes := by omega
      rw [List.take_succ_cons, leNat_cons, ih, leNat_cons, pow_succ', Nat.mod_mul, hlow, hhigh]

theorem leNat_lt (bytes : List UInt8) : leNat bytes < 256 ^ bytes.length := by
  have h := leNat_take bytes bytes.length
  rw [List.take_length] at h
  rw [h]
  exact Nat.mod_lt _ (Nat.pow_pos (by decide))

theorem toNat_getElem {bytes : List UInt8} {i : ℕ} (h : i < bytes.length) :
    bytes[i].toNat = leNat bytes / 256 ^ i % 256 := by
  have hhead := leNat_take (bytes.drop i) 1
  rw [leNat_drop, pow_one, List.drop_eq_getElem_cons h, List.take_succ_cons, List.take_zero,
    leNat_cons, leNat_nil, Nat.mul_zero, Nat.add_zero] at hhead
  exact hhead

def leBytes (count value : ℕ) : List UInt8 :=
  (List.range count).map fun i ↦ UInt8.ofNat (value / 256 ^ i)

theorem length_leBytes (count value : ℕ) : (leBytes count value).length = count := by
  rw [leBytes, List.length_map, List.length_range]

theorem leBytes_succ (count value : ℕ) :
    leBytes (count + 1) value = UInt8.ofNat value :: leBytes count (value / 256) := by
  rw [leBytes, List.range_succ_eq_map, List.map_cons, pow_zero, Nat.div_one, List.map_map, leBytes]
  congr 1
  apply List.map_congr_left
  intro i _
  rw [Function.comp_apply, Nat.succ_eq_add_one, pow_succ', ← Nat.div_div_eq_div_mul]

theorem leNat_leBytes (count value : ℕ) : leNat (leBytes count value) = value % 256 ^ count := by
  induction count generalizing value with
  | zero => rw [pow_zero, Nat.mod_one]; rfl
  | succ count ih =>
    rw [leBytes_succ, leNat_cons, ih, pow_succ', Nat.mod_mul, UInt8.toNat_ofNat']

end Tarnos.Foundation
