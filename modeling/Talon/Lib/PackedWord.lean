import Mathlib.Algebra.Order.Ring.Nat
import Mathlib.Data.Nat.Bits

/-!
# A counter and flags in one word

The low `n` bits of a word are a counter, the bits above are flags.  Counting up without overflow
and counting down from a positive count leave the flags alone; setting and clearing flags leaves
the counter alone.
-/

set_option autoImplicit false

namespace PackedWord

open Nat
open BitVec (testBit_toNat)

variable {w n i : Nat}

def count (n : Nat) (x : BitVec w) : Nat := x.toNat % 2 ^ n

theorem testBit_eq_of_div_eq {a b : Nat} (same : a / 2 ^ n = b / 2 ^ n) (above : n ≤ i) :
    a.testBit i = b.testBit i := by
  have split : i - n + n = i := by omega
  rw [← split, ← testBit_div_two_pow, ← testBit_div_two_pow, same]

section Count

variable {x : BitVec w}

theorem toNat_add_one (inside : n ≤ w) (room : count n x + 1 < 2 ^ n) :
    (x + 1#w).toNat = x.toNat + 1 := by
  have bound : x.toNat + 1 < 2 ^ w := by
    have size := x.isLt
    by_contra full
    have top : x.toNat + 1 = 2 ^ w := by omega
    have split : 2 ^ w = 2 ^ n * 2 ^ (w - n) := by rw [← pow_add]; congr 1; omega
    have low : (x.toNat + 1) % 2 ^ n = count n x + 1 := by
      have one : 1 % 2 ^ n = 1 := mod_eq_of_lt (by omega)
      rw [add_mod, one]
      exact mod_eq_of_lt room
    rw [top, split, mul_mod_right] at low
    omega
  have one : (1#w).toNat = 1 := by
    rw [BitVec.toNat_ofNat]
    exact mod_eq_of_lt (by omega)
  rw [BitVec.toNat_add, one, mod_eq_of_lt bound]

theorem toNat_sub_one (positive : 0 < count n x) : (x - 1#w).toNat = x.toNat - 1 := by
  have least : 0 < x.toNat := lt_of_lt_of_le positive (mod_le _ _)
  have one : (1#w).toNat = 1 := by
    rw [BitVec.toNat_ofNat]
    exact mod_eq_of_lt (by omega)
  rw [BitVec.toNat_sub_of_le, one]
  rw [BitVec.le_def, one]
  exact least

theorem count_add_one (inside : n ≤ w) (room : count n x + 1 < 2 ^ n) :
    count n (x + 1#w) = count n x + 1 := by
  have sum := toNat_add_one inside room
  have one : 1 % 2 ^ n = 1 := mod_eq_of_lt (by omega)
  rw [count, sum, add_mod, one]
  exact mod_eq_of_lt room

theorem getLsbD_add_one (inside : n ≤ w) (room : count n x + 1 < 2 ^ n) (above : n ≤ i) :
    (x + 1#w).getLsbD i = x.getLsbD i := by
  rw [← testBit_toNat, ← testBit_toNat, toNat_add_one inside room]
  apply testBit_eq_of_div_eq _ above
  rw [count] at room
  rw [succ_div_of_not_dvd]
  intro divides
  have zero := mod_eq_zero_of_dvd divides
  have one : 1 % 2 ^ n = 1 := mod_eq_of_lt (by omega)
  rw [add_mod, one, mod_eq_of_lt room] at zero
  omega

theorem count_sub_one (positive : 0 < count n x) : count n (x - 1#w) = count n x - 1 := by
  have difference := toNat_sub_one positive
  rw [count] at positive ⊢
  rw [difference, count]
  have split := div_add_mod x.toNat (2 ^ n)
  have shape : x.toNat - 1 = 2 ^ n * (x.toNat / 2 ^ n) + (x.toNat % 2 ^ n - 1) := by omega
  rw [shape, mul_add_mod]
  exact mod_eq_of_lt (by omega)

theorem getLsbD_sub_one (positive : 0 < count n x) (above : n ≤ i) :
    (x - 1#w).getLsbD i = x.getLsbD i := by
  rw [← testBit_toNat, ← testBit_toNat, toNat_sub_one positive]
  apply testBit_eq_of_div_eq _ above
  rw [count] at positive
  have split := Nat.div_add_mod x.toNat (2 ^ n)
  have shape : x.toNat - 1 = 2 ^ n * (x.toNat / 2 ^ n) + (x.toNat % 2 ^ n - 1) := by omega
  have small : (x.toNat % 2 ^ n - 1) / 2 ^ n = 0 := Nat.div_eq_of_lt (by omega)
  rw [shape, Nat.mul_add_div (Nat.two_pow_pos n), small, Nat.add_zero]

end Count

theorem count_congr {x y : BitVec w} (same : ∀ i, i < n → x.getLsbD i = y.getLsbD i) :
    count n x = count n y := by
  apply eq_of_testBit_eq
  intro i
  rw [count, count, testBit_mod_two_pow, testBit_mod_two_pow, testBit_toNat,
    testBit_toNat]
  by_cases low : i < n
  · rw [same i low]
  · simp [low]

end PackedWord
