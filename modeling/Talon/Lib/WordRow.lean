import Mathlib.Algebra.Order.Ring.Nat
import Mathlib.Data.List.Basic

/-!
# Rows of machine words read as one row of bits

A list of 64-bit words addresses bit `p` as bit `p % 64` of word `p / 64`.
-/

set_option autoImplicit false

namespace WordRow

open List

/-- Bit `p` of the row; bits past the last word are clear. -/
def bit (words : List (BitVec 64)) (p : Nat) : Bool :=
  match words[p / 64]? with
  | some w => w.getLsbD (p % 64)
  | none => false

def set (words : List (BitVec 64)) (p : Nat) : List (BitVec 64) :=
  words.modify (p / 64) (· ||| BitVec.twoPow 64 (p % 64))

def countOnes (w : BitVec 64) : Nat := (List.range 64).countP w.getLsbD

def count (words : List (BitVec 64)) : Nat := (words.map countOnes).sum

@[simp] theorem length_set (words : List (BitVec 64)) (p : Nat) :
    (set words p).length = words.length := by
  simp [set]

variable {words : List (BitVec 64)}

theorem bit_set {p q : Nat} (inside : p / 64 < words.length) :
    bit (set words p) q = (bit words q || decide (q = p)) := by
  unfold bit set
  rw [getElem?_modify]
  by_cases word : p / 64 = q / 64
  · have known : q / 64 < words.length := by omega
    rw [getElem?_eq_getElem known]
    have same : (p % 64 = q % 64) ↔ q = p := by omega
    have low : p % 64 < 64 := Nat.mod_lt _ (by omega)
    simp [word, BitVec.getLsbD_twoPow, same, low]
  · have other : q ≠ p := fun same => word (by rw [same])
    cases words[q / 64]? with
    | none => simp [other]
    | some => simp [word, other]

theorem bit_cons_add (w : BitVec 64) (words : List (BitVec 64)) (p : Nat) :
    bit (w :: words) (64 + p) = bit words p := by
  have next : (64 + p) / 64 = p / 64 + 1 := by omega
  have place : (64 + p) % 64 = p % 64 := by omega
  simp [bit, next, place]

theorem bit_cons_low {w : BitVec 64} {p : Nat} (low : p < 64) :
    bit (w :: words) p = w.getLsbD p := by
  simp [bit, Nat.div_eq_of_lt low, Nat.mod_eq_of_lt low]

theorem count_eq_countP (words : List (BitVec 64)) :
    count words = (range (64 * words.length)).countP (bit words) := by
  induction words with
  | nil => simp [count]
  | cons w words ih =>
    have split : 64 * (w :: words).length = 64 + 64 * words.length := by
      simp only [length_cons]
      omega
    have first : (range 64).countP (bit (w :: words)) = countOnes w :=
      countP_congr fun p mem => by rw [bit_cons_low (mem_range.mp mem)]
    have others : bit (w :: words) ∘ (fun p => 64 + p) = bit words := by
      funext p
      exact bit_cons_add w words p
    rw [split, range_add, countP_append, countP_map, others, ← ih, first]
    simp [count]

theorem count_eq_of_clear {len : Nat} (long : len ≤ 64 * words.length)
    (clear : ∀ p, len ≤ p → bit words p = false) :
    count words = (range len).countP (bit words) := by
  obtain ⟨rest, all⟩ := Nat.exists_eq_add_of_le long
  have none : (range rest).countP (bit words ∘ fun p => len + p) = 0 :=
    countP_eq_zero.mpr fun p _ => by simp [clear (len + p) (Nat.le_add_right len p)]
  rw [count_eq_countP, all, range_add, countP_append, countP_map, none, Nat.add_zero]

end WordRow
