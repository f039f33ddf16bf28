import Mathlib.Algebra.Order.Ring.Nat

/-!
# Counters of a fixed width

An unsigned counter that other code adds to and takes from.  Adding and taking wrap around,
replacing one amount by another saturates, and the counter remembers whether more was ever taken
than it held. As long as the exact amounts fit into the width, a counter holds exactly them.
-/

set_option autoImplicit false

structure Counter (width : Nat) where
  value : Nat
  underflowed : Bool
deriving DecidableEq

namespace Counter

variable {width : Nat}

/-- A counter that holds `n` and never held too little. -/
def holding (n : Nat) : Counter width := ⟨n, false⟩

def add (c : Counter width) (n : Nat) : Counter width := ⟨(c.value + n) % 2 ^ width, c.underflowed⟩

def sub (c : Counter width) (n : Nat) : Counter width :=
  ⟨(c.value + (2 ^ width - n)) % 2 ^ width, c.underflowed || decide (c.value < n)⟩

/-- `saturating_sub(old).saturating_add(new)`. -/
def replace (c : Counter width) (old new : Nat) : Counter width :=
  ⟨min (c.value - old + new) (2 ^ width - 1), c.underflowed || decide (c.value < old)⟩

variable {n k old new : Nat}

theorem add_holding (fits : k + n < 2 ^ width) :
    (holding n : Counter width).add k = holding (k + n) := by
  have sum : n + k = k + n := Nat.add_comm n k
  simp [add, holding, sum, Nat.mod_eq_of_lt fits]

theorem sub_holding (fits : k + n < 2 ^ width) :
    (holding (k + n) : Counter width).sub k = holding n := by
  have around : k + n + (2 ^ width - k) = n + 2 ^ width := by omega
  have rest : n % 2 ^ width = n := Nat.mod_eq_of_lt (by omega)
  simp [sub, holding, around, rest]

theorem replace_holding (fits : new + n < 2 ^ width) :
    (holding (old + n) : Counter width).replace old new = holding (new + n) := by
  have sum : old + n - old + new = new + n := by omega
  have below : new + n ≤ 2 ^ width - 1 := by omega
  have enough : ¬old + n < old := by omega
  simp only [replace, holding, sum, Nat.min_eq_left below, enough, decide_false, Bool.or_false]

end Counter
