import Mathlib.Algebra.Order.Ring.Nat
import Mathlib.Data.List.Basic

/-!
# The values of a register over time

A register that is overwritten keeps, for the proofs, the values it had before.  A value is
addressed by its position: how many values the register held before it.
-/

set_option autoImplicit false

/-- The values a register held before, oldest first, and the one it holds. -/
structure Timeline (α : Type*) where
  past : List α
  value : α

namespace Timeline

variable {α : Type*}

def position (l : Timeline α) : Nat := l.past.length

def at? (l : Timeline α) (q : Nat) : Option α := (l.past ++ [l.value])[q]?

def set (l : Timeline α) (a : α) : Timeline α := ⟨l.past ++ [l.value], a⟩

def HeldSince (l : Timeline α) (p : Nat) (a : α) : Prop := ∃ q, p ≤ q ∧ l.at? q = some a

theorem at?_position (l : Timeline α) : l.at? l.position = some l.value := by
  simp [at?, position]

variable {l : Timeline α}

theorem le_position_of_at? {q : Nat} {a : α} (held : l.at? q = some a) : q ≤ l.position := by
  obtain ⟨inside, _⟩ := List.getElem?_eq_some_iff.mp held
  simpa [position, Nat.lt_succ_iff] using inside

theorem at?_set {q : Nat} {a b : α} (held : l.at? q = some a) : (l.set b).at? q = some a := by
  obtain ⟨inside, _⟩ := List.getElem?_eq_some_iff.mp held
  rw [at?, set, List.getElem?_append_left inside]
  exact held

end Timeline
