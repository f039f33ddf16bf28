import Mathlib.Algebra.Order.Ring.Nat

/-!
# Runs of a transition relation

The one induction that every safety theorem of a run uses: what every step keeps, every run keeps.
A list of actions that can be performed in turn, each allowed where it is taken, is such a run.
-/

set_option autoImplicit false

namespace Transition

open Relation

variable {σ : Type*} {step : σ → σ → Prop} {Inv : σ → Prop} {s t : σ}

/-- An invariant of every step holds after every run. -/
theorem kept_by_run (keeps : ∀ s t, step s t → Inv s → Inv t) (start : Inv s)
    (run : ReflTransGen step s t) : Inv t := by
  induction run with
  | refl => exact start
  | tail _ one ih => exact keeps _ _ one ih

section Actions

variable {σ α : Type*} (allowed : σ → α → Prop) [∀ s a, Decidable (allowed s a)]
  (next : σ → α → Option σ)

def performAll : List α → σ → Option σ
  | [], s => some s
  | a :: rest, s => if allowed s a then (next s a).bind (performAll rest) else none

theorem run_of_performAll {actions : List α} {s t : σ}
    (done : performAll allowed next actions s = some t) :
    ReflTransGen (fun s t => ∃ a, allowed s a ∧ next s a = some t) s t := by
  induction actions generalizing s with
  | nil =>
    cases done
    exact .refl
  | cons a _ ih =>
    unfold performAll at done
    split at done
    · rename_i ok
      obtain ⟨r, first, more⟩ := Option.bind_eq_some_iff.mp done
      exact .head ⟨a, ok, first⟩ (ih more)
    · cases done

end Actions

end Transition
