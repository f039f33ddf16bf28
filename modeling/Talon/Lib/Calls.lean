import Mathlib.Algebra.Order.Ring.Nat

/-!
# Programs that call out

A program makes calls and goes on with their answers, which are not under its control.  `Within P Q`
says that every call it can make satisfies `P` and every result `Q`, whatever the answers are.
-/

set_option autoImplicit false

namespace Calls

inductive Prog (Call : Type) (Answer : Call → Type) (ε α : Type)
  | done (value : α)
  | fail (e : ε)
  | call (c : Call) (next : Answer c → Prog Call Answer ε α)

variable {Call : Type} {Answer : Call → Type} {ε α β : Type}

namespace Prog

def bind (p : Prog Call Answer ε α) (f : α → Prog Call Answer ε β) : Prog Call Answer ε β :=
  match p with
  | .done value => f value
  | .fail e => .fail e
  | .call c next => .call c fun answer => (next answer).bind f

instance : Monad (Prog Call Answer ε) where
  pure := .done
  bind := bind

def ask (c : Call) : Prog Call Answer ε (Answer c) := .call c .done

def lift : Except ε α → Prog Call Answer ε α
  | .ok value => .done value
  | .error e => .fail e

def pending : Prog Call Answer ε α → Option (Σ c, Answer c → Prog Call Answer ε α)
  | .call c next => some ⟨c, next⟩
  | .done _ | .fail _ => none

end Prog

open Prog

/-- Whatever the answers, every call satisfies `P` and every result `Q`. -/
def Within (P : Call → Prop) (Q : α → Prop) : Prog Call Answer ε α → Prop
  | .done value => Q value
  | .fail _ => True
  | .call c next => P c ∧ ∀ answer, Within P Q (next answer)

section Rules

variable {P : Call → Prop} {Q : α → Prop} {R : β → Prop}

theorem within_pure {value : α} (holds : Q value) :
    Within P Q (pure value : Prog Call Answer ε α) :=
  holds

variable {p : Prog Call Answer ε α}

variable {f : α → Prog Call Answer ε β}

theorem within_bind (first : Within P Q p)
    (rest : ∀ value, Q value → Within P R (f value)) : Within P R (p >>= f) := by
  induction p with
  | done value => exact rest value first
  | fail => trivial
  | call c _ ih => exact ⟨first.1, fun answer => ih answer (first.2 answer)⟩

theorem within_ask {c : Call} (allowed : P c) :
    Within P (fun _ => True) (ask c : Prog Call Answer ε (Answer c)) :=
  ⟨allowed, fun _ => trivial⟩

theorem within_lift {x : Except ε α}
    (rest : ∀ value, x = .ok value → Within P R (f value)) : Within P R (lift x >>= f) := by
  cases x with
  | error => trivial
  | ok value => exact rest value rfl

theorem within_mono {P' : Call → Prop} (weaker : ∀ c, P c → P' c) (h : Within P Q p) :
    Within P' Q p := by
  induction p with
  | done => exact h
  | fail => trivial
  | call c _ ih => exact ⟨weaker c h.1, fun answer => ih answer (h.2 answer)⟩

theorem within_pending {c : Call} {next : Answer c → Prog Call Answer ε α} (h : Within P Q p)
    (waits : p.pending = some ⟨c, next⟩) : P c ∧ ∀ answer, Within P Q (next answer) := by
  cases p with
  | done => cases waits
  | fail => cases waits
  | call =>
    cases waits
    exact h

end Rules

end Calls
