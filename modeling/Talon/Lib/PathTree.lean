import Mathlib.Algebra.Order.Ring.Nat
import Mathlib.Data.List.Infix

/-!
# Directory trees

A tree of directories is a map from paths to nodes in which every node lies in a directory.  Adding
a node to a directory and losing whole subtrees keep it a tree.
-/

set_option autoImplicit false

namespace PathTree

variable {α κ : Type*}

inductive Node (κ : Type*)
  | dir
  | file (content : κ)
  /-- A symbolic link; what it leads to is outside the tree. -/
  | link
deriving DecidableEq

abbrev Tree (α κ : Type*) := List α → Option (Node κ)

def Closed (t : Tree α κ) : Prop := ∀ p c, t (p ++ [c]) ≠ none → t p = some .dir

theorem Closed.parent {t : Tree α κ} (closed : Closed t) {p : List α} {c : α} {x : Node κ}
    (found : t (p ++ [c]) = some x) : t p = some .dir :=
  closed p c (by rw [found]; exact Option.some_ne_none x)

section Add

variable [DecidableEq α] {t : Tree α κ} {p q : List α} {c : α} {x y : Node κ}

def add (t : Tree α κ) (p : List α) (x : Node κ) : Tree α κ := Function.update t p (some x)

theorem add_self : add t p x p = some x := Function.update_self _ _ _

theorem add_of_ne (other : q ≠ p) : add t p x q = t q := Function.update_of_ne other _ _

theorem add_eq_some (found : add t p x q = some y) : (q = p ∧ y = x) ∨ t q = some y := by
  by_cases same : q = p
  · rw [same, add_self] at found
    exact .inl ⟨same, (Option.some.inj found).symm⟩
  · rw [add_of_ne same] at found
    exact .inr found

theorem add_entry {d : α} (found : add t (p ++ [c]) x (q ++ [d]) = some y) :
    (q = p ∧ d = c ∧ y = x) ∨ t (q ++ [d]) = some y := by
  obtain ⟨same, node⟩ | before := add_eq_some found
  · obtain ⟨dir, name⟩ := List.append_inj' same rfl
    exact .inl ⟨dir, List.head_eq_of_cons_eq name, node⟩
  · exact .inr before

theorem add_of_some (absent : t p = none) (found : t q = some y) : add t p x q = some y := by
  have other : q ≠ p := by
    intro same
    rw [same, absent] at found
    cases found
  rw [add_of_ne other]
  exact found

theorem Closed.add (closed : Closed t) (absent : t (p ++ [c]) = none) (parent : t p = some .dir) :
    Closed (PathTree.add t (p ++ [c]) x) := by
  intro q d there
  by_cases same : q ++ [d] = p ++ [c]
  · obtain ⟨rfl, _⟩ := List.append_inj' same rfl
    exact add_of_some absent parent
  · rw [add_of_ne same] at there
    exact add_of_some absent (closed q d there)

end Add

section Prune

open Classical in
/-- The tree without the subtrees at the lost paths. -/
noncomputable def prune (t : Tree α κ) (lost : Set (List α)) : Tree α κ :=
  fun p => if ∃ q ∈ lost, q <+: p then none else t p

variable {t : Tree α κ} {lost : Set (List α)} {p : List α} {x : Node κ}

theorem prune_some (found : prune t lost p = some x) : t p = some x ∧ ∀ q ∈ lost, ¬q <+: p := by
  unfold prune at found
  split at found
  · cases found
  · rename_i kept
    exact ⟨found, fun q mem inside => kept ⟨q, mem, inside⟩⟩

theorem prune_of_kept (kept : ∀ q ∈ lost, ¬q <+: p) : prune t lost p = t p :=
  if_neg fun ⟨q, mem, inside⟩ => kept q mem inside

theorem prune_none (absent : t p = none) : prune t lost p = none := by
  unfold prune
  split
  · rfl
  · exact absent

theorem Closed.prune (closed : Closed t) : Closed (PathTree.prune t lost) := by
  intro p c there
  obtain ⟨x, found⟩ := Option.ne_none_iff_exists'.mp there
  obtain ⟨before, kept⟩ := prune_some found
  rw [prune_of_kept fun q mem inside => kept q mem (inside.trans (List.prefix_append _ _))]
  exact closed.parent before

end Prune

end PathTree
