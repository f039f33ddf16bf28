import Mathlib.Algebra.Order.Ring.Nat
import Mathlib.Data.List.Forall2

/-!
# Taking apart a computation that succeeded
-/

set_option autoImplicit false

namespace Fallible

open List

universe u v

variable {ε : Type u} {α β : Type v}

variable {x : Except ε α}

theorem bind_ok_iff {f : α → Except ε β} {b : β} :
    (x >>= f) = .ok b ↔ ∃ a, x = .ok a ∧ f a = .ok b := by
  cases x with
  | error => exact iff_of_false nofun fun ⟨_, h, _⟩ => nomatch h
  | ok a => exact ⟨fun h => ⟨a, rfl, h⟩, fun ⟨_, same, h⟩ => by cases same; exact h⟩

alias ⟨bind_ok, _⟩ := bind_ok_iff

theorem guard_ok_iff {c : Prop} [Decidable c] {e : ε} {a : α} :
    (if c then .error e else x) = .ok a ↔ ¬ c ∧ x = .ok a := by
  split_ifs with stopped
  · exact iff_of_false nofun fun h => h.1 stopped
  · exact (and_iff_right stopped).symm

alias ⟨guard_ok, _⟩ := guard_ok_iff

theorem bind_some {α β : Type u} {x : Option α} {f : α → Option β} {b : β}
    (h : (x >>= f) = some b) : ∃ a, x = some a ∧ f a = some b :=
  Option.bind_eq_some_iff.mp h

section Lists

variable {α : Type u} {β : Type v} {f g : α → Option β} {l : List α} {r : List β}

theorem mapM_some (h : l.mapM f = some r) : List.Forall₂ (fun a b => f a = some b) l r := by
  induction l generalizing r with
  | nil =>
    cases h
    exact .nil
  | cons a l ih =>
    rw [mapM_cons] at h
    obtain ⟨b, first, h⟩ := Option.bind_eq_some_iff.mp h
    obtain ⟨_, later, h⟩ := Option.bind_eq_some_iff.mp h
    cases h
    exact .cons first (ih later)

theorem mapM_of_forall₂ (each : List.Forall₂ (fun a b => f a = some b) l r) :
    l.mapM f = some r := by
  induction each with
  | nil => rfl
  | cons first _ ih => simp [mapM_cons, first, ih]

theorem mem_of_forall₂ {R : α → β → Prop} (each : List.Forall₂ R l r) {b : β} (mem : b ∈ r) :
    ∃ a ∈ l, R a b := by
  induction each with
  | nil => cases mem
  | @cons a c l r first _ ih =>
    rcases mem_cons.mp mem with rfl | later
    · exact ⟨a, mem_cons_self, first⟩
    · obtain ⟨x, held, made⟩ := ih later
      exact ⟨x, mem_cons_of_mem _ held, made⟩

theorem mem_of_mapM (h : l.mapM f = some r) {b : β} (mem : b ∈ r) : ∃ a ∈ l, f a = some b :=
  mem_of_forall₂ (mapM_some h) mem

theorem mapM_same (hf : l.mapM f = some r) (hg : l.mapM g = some r) :
    ∀ a ∈ l, ∃ b ∈ r, f a = some b ∧ g a = some b := by
  have left := mapM_some hf
  have right := mapM_some hg
  clear hf hg
  induction left with
  | nil => exact nofun
  | @cons a b l r first _ ih =>
    cases right with
    | cons same later =>
      intro x mem
      rcases mem_cons.mp mem with rfl | inside
      · exact ⟨b, mem_cons_self, first, same⟩
      · obtain ⟨c, held, both⟩ := ih later x inside
        exact ⟨c, mem_cons_of_mem _ held, both⟩

theorem mem_of_mapM_ok {ε : Type u} {α : Type u} {β : Type v} {f : α → Except ε β} {l : List α}
    {r : List β} (h : l.mapM f = .ok r) {b : β} (mem : b ∈ r) : ∃ a ∈ l, f a = .ok b := by
  induction l generalizing r with
  | nil =>
    cases h
    cases mem
  | cons a l ih =>
    rw [mapM_cons] at h
    obtain ⟨_, made, h⟩ := bind_ok h
    obtain ⟨_, later, h⟩ := bind_ok h
    cases h
    rcases mem_cons.mp mem with rfl | inside
    · exact ⟨a, mem_cons_self, made⟩
    · obtain ⟨x, held, given⟩ := ih later inside
      exact ⟨x, mem_cons_of_mem _ held, given⟩

end Lists

end Fallible
