import Mathlib.Algebra.Order.Ring.Nat
import Mathlib.Data.Finset.Card

/-!
# Counting the tasks that hold something

A counter that goes up when a task takes hold of a thing and down when it lets go equals the number
of tasks that hold it.
-/

set_option autoImplicit false

namespace Holders

open Function

variable {ι κ τ : Type*} [DecidableEq ι] [DecidableEq κ]

/-- `count k` is the number of tasks that hold `k`. -/
def Counts (holds : τ → Option κ) (tasks : ι → Option τ) (count : κ → Nat) : Prop :=
  ∃ members : κ → Finset ι,
    (∀ k id, id ∈ members k ↔ (tasks id).bind holds = some k) ∧ ∀ k, count k = (members k).card

variable {holds : τ → Option κ} {tasks : ι → Option τ} {count count' : κ → Nat} {id : ι} {k : κ}
  {t : τ} {next : Option τ}

omit [DecidableEq ι] [DecidableEq κ] in
theorem Counts.pos (counts : Counts holds tasks count) (found : tasks id = some t)
    (held : holds t = some k) : 0 < count k := by
  obtain ⟨_, mem_iff, card⟩ := counts
  rw [card]
  exact Finset.card_pos.mpr ⟨id, (mem_iff k id).mpr (by rw [found]; exact held)⟩

omit [DecidableEq ι] [DecidableEq κ] in
theorem Counts.exists_of_pos (counts : Counts holds tasks count) (positive : 0 < count k) :
    ∃ id t, tasks id = some t ∧ holds t = some k := by
  obtain ⟨_, mem_iff, card⟩ := counts
  rw [card] at positive
  obtain ⟨id, mem⟩ := Finset.card_pos.mp positive
  obtain ⟨t, found, held⟩ := Option.bind_eq_some_iff.mp ((mem_iff k id).mp mem)
  exact ⟨id, t, found, held⟩

omit [DecidableEq ι] [DecidableEq κ] in
theorem Counts.congr (counts : Counts holds tasks count) (same : ∀ k, count' k = count k) :
    Counts holds tasks count' := by
  obtain ⟨members, mem_iff, card⟩ := counts
  exact ⟨members, mem_iff, fun k => (same k).trans (card k)⟩

omit [DecidableEq κ] in
theorem Counts.keep (counts : Counts holds tasks count)
    (same : next.bind holds = (tasks id).bind holds) :
    Counts holds (update tasks id next) count := by
  obtain ⟨members, mem_iff, card⟩ := counts
  refine ⟨members, fun k j => ?_, card⟩
  rw [mem_iff]
  by_cases eq : j = id
  · subst eq
    rw [update_self, same]
  · rw [update_of_ne eq]

theorem mem_moved {members : κ → Finset ι}
    (mem_iff : ∀ k id, id ∈ members k ↔ (tasks id).bind holds = some k) (l : κ) (j : ι) :
    j ∈ (if next.bind holds = some l then insert id (members l) else (members l).erase id) ↔
      (update tasks id next j).bind holds = some l := by
  by_cases eq : j = id
  · subst eq
    rw [update_self]
    split <;> simp [*]
  · rw [update_of_ne eq, ← mem_iff]
    split <;> simp [eq]

theorem Counts.gain (counts : Counts holds tasks count) (before : (tasks id).bind holds = none)
    (after : next.bind holds = some k) :
    Counts holds (update tasks id next) (update count k (count k + 1)) := by
  obtain ⟨members, mem_iff, card⟩ := counts
  have outside : ∀ l, id ∉ members l := by
    intro l
    rw [mem_iff, before]
    nofun
  refine ⟨_, mem_moved mem_iff, fun l => ?_⟩
  by_cases thing : l = k
  · subst thing
    rw [if_pos after, update_self, Finset.card_insert_of_notMem (outside l), card]
  · rw [if_neg (by rw [after]; simpa using Ne.symm thing), update_of_ne thing,
      Finset.erase_eq_of_notMem (outside l), card]

theorem Counts.lose (counts : Counts holds tasks count) (before : (tasks id).bind holds = some k)
    (after : next.bind holds = none) :
    Counts holds (update tasks id next) (update count k (count k - 1)) := by
  obtain ⟨members, mem_iff, card⟩ := counts
  refine ⟨_, mem_moved mem_iff, fun l => ?_⟩
  rw [if_neg (by rw [after]; nofun)]
  by_cases thing : l = k
  · subst thing
    rw [update_self, Finset.card_erase_of_mem ((mem_iff l id).mpr before), card]
  · have outside : id ∉ members l := by
      rw [mem_iff, before]
      simpa using Ne.symm thing
    rw [update_of_ne thing, Finset.erase_eq_of_notMem outside, card]

end Holders
