import Mathlib.Algebra.Order.Ring.Nat
import Mathlib.Data.List.Perm.Subperm

/-!
# Quorums of a list of distinct members
-/

set_option autoImplicit false

namespace Quorum

variable {α : Type*} {members asked : List α} {p : α → Bool}

theorem exists_common (distinct : asked.Nodup) (sub : asked ⊆ members)
    (many : members.length < members.countP p + asked.length) : ∃ x ∈ asked, p x = true := by
  by_contra none
  have rest : asked ⊆ members.filter (fun x => !p x) := by
    intro x mem
    have fails : p x = false := by
      by_contra holds
      exact none ⟨x, mem, by simpa using holds⟩
    exact List.mem_filter.mpr ⟨sub mem, by simp [fails]⟩
  have few : asked.length ≤ members.countP (fun x => !p x) := by
    rw [List.countP_eq_length_filter]
    exact (distinct.subperm rest).length_le
  have split := List.length_eq_countP_add_countP (l := members) p
  simp only [Bool.not_eq_true] at split
  have same : members.countP (fun x => !p x) = members.countP (fun x => decide (p x = false)) := by
    apply List.countP_congr
    intro x _
    simp
  omega

end Quorum
