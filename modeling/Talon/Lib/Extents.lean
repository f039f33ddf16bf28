import Mathlib.Algebra.Order.Ring.Nat
import Mathlib.Data.List.Basic
import Mathlib.Data.List.TakeWhile

/-!
# Sorted extents

A list of values at offsets, each of which takes up a number of places from its offset on.  When
the extents are apart and in order, the neighbours of an offset decide whether a new extent would
meet any of them.
-/

set_option autoImplicit false

namespace Extents

open List

theorem insertIdx_length {α : Type} (front back : List α) (a : α) :
    (front ++ back).insertIdx front.length a = front ++ a :: back := by
  induction front with
  | nil => rfl
  | cons b _ ih => exact congrArg (b :: ·) ih

section Sorted

variable {α : Type} (start : α → Nat)

def Sorted (l : List α) : Prop := l.Pairwise fun a b => start a < start b

variable {start}

variable {l : List α}

theorem while_eq_filter (h : Sorted start l) (n : Nat) :
    l.takeWhile (fun a => start a < n) = l.filter (fun a => start a < n) ∧
      l.dropWhile (fun a => start a < n) = l.filter fun a => n ≤ start a := by
  induction l with
  | nil => exact ⟨rfl, rfl⟩
  | cons a l ih =>
    rw [Sorted, pairwise_cons] at h
    obtain ⟨front, back⟩ := ih h.2
    by_cases below : start a < n
    · simp [below, front, back]
    · have above : ∀ b ∈ a :: l, n ≤ start b := by
        rintro b (_ | ⟨_, later⟩)
        · exact not_lt.mp below
        · exact le_trans (not_lt.mp below) (h.1 b later).le
      rw [takeWhile_cons_of_neg (by simpa using below), dropWhile_cons_of_neg
        (by simpa using below)]
      refine ⟨(filter_eq_nil_iff.mpr fun b mem => ?_).symm,
        (filter_eq_self.mpr fun b mem => ?_).symm⟩
      · simpa using above b mem
      · simpa using above b mem

theorem takeWhile_eq_filter (h : Sorted start l) (n : Nat) :
    l.takeWhile (fun a => start a < n) = l.filter fun a => start a < n := (while_eq_filter h n).1

theorem dropWhile_eq_filter (h : Sorted start l) (n : Nat) :
    l.dropWhile (fun a => start a < n) = l.filter fun a => n ≤ start a := (while_eq_filter h n).2

theorem split_at (h : Sorted start l) (n : Nat) :
    ∃ a b, l = a ++ b ∧ (∀ x ∈ a, start x < n) ∧ (∀ x ∈ b, n ≤ start x) ∧
      a = l.takeWhile (fun x => start x < n) := by
  refine ⟨_, _, (takeWhile_append_dropWhile (p := fun x => start x < n)).symm, ?_, ?_, rfl⟩
  · intro x mem
    simpa using mem_takeWhile_imp mem
  · intro x mem
    rw [dropWhile_eq_filter h] at mem
    simpa using (mem_filter.mp mem).2

end Sorted

section Apart

variable {α : Type} {start size : α → Nat}

/-- Each extent ends before the next one starts. -/
def Apart (start size : α → Nat) (l : List α) : Prop :=
  l.Pairwise fun a b => start a + size a ≤ start b

variable {l : List α}

/-- Only the last extent that starts before an offset can reach beyond it. -/
theorem reaches_iff (apart : Apart start size l) (sorted : Sorted start l) (n : Nat) :
    (∃ a, (l.takeWhile fun x => start x < n).getLast? = some a ∧ n < start a + size a) ↔
      ∃ a ∈ l, start a < n ∧ n < start a + size a := by
  constructor
  · intro h
    obtain ⟨a, last, reach⟩ := h
    have mem := mem_of_getLast? last
    rw [takeWhile_eq_filter sorted, mem_filter, decide_eq_true_eq] at mem
    exact ⟨a, mem.1, mem.2, reach⟩
  · intro h
    obtain ⟨a, mem, below, reach⟩ := h
    have inside : a ∈ l.takeWhile fun x => start x < n := by
      rw [takeWhile_eq_filter sorted, mem_filter, decide_eq_true_eq]
      exact ⟨mem, below⟩
    obtain ⟨last, same⟩ := Option.isSome_iff_exists.mp
      (getLast?_isSome.mpr (ne_nil_of_mem inside))
    refine ⟨last, same, ?_⟩
    -- any later extent that starts before the offset would have to start after it
    obtain ⟨_, whole⟩ := getLast?_eq_some_iff.mp same
    rw [whole, mem_append, mem_singleton] at inside
    rcases inside with earlier | here
    · have pairs := apart.sublist (takeWhile_sublist fun x => decide (start x < n))
      rw [whole, pairwise_append] at pairs
      have order := pairs.2.2 a earlier last (mem_singleton.mpr rfl)
      have low : start last < n := by
        have mem' := mem_of_getLast? same
        simpa using mem_takeWhile_imp mem'
      omega
    · rw [← here]
      exact reach

/-- Only the first extent from an offset on can meet what starts there. -/
theorem meets_iff (sorted : Sorted start l) (n m : Nat) :
    (∃ a, (l.dropWhile fun x => start x < n).head? = some a ∧ start a < m) ↔
      ∃ a ∈ l, n ≤ start a ∧ start a < m := by
  constructor
  · intro h
    obtain ⟨a, first, low⟩ := h
    have mem := mem_of_head? first
    rw [dropWhile_eq_filter sorted, mem_filter, decide_eq_true_eq] at mem
    exact ⟨a, mem.1, mem.2, low⟩
  · intro h
    obtain ⟨a, mem, above, low⟩ := h
    have inside : a ∈ l.dropWhile fun x => start x < n := by
      rw [dropWhile_eq_filter sorted, mem_filter, decide_eq_true_eq]
      exact ⟨mem, above⟩
    obtain ⟨first, _, whole⟩ := exists_cons_of_ne_nil (ne_nil_of_mem inside)
    rw [whole]
    refine ⟨first, rfl, ?_⟩
    rw [whole] at inside
    rcases mem_cons.mp inside with here | later
    · rw [← here]
      exact low
    · have pairs := sorted.sublist (dropWhile_sublist fun x => decide (start x < n))
      rw [whole] at pairs
      have order := rel_of_pairwise_cons pairs later
      omega

theorem sum_size_le (apart : Apart start size l) {low high : Nat} (room : low ≤ high)
    (above : ∀ a ∈ l, low ≤ start a) (below : ∀ a ∈ l, start a + size a ≤ high) :
    low + (l.map size).sum ≤ high := by
  induction l generalizing low with
  | nil => exact room
  | cons a l ih =>
    rw [Apart, pairwise_cons] at apart
    have first := below a mem_cons_self
    have here := above a mem_cons_self
    have rest := ih apart.2 first (fun b mem => apart.1 b mem)
      fun b mem => below b (mem_cons_of_mem _ mem)
    rw [map_cons, sum_cons]
    omega

end Apart

end Extents
