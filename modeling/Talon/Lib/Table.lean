import Mathlib.Algebra.Order.Ring.Nat
import Mathlib.Data.List.Nodup
import Mathlib.Data.List.Perm.Basic

/-!
# Tables and what their entries add up to

A finite map as a list with at most one entry for each key.  `total` adds up a weight over the
entries; the lemmas say what one insertion or removal does to it.
-/

set_option autoImplicit false

/-- Entries with different keys. -/
structure Table (κ β : Type) where
  entries : List (κ × β)
  nodup : (entries.map Prod.fst).Nodup

namespace Table

open List Option

variable {κ β : Type}

def empty : Table κ β := ⟨[], List.nodup_nil⟩

theorem nodup_filter (m : Table κ β) (p : κ × β → Bool) :
    ((m.entries.filter p).map Prod.fst).Nodup :=
  m.nodup.sublist (filter_sublist.map _)

def total (m : Table κ β) (w : κ → β → Nat) : Nat := (m.entries.map fun e => w e.1 e.2).sum

@[simp] theorem total_empty {w : κ → β → Nat} : (empty : Table κ β).total w = 0 := rfl

variable [DecidableEq κ]

def get? (m : Table κ β) (k : κ) : Option β := (m.entries.find? fun e => e.1 = k).map Prod.snd

def erase (m : Table κ β) (k : κ) : Table κ β :=
  ⟨m.entries.filter fun e => e.1 ≠ k, m.nodup_filter _⟩

theorem nodup_insert (m : Table κ β) (k : κ) (v : β) :
    (((k, v) :: (m.erase k).entries).map Prod.fst).Nodup := by
  refine nodup_cons.mpr ⟨fun mem => ?_, (m.erase k).nodup⟩
  obtain ⟨e, inside, same⟩ := mem_map.mp mem
  have other := (mem_filter.mp inside).2
  exact absurd same (of_decide_eq_true other)

def insert (m : Table κ β) (k : κ) (v : β) : Table κ β :=
  ⟨(k, v) :: (m.erase k).entries, m.nodup_insert k v⟩

variable {m : Table κ β} {k j : κ} {v u : β} {w : κ → β → Nat}

theorem mem_entries_iff : (k, v) ∈ m.entries ↔ m.get? k = some v := by
  obtain ⟨l, nodup⟩ := m
  change (k, v) ∈ l ↔ (l.find? fun e => e.1 = k).map Prod.snd = some v
  induction l with
  | nil => simp
  | cons e l ih =>
    obtain ⟨fresh, rest⟩ := nodup_cons.mp nodup
    obtain ⟨i, x⟩ := e
    by_cases same : i = k
    · subst same
      have absent : (i, v) ∉ l := fun mem => fresh (mem_map.mpr ⟨_, mem, rfl⟩)
      simp [absent, eq_comm]
    · have other : (k, v) ≠ (i, x) := fun eq => same (congrArg Prod.fst eq).symm
      simp [other, same, ih rest]

@[simp] theorem get?_empty : (empty : Table κ β).get? k = none := rfl

theorem get?_ext {n : Table κ β} (h : ∀ v, (k, v) ∈ m.entries ↔ (j, v) ∈ n.entries) :
    m.get? k = n.get? j := by
  apply ext
  intro x
  rw [← mem_entries_iff, ← mem_entries_iff]
  exact h x

@[simp] theorem get?_erase_self : (m.erase k).get? k = none := by
  rw [eq_none_iff_forall_ne_some]
  intro x found
  have mem := (mem_filter.mp (mem_entries_iff.mpr found)).2
  exact of_decide_eq_true mem rfl

@[simp] theorem get?_erase_of_ne (ne : j ≠ k) : (m.erase k).get? j = m.get? j := by
  refine get?_ext fun x => ?_
  change (j, x) ∈ m.entries.filter _ ↔ _
  simp [mem_filter, ne]

theorem get?_erase : (m.erase k).get? j = if j = k then none else m.get? j := by
  split
  · rename_i same
    rw [same, get?_erase_self]
  · rename_i ne
    rw [get?_erase_of_ne ne]

@[simp] theorem get?_insert_self : (m.insert k v).get? k = some v :=
  mem_entries_iff.mp mem_cons_self

@[simp] theorem get?_insert_of_ne (ne : j ≠ k) : (m.insert k v).get? j = m.get? j := by
  rw [← get?_erase_of_ne (m := m) ne]
  refine get?_ext fun x => ?_
  have other : (j, x) ≠ (k, v) := fun eq => ne (congrArg Prod.fst eq)
  change (j, x) ∈ (k, v) :: _ ↔ _
  simp [other]

theorem get?_insert : (m.insert k v).get? j = if j = k then some v else m.get? j := by
  split
  · rename_i same
    rw [same, get?_insert_self]
  · rename_i ne
    rw [get?_insert_of_ne ne]

section Total

@[simp] theorem total_insert : (m.insert k v).total w = w k v + (m.erase k).total w := by
  change ((_ :: _).map _).sum = _
  rw [map_cons, sum_cons]
  rfl

theorem erase_of_absent (absent : m.get? k = none) : m.erase k = m := by
  obtain ⟨l, nodup⟩ := m
  have keep : (l.filter fun e => e.1 ≠ k) = l := by
    rw [filter_eq_self]
    intro e mem
    rw [decide_eq_true_eq]
    intro same
    have found := mem_entries_iff.mp (show (k, e.2) ∈ (⟨l, nodup⟩ : Table κ β).entries by
      rw [← same]
      exact mem)
    rw [absent] at found
    cases found
  unfold erase
  congr

theorem perm_erase (found : m.get? k = some v) :
    m.entries.Perm ((k, v) :: (m.erase k).entries) := by
  refine (perm_ext_iff_of_nodup m.nodup.of_map (m.nodup_insert k v).of_map).mpr fun e => ?_
  obtain ⟨i, x⟩ := e
  change _ ↔ (i, x) ∈ (m.insert k v).entries
  rw [mem_entries_iff, mem_entries_iff, get?_insert]
  split
  · rename_i same
    rw [same, found]
  · rfl

theorem total_eq (found : m.get? k = some v) : m.total w = w k v + (m.erase k).total w := by
  have sums := ((perm_erase found).map fun e => w e.1 e.2).sum_nat
  rw [map_cons, sum_cons] at sums
  exact sums

theorem total_getD {d : β} (zero : w k d = 0) :
    m.total w = w k ((m.get? k).getD d) + (m.erase k).total w := by
  cases found : m.get? k with
  | none => rw [erase_of_absent found, getD_none, zero, Nat.zero_add]
  | some => rw [total_eq found, getD_some]

theorem le_total (found : m.get? k = some v) : w k v ≤ m.total w := by
  rw [total_eq found]
  exact Nat.le_add_right _ _

theorem total_split (k : κ) : m.total w = (m.get? k).elim 0 (w k) + (m.erase k).total w := by
  cases found : m.get? k with
  | none => rw [erase_of_absent found, elim_none, Nat.zero_add]
  | some => rw [total_eq found, elim_some]

omit [DecidableEq κ] in
theorem total_add (w₁ w₂ : κ → β → Nat) :
    m.total (fun k v => w₁ k v + w₂ k v) = m.total w₁ + m.total w₂ := by
  unfold total
  induction m.entries with
  | nil => rfl
  | cons e l ih =>
    simp only [map_cons, sum_cons] at ih ⊢
    omega

theorem total_pos_iff : 0 < m.total w ↔ ∃ k v, m.get? k = some v ∧ 0 < w k v := by
  constructor
  · intro positive
    by_contra none
    have zero : ∀ e ∈ m.entries, w e.1 e.2 = 0 := by
      intro e held
      by_contra more
      exact none ⟨e.1, e.2, mem_entries_iff.mp held, Nat.pos_of_ne_zero more⟩
    have same : m.total w = m.total fun _ _ => 0 :=
      congrArg sum (map_congr_left fun e held => zero e held)
    rw [same, total] at positive
    simp at positive
  · rintro ⟨k, v, found, positive⟩
    exact Nat.lt_of_lt_of_le positive (le_total found)

theorem total_congr {w' : κ → β → Nat} (same : ∀ k v, m.get? k = some v → w k v = w' k v) :
    m.total w = m.total w' := by
  unfold total
  congr 1
  exact map_congr_left fun e mem => same e.1 e.2 (mem_entries_iff.mp mem)

end Total

end Table
