import Mathlib.Algebra.Order.Ring.Nat
import Mathlib.Data.List.Nodup

/-!
# Maps with an arbitrary iteration order

A hash map is a partial function.  Code that iterates over one sees its pairs in some order, so
such code is a function of a listing of the map, and what holds of it holds for every listing.
-/

set_option autoImplicit false

namespace PartialMap

variable {α β : Type*} [DecidableEq α]

def empty : α → Option β := fun _ => none

def insert (m : α → Option β) (k : α) (v : β) : α → Option β := Function.update m k (some v)

def erase (m : α → Option β) (k : α) : α → Option β := Function.update m k none

/-- The pairs of a map, each once, in some order. -/
structure Lists (l : List (α × β)) (m : α → Option β) : Prop where
  nodup : (l.map Prod.fst).Nodup
  mem_iff : ∀ k v, (k, v) ∈ l ↔ m k = some v

omit [DecidableEq α] in
@[simp] theorem empty_apply (k : α) : (empty : α → Option β) k = none := rfl

variable (m : α → Option β)

include m in
@[simp] theorem insert_self (k : α) (v : β) : insert m k v k = some v := by
  simp [insert]

variable {v : β}

@[simp] theorem insert_of_ne {m : α → Option β} {k j : α} (h : j ≠ k) : insert m k v j = m j := by
  simp [insert, h]

include m in
theorem insert_apply (k j : α) (v : β) : insert m k v j = if j = k then some v else m j := by
  simp [insert, Function.update_apply]

theorem forall_insert {P : α → β → Prop} {m : α → Option β} {k : α} (new : P k v)
    (old : ∀ j w, j ≠ k → m j = some w → P j w) : ∀ j w, insert m k v j = some w → P j w := by
  intro j w found
  rw [insert_apply] at found
  split at found
  · rename_i same
    cases found
    exact same ▸ new
  · exact old j w ‹_› found

theorem insert_of_fresh {m : α → Option β} {k j : α} {w : β} (new : m k = none)
    (found : m j = some w) : insert m k v j = some w := by
  have other : j ≠ k := by
    rintro rfl
    cases new.symm.trans found
  rw [insert_of_ne other, found]

include m

theorem erase_apply (k j : α) : erase m k j = if j = k then none else m j := by
  simp [erase, Function.update_apply]

@[simp] theorem insert_erase (k : α) (v : β) :
    insert (erase m k) k v = insert m k v := Function.update_idem ..

@[simp] theorem erase_self (k : α) : erase m k k = none := by
  simp [erase]

omit m

theorem of_erase {m : α → Option β} {k j : α} (found : erase m k j = some v) :
    j ≠ k ∧ m j = some v := by
  rw [erase_apply] at found
  split at found
  · cases found
  · exact ⟨‹_›, found⟩

@[simp] theorem erase_of_ne {m : α → Option β} {k j : α} (h : j ≠ k) : erase m k j = m j := by
  simp [erase, h]

end PartialMap
