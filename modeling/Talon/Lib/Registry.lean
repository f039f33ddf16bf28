import Talon.Lib.PartialMap

/-!
# Registries that make one item for each key

Items are made under a lock by whoever finds no item of that key, and published before the lock is
released.  An item that is made and not yet published is the only one the index does not know.
-/

set_option autoImplicit false

variable {κ ι : Type*}

/-- `items` are all items with their keys, `index` is the published map, `fresh` the item that is
made and not yet published. -/
structure Registry (κ ι : Type*) where
  items : ι → Option κ
  index : κ → Option ι
  fresh : Option ι

namespace Registry

def empty : Registry κ ι := ⟨fun _ => none, fun _ => none, none⟩

def make [DecidableEq ι] (r : Registry κ ι) (i : ι) (k : κ) : Registry κ ι :=
  { r with items := PartialMap.insert r.items i k, fresh := some i }

def publish [DecidableEq κ] (r : Registry κ ι) (i : ι) (k : κ) : Registry κ ι :=
  { r with index := PartialMap.insert r.index k i, fresh := none }

/-- The index knows every item but the fresh one. -/
structure Inv (r : Registry κ ι) : Prop where
  indexed : ∀ k i, r.index k = some i → r.items i = some k
  known : ∀ i k, r.items i = some k → r.index k = some i ∨ r.fresh = some i ∧ r.index k = none

variable {r : Registry κ ι} {i j : ι} {k l : κ}

theorem Inv.unique (inv : r.Inv) (first : r.items i = some k) (second : r.items j = some k) :
    i = j := by
  obtain found | ⟨fresh, missing⟩ := inv.known i k first
  · obtain found' | ⟨_, missing⟩ := inv.known j k second
    · exact Option.some.inj (found.symm.trans found')
    · exact nomatch found.symm.trans missing
  · obtain found' | ⟨fresh', _⟩ := inv.known j k second
    · exact nomatch found'.symm.trans missing
    · exact Option.some.inj (fresh.symm.trans fresh')

theorem inv_empty : (empty : Registry κ ι).Inv := ⟨nofun, nofun⟩

theorem Inv.make [DecidableEq ι] (inv : r.Inv) (new : r.items i = none) (missing : r.index k = none)
    (idle : r.fresh = none) : (r.make i k).Inv where
  indexed l j found := PartialMap.insert_of_fresh new (inv.indexed l j found)
  known := by
    refine PartialMap.forall_insert (.inr ⟨rfl, missing⟩) fun j l _ before => ?_
    obtain found | ⟨fresh, _⟩ := inv.known j l before
    · exact .inl found
    · exact nomatch idle.symm.trans fresh

theorem Inv.publish [DecidableEq κ] (inv : r.Inv) (made : r.items i = some k)
    (fresh : r.fresh = some i) : (r.publish i k).Inv where
  indexed := PartialMap.forall_insert made fun l j _ => inv.indexed l j
  known j l found := by
    left
    by_cases same : l = k
    · subst same
      rw [inv.unique found made]
      simp [Registry.publish]
    · obtain found' | ⟨fresh', _⟩ := inv.known j l found
      · simpa [Registry.publish, same] using found'
      · obtain rfl := Option.some.inj (fresh.symm.trans fresh')
        exact absurd (Option.some.inj (made.symm.trans found)) (Ne.symm same)

end Registry
