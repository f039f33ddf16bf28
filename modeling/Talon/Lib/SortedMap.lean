import Talon.Lib.Table

/-!
# Maps in key order

A finite map as the list of its entries in increasing order of the keys, which is the order in which
it is read out.  Two maps with the same lookups are equal.
-/

set_option autoImplicit false

/-- Entries in strictly increasing order of their keys. -/
structure SortedMap (κ β : Type) [LinearOrder κ] where
  entries : List (κ × β)
  sorted : entries.Pairwise fun a b => a.1 < b.1

namespace SortedMap

open List Function

variable {κ β : Type} [LinearOrder κ]

def empty : SortedMap κ β := ⟨[], List.Pairwise.nil⟩

def get? (m : SortedMap κ β) (k : κ) : Option β := (m.entries.find? fun e => e.1 = k).map Prod.snd

def isEmpty (m : SortedMap κ β) : Bool := m.entries.isEmpty

theorem sorted_insert (m : SortedMap κ β) (k : κ) (v : β) :
    (m.entries.filter (fun e => e.1 < k) ++ (k, v) :: m.entries.filter fun e => k < e.1).Pairwise
      fun a b => a.1 < b.1 := by
  refine pairwise_append.mpr ⟨m.sorted.filter _, pairwise_cons.mpr ⟨?_, m.sorted.filter _⟩, ?_⟩
  · intro b mem
    simpa using (mem_filter.mp mem).2
  · intro a low b high
    have below : a.1 < k := by simpa using (mem_filter.mp low).2
    rcases mem_cons.mp high with rfl | above
    · exact below
    · exact lt_trans below (by simpa using (mem_filter.mp above).2)

def insert (m : SortedMap κ β) (k : κ) (v : β) : SortedMap κ β := ⟨_, m.sorted_insert k v⟩

def erase (m : SortedMap κ β) (k : κ) : SortedMap κ β :=
  ⟨m.entries.filter fun e => e.1 ≠ k, m.sorted.filter _⟩

def map (m : SortedMap κ β) (f : κ → β → β) : SortedMap κ β :=
  ⟨m.entries.map fun e => (e.1, f e.1 e.2), pairwise_map.mpr m.sorted⟩

def insertAll (m : SortedMap κ β) (l : List (κ × β)) : SortedMap κ β :=
  l.foldl (fun m e => m.insert e.1 e.2) m

variable {l : List (κ × β)}

section Lookup

variable {m n : SortedMap κ β} {k j : κ} {v : β}

theorem nodup_keys (m : SortedMap κ β) : (m.entries.map Prod.fst).Nodup :=
  pairwise_map.mpr (m.sorted.imp fun less => ne_of_lt less)

def toTable (m : SortedMap κ β) : Table κ β := ⟨m.entries, m.nodup_keys⟩

theorem mem_entries_iff : (k, v) ∈ m.entries ↔ m.get? k = some v := Table.mem_entries_iff
    (m := m.toTable)

@[simp] theorem get?_empty : (empty : SortedMap κ β).get? k = none := rfl

theorem eq_of_entries (same : m.entries = n.entries) : m = n := by
  cases m
  cases same
  rfl

@[ext] theorem ext_get? (same : ∀ k, m.get? k = n.get? k) : m = n := by
  have members : ∀ e, e ∈ m.entries ↔ e ∈ n.entries := fun e => by
    rw [show e = (e.1, e.2) from rfl, mem_entries_iff, mem_entries_iff, same]
  have perm := (perm_ext_iff_of_nodup m.nodup_keys.of_map n.nodup_keys.of_map).mpr members
  exact eq_of_entries
    (perm.eq_of_pairwise (fun a b _ _ less more => absurd less (lt_asymm more)) m.sorted n.sorted)

theorem get?_eq_of_mem (h : ∀ v, (k, v) ∈ m.entries ↔ (k, v) ∈ n.entries) : m.get? k = n.get? k :=
  Table.get?_ext (m := m.toTable) (n := n.toTable) h

theorem get?_insert : (m.insert k v).get? j = if j = k then some v else m.get? j := by
  refine (Table.get?_ext (m := (m.insert k v).toTable) fun w => ?_).trans
    (Table.get?_insert (m := m.toTable))
  change (j, w) ∈ _ ++ _ :: _ ↔ (j, w) ∈ (k, v) :: m.entries.filter _
  simp only [mem_append, mem_cons, mem_filter, decide_eq_true_eq, ne_iff_lt_or_gt]
  tauto

@[simp] theorem get?_insert_self : (m.insert k v).get? k = some v := by rw [get?_insert, if_pos rfl]

@[simp] theorem get?_insert_of_ne (ne : j ≠ k) : (m.insert k v).get? j = m.get? j := by
  rw [get?_insert, if_neg ne]

theorem forall_insert {P : κ → β → Prop} (new : P k v) (old : ∀ j w, m.get? j = some w → P j w) :
    ∀ j w, (m.insert k v).get? j = some w → P j w := by
  intro j w found
  rw [get?_insert] at found
  split at found
  · rename_i same
    cases found
    exact same ▸ new
  · exact old j w found

@[simp] theorem get?_erase_of_ne (ne : j ≠ k) : (m.erase k).get? j = m.get? j :=
  Table.get?_erase_of_ne (m := m.toTable) ne

theorem get?_erase : (m.erase k).get? j = if j = k then none else m.get? j :=
  Table.get?_erase (m := m.toTable)

theorem get?_of_erase (found : (m.erase k).get? j = some v) : m.get? j = some v := by
  rw [get?_erase] at found
  split at found
  · cases found
  · exact found

theorem insert_same (found : m.get? k = some v) : m.insert k v = m := by
  ext1 j
  rw [get?_insert]
  split
  · rename_i same
    rw [same, found]
  · rfl

theorem insert_insert {w : β} : (m.insert k v).insert k w = m.insert k w := by
  ext1 j
  rw [get?_insert, get?_insert, get?_insert]
  split <;> rfl

theorem erase_of_none (absent : m.get? k = none) : m.erase k = m :=
  eq_of_entries (congrArg Table.entries (Table.erase_of_absent (m := m.toTable) absent))

theorem entries_erase : (m.erase k).entries =
    m.entries.filter (fun e => e.1 < k) ++ m.entries.filter fun e => k < e.1 := by
  obtain ⟨l, sorted⟩ := m
  change l.filter _ = l.filter _ ++ l.filter _
  induction l with
  | nil => rfl
  | cons e l ih =>
    obtain ⟨above, rest⟩ := pairwise_cons.mp sorted
    by_cases low : e.1 < k
    · simpa [low, low.ne, low.le] using ih rest
    · have from_ : ∀ a ∈ e :: l, k ≤ a.1 :=
        forall_mem_cons.mpr ⟨le_of_not_gt low, fun a mem => (le_of_not_gt low).trans
          (above a mem).le⟩
      have none_ : (e :: l).filter (fun a => a.1 < k) = [] :=
        filter_eq_nil_iff.mpr fun a mem => by simpa using from_ a mem
      rw [none_, nil_append]
      exact filter_congr fun a mem => by simp [(from_ a mem).lt_iff_ne, ne_comm]

theorem entries_around : m.entries = m.entries.filter (fun e => e.1 < k) ++
    ((m.get? k).toList.map (Prod.mk k) ++ m.entries.filter fun e => k < e.1) := by
  cases found : m.get? k with
  | none => exact (congrArg entries (erase_of_none found)).symm.trans entries_erase
  | some v => exact (congrArg entries (insert_same found)).symm

theorem entries_erase_head (first : m.entries = (k, v) :: l) : (m.erase k).entries = l := by
  have sorted := m.sorted
  rw [first] at sorted
  have above := (pairwise_cons.mp sorted).1
  change m.entries.filter _ = l
  rw [first, filter_cons_of_neg (by simp), filter_eq_self]
  intro e mem
  simpa using ne_of_gt (above e mem)

theorem isEmpty_iff : m.isEmpty = true ↔ m = empty := by
  constructor
  · intro none_
    exact eq_of_entries (List.isEmpty_iff.mp none_)
  · rintro rfl
    rfl

end Lookup

section Append

variable {m : SortedMap κ β}

theorem entries_insert_above {k : κ} {v : β} (above : ∀ e ∈ m.entries, e.1 < k) :
    (m.insert k v).entries = m.entries ++ [(k, v)] := by
  have low : m.entries.filter (fun e => e.1 < k) = m.entries :=
    filter_eq_self.mpr fun e mem => by simpa using above e mem
  have high : m.entries.filter (fun e => k < e.1) = [] :=
    filter_eq_nil_iff.mpr fun e mem => by simpa using le_of_lt (above e mem)
  change _ ++ (k, v) :: _ = _
  rw [low, high]

theorem entries_insertAll_above (sorted : (m.entries ++ l).Pairwise fun a b => a.1 < b.1) :
    (m.insertAll l).entries = m.entries ++ l := by
  induction l generalizing m with
  | nil => exact (append_nil _).symm
  | cons e l ih =>
    have first : (m.insert e.1 e.2).entries = m.entries ++ [e] :=
      entries_insert_above fun a mem =>
        (pairwise_append.mp sorted).2.2 a mem e mem_cons_self
    have rest : (m.insert e.1 e.2).entries ++ l = m.entries ++ e :: l := by
      rw [first, append_assoc, singleton_append]
    change ((m.insert e.1 e.2).insertAll l).entries = _
    rw [ih (by rw [rest]; exact sorted), rest]

theorem insertAll_entries (m : SortedMap κ β) : (empty : SortedMap κ β).insertAll m.entries = m :=
  eq_of_entries (entries_insertAll_above m.sorted)

end Append

section Inverse

/-- The map lists every element that has a key, under that key and no other. -/
def Inverts (m : SortedMap κ β) (key : β → Option κ) : Prop := ∀ k b, m.get? k = some b ↔
    key b = some k

variable [DecidableEq β] {m : SortedMap κ β} {key : β → Option κ} {b : β} {k k' : κ}

theorem Inverts.keep (h : m.Inverts key) {old : Option κ} (known : key b = old) :
    m.Inverts (update key b old) := by
  rw [← known, update_eq_self]
  exact h

theorem Inverts.erase (h : m.Inverts key) (known : key b = some k) :
    (m.erase k).Inverts (update key b none) := by
  intro j c
  rw [get?_erase]
  by_cases own : c = b
  · subst own
    rw [update_self]
    split
    · simp
    · rename_i other
      rw [h j c, known]
      simp [Ne.symm other]
  · rw [update_of_ne own]
    split
    · rename_i same
      subst same
      have held := (h j b).mpr known
      rw [← h j c, held]
      simp [Ne.symm own]
    · exact h j c

theorem Inverts.insert (h : m.Inverts key) (new : key b = none) (free : ∀ c, key c ≠ some k) :
    (m.insert k b).Inverts (update key b (some k)) := by
  intro j c
  rw [get?_insert]
  by_cases own : c = b
  · subst own
    rw [update_self]
    split
    · rename_i same
      simp [same]
    · rename_i other
      rw [h j c, new]
      simp [Ne.symm other]
  · rw [update_of_ne own]
    split
    · rename_i same
      subst same
      simp [Ne.symm own, free c]
    · exact h j c

theorem Inverts.move (h : m.Inverts key) (known : key b = some k) (free : ∀ c, key c ≠ some k') :
    ((m.erase k).insert k' b).Inverts (update key b (some k')) := by
  have gone := h.erase known
  have moved := gone.insert (update_self b none key) (k := k') fun c => by
    by_cases own : c = b
    · subst own
      simp
    · rw [update_of_ne own]
      exact free c
  rwa [update_idem] at moved

end Inverse

section Chunks

def above (m : SortedMap κ β) (after : Option κ) : List (κ × β) :=
  m.entries.filter fun e => after.all fun k => k < e.1

variable {m : SortedMap κ β} {after : Option κ} {last : κ × β} {n : Nat}

@[simp] theorem above_none : m.above none = m.entries := by simp [above]

theorem above_sorted : (m.above after).Pairwise fun a b => a.1 < b.1 := m.sorted.filter _

theorem filter_above_chunk (sorted : l.Pairwise fun a b => a.1 < b.1)
    (chunk : (l.take n).getLast? = some last) : l.filter (fun e => last.1 < e.1) = l.drop n := by
  obtain ⟨front, split⟩ := getLast?_eq_some_iff.mp chunk
  have whole : l = front ++ [last] ++ l.drop n := by rw [← split, take_append_drop]
  rw [whole] at sorted
  obtain ⟨taken, _, across⟩ := pairwise_append.mp sorted
  obtain ⟨_, _, before⟩ := pairwise_append.mp taken
  conv_lhs => rw [whole]
  rw [filter_append, filter_append]
  have first : front.filter (fun e => last.1 < e.1) = [] :=
    filter_eq_nil_iff.mpr fun e mem => by
      simpa using le_of_lt (before e mem last mem_cons_self)
  have rest : (l.drop n).filter (fun e => last.1 < e.1) = l.drop n :=
    filter_eq_self.mpr fun e mem => by
      simpa using across last (mem_append_right _ mem_cons_self) e mem
  rw [first, rest]
  simp

theorem above_next (chunk : ((m.above after).take n).getLast? = some last) :
    m.above (some last.1) = (m.above after).drop n := by
  have mem := mem_of_mem_take (mem_of_getLast? chunk)
  have beyond := (mem_filter.mp mem).2
  rw [← filter_above_chunk above_sorted chunk]
  unfold above
  rw [filter_filter]
  apply filter_congr
  intro e _
  cases after with
  | none => simp
  | some =>
    rw [Option.all_some, decide_eq_true_eq] at beyond
    rw [Option.all_some, Option.all_some]
    by_cases high : last.1 < e.1
    · simp [high, lt_trans beyond high]
    · simp [high]

theorem above_next_lt (chunk : ((m.above after).take n).getLast? = some last) :
    (m.above (some last.1)).length < (m.above after).length := by
  have positive := length_pos_of_mem (mem_of_getLast? chunk)
  rw [length_take] at positive
  rw [above_next chunk, length_drop]
  omega

end Chunks

end SortedMap
