import Mathlib.Algebra.Order.BigOperators.Group.List
import Talon.SmallStore.Keys

/-!
# What the key buffer stands for

`Keys.Holds k keys`: row by row, prefix and suffix put together are the keys of the list `keys`.
`Keys.Sound` accounts for every byte as well; it is what makes the conversions of `keys.rs` to 32
bits exact and its unwraps safe.  Insertion, removal, retention and sealing keep it in any order and
act on the list as their names say.  In a buffer that was never sealed the accounting also decides
when an insertion fails.
-/

set_option autoImplicit false

namespace Talon.SmallStore

open Wire SharedPrefix List Nat Keys

variable {bytes : Bytes} {order : List Nat}

namespace Span

def Within (s : Span) (bytes : Bytes) : Prop := s.offset + s.len ≤ bytes.length

variable {s : Span}

theorem Within.append (h : s.Within bytes) (more : Bytes) : s.Within (bytes ++ more) := by
  unfold Within at h ⊢
  rw [length_append]
  omega

theorem Within.get_append (h : s.Within bytes) (more : Bytes) :
    s.get (bytes ++ more) = s.get bytes := by
  unfold Within at h
  unfold get
  rw [drop_append_of_le_length (by omega),
    take_append_of_le_length (by rw [length_drop]; omega)]

theorem Within.length_get (h : s.Within bytes) : (s.get bytes).length = s.len := by
  unfold Within at h
  unfold get
  rw [length_take, length_drop]
  omega

theorem within_push (bytes key : Bytes) : (push bytes key).2.Within (push bytes key).1 := by
  simp [push, Within]

theorem get_push (bytes key : Bytes) : (push bytes key).2.get (push bytes key).1 = key := by
  simp [push, get]

theorem within_default (bytes : Bytes) : default.Within bytes := zero_le _

end Span

namespace Keys

structure Holds (k : Keys) (keys : List Bytes) : Prop where
  count : k.count = keys.length
  key : ∀ i b, keys[i]? = some b →
    ∃ s, k.span i = some s ∧ s.Within k.suffixes ∧ k.prefixAt i ++ s.get k.suffixes = b
  ids : k.prefixIds = [] ∨ k.prefixIds.length = keys.length
  range : ∀ id ∈ k.prefixIds, id ≠ u32Max → id < k.prefixes.length
  within : ∀ p ∈ k.prefixes, p.Within k.prefixBytes
  few : k.prefixes.length ≤ u32Max

theorem holds_empty : Holds {} [] :=
  ⟨rfl, fun i b h => by simp at h, .inl rfl, fun id h => by simp at h, fun p h => by simp at h,
    zero_le _⟩

variable {k : Keys} {keys : List Bytes}

variable {i : Nat}

theorem Holds.get (h : k.Holds keys) {b : Bytes} (key : keys[i]? = some b) :
    ∃ p s, k.get i = some (p, s) ∧ p ++ s = b := by
  obtain ⟨s, span, -, bytes⟩ := h.key i b key
  exact ⟨k.prefixAt i, s.get k.suffixes, by rw [Keys.get, span]; rfl, bytes⟩

theorem prefixOf_u32Max (few : k.prefixes.length ≤ u32Max) : k.prefixOf u32Max = [] := by
  unfold prefixOf
  rw [getElem?_eq_none few]

/-! ## Thawing and freezing -/

theorem span_of_open (h : k.offsets = []) (i : Nat) : k.span i = k.rows[i]? := by
  simp [span, h]

theorem count_of_open (h : k.offsets = []) : k.count = k.rows.length := by
  simp [count, h]

theorem thaw_of_open (h : k.offsets = []) : k.thaw = k := by
  simp [thaw, h]

@[simp]
theorem thaw_offsets (k : Keys) : k.thaw.offsets = [] := by
  unfold thaw
  split
  · rename_i h
    exact isEmpty_iff.mp h
  · rfl

theorem thaw_span (k : Keys) (i : Nat) : k.thaw.span i = k.span i := by
  rw [span_of_open k.thaw_offsets]
  unfold thaw span
  split
  · rfl
  · rw [getElem?_zipWith, getElem?_tail]
    cases k.offsets[i]? <;> cases k.offsets[i + 1]? <;> rfl

theorem thaw_count (k : Keys) : k.thaw.count = k.count := by
  rw [count_of_open k.thaw_offsets]
  unfold thaw count
  split
  · rfl
  · rw [length_zipWith, length_tail]
    omega

theorem thaw_fields (k : Keys) : k.thaw.suffixes = k.suffixes ∧ k.thaw.garbage = k.garbage ∧
    k.thaw.prefixIds = k.prefixIds ∧ k.thaw.prefixes = k.prefixes ∧
      k.thaw.prefixBytes = k.prefixBytes := by
  unfold thaw
  split <;> exact ⟨rfl, rfl, rfl, rfl, rfl⟩

theorem Holds.thaw (h : k.Holds keys) : k.thaw.Holds keys := by
  obtain ⟨suffixes, -, ids, prefixes, bytes⟩ := k.thaw_fields
  have prefixAt : ∀ i, k.thaw.prefixAt i = k.prefixAt i := by
    intro i
    unfold prefixAt prefixOf
    rw [ids, prefixes, bytes]
  refine ⟨by rw [thaw_count, h.count], ?_, ?_, ?_, ?_, ?_⟩
  · intro i b key
    rw [thaw_span, suffixes, prefixAt]
    exact h.key i b key
  · rw [ids]
    exact h.ids
  · rw [ids, prefixes]
    exact h.range
  · rw [prefixes, bytes]
    exact h.within
  · rw [prefixes]
    exact h.few

theorem length_cumulative (start : Nat) (ps : List Bytes) :
    (cumulative start ps).length = ps.length + 1 := by
  induction ps generalizing start with
  | nil => rfl
  | cons p _ ih => rw [cumulative, length_cons, ih, length_cons]

theorem freeze_offsets (k : Keys) : k.freeze.offsets ≠ [] := by
  intro empty
  have length := congrArg length empty
  rw [freeze, length_cumulative] at length
  cases length

theorem cumulative_piece (start : Nat) (ps : List Bytes) (lead : Bytes) (hl : lead.length = start)
    {p : Bytes} (h : ps[i]? = some p) :
    ∃ a, (cumulative start ps)[i]? = some a ∧ (cumulative start ps)[i + 1]? = some (a + p.length) ∧
      a + p.length ≤ (lead ++ ps.flatten).length ∧
      ((lead ++ ps.flatten).drop a).take p.length = p := by
  induction ps generalizing start lead i with
  | nil => simp at h
  | cons q qs ih =>
    cases i with
    | zero =>
      cases h
      refine ⟨start, rfl, ?_, ?_, ?_⟩
      · cases qs <;> rfl
      · simp [hl]
      · simp [← hl]
    | succ =>
      rw [getElem?_cons_succ] at h
      obtain ⟨a, here, next, room, bytes⟩ := ih (start + q.length) (lead ++ q)
        (by rw [length_append, hl]) h
      refine ⟨a, ?_, ?_, ?_, ?_⟩
      · rw [cumulative, getElem?_cons_succ, here]
      · rw [cumulative, getElem?_cons_succ, next]
      · rw [flatten_cons, ← append_assoc]
        exact room
      · rw [flatten_cons, ← append_assoc]
        exact bytes

theorem span_freeze {s : Span} (here : k.rows[i]? = some s) :
    ∃ t, k.freeze.span i = some t ∧ t.Within k.freeze.suffixes ∧
      t.get k.freeze.suffixes = s.get k.suffixes := by
  have piece : (k.rows.map fun s => s.get k.suffixes)[i]? = some (s.get k.suffixes) := by
    rw [getElem?_map, here]
    rfl
  obtain ⟨a, first, next, room, same⟩ := cumulative_piece 0 _ [] rfl piece
  refine ⟨⟨a, (s.get k.suffixes).length⟩, ?_, room, same⟩
  rw [span, if_neg (by rw [List.isEmpty_iff]; exact freeze_offsets k), freeze]
  simp [first, next]

theorem Holds.freeze (h : k.Holds keys) (op : k.offsets = []) : k.freeze.Holds keys := by
  refine ⟨?_, ?_, h.ids, h.range, h.within, h.few⟩
  · rw [Keys.count, if_neg (by rw [List.isEmpty_iff]; exact freeze_offsets k), Keys.freeze,
      length_cumulative, length_map, ← h.count, count_of_open op]
    rfl
  · intro i b key
    obtain ⟨s, span, _, bytes⟩ := h.key i b key
    rw [span_of_open op] at span
    obtain ⟨t, there, within, same⟩ := span_freeze span
    exact ⟨t, there, within, bytes ▸ congrArg _ same⟩

/-! ## Retaining rows -/

def suffixAt (k : Keys) (row : Nat) : Bytes := ((k.span row).getD .default).get k.suffixes

def prefixTotal (k : Keys) : Nat := (k.prefixes.map Span.len).sum

def unusedTotal (prefixes : List Span) (renamed : List Nat) : Nat :=
  ((prefixes.zip renamed).map fun x => if x.2 = u32Max then x.1.len else 0).sum

theorem unusedTotal_fresh (prefixes : List Span) :
    unusedTotal prefixes (replicate prefixes.length u32Max) = (prefixes.map Span.len).sum := by
  unfold unusedTotal
  induction prefixes with
  | nil => rfl
  | cons p _ ih => simp [replicate_succ, ih]

theorem unusedTotal_set {prefixes : List Span} {renamed : List Nat} {old id : Nat} {p : Span}
    (here : prefixes[old]? = some p) (unused : renamed[old]? = some u32Max) (ne : id ≠ u32Max) :
    unusedTotal prefixes (renamed.set old id) + p.len = unusedTotal prefixes renamed := by
  unfold unusedTotal
  induction prefixes generalizing renamed old with
  | nil => cases here
  | cons q _ ih =>
    cases renamed with
    | nil => cases unused
    | cons =>
      cases old with
      | zero =>
        cases here
        cases unused
        simp [ne, add_comm]
      | succ =>
        have tail := ih here unused
        simp only [set_cons_succ, zip_cons_cons, map_cons, sum_cons]
        omega

/-- The loop of `retain` after the rows `kept` have been copied. -/
structure Retained (k next : Keys) (renamed kept : List Nat) : Prop where
  offsets : next.offsets = []
  garbage : next.garbage = 0
  rows : next.rows.length = kept.length
  size : next.suffixes.length = (kept.map fun row => (k.suffixAt row).length).sum
  span : ∀ i row : Nat, kept[i]? = some row → ∃ s : Span, next.rows[i]? = some s ∧
    s.Within next.suffixes ∧ s.get next.suffixes = k.suffixAt row
  bare : k.prefixIds = [] → next.prefixIds = []
  ids : k.prefixIds ≠ [] → next.prefixIds.length = kept.length
  id : k.prefixIds ≠ [] → ∀ i row : Nat, kept[i]? = some row → ∃ id, next.prefixIds[i]? = some id ∧
    (id ≠ u32Max → id < next.prefixes.length) ∧ next.prefixOf id = k.prefixAt row
  width : renamed.length = k.prefixes.length
  sameId : ∀ old id : Nat, renamed[old]? = some id → id ≠ u32Max →
    id < next.prefixes.length ∧ next.prefixOf id = k.prefixOf old
  within : ∀ p ∈ next.prefixes, p.Within next.prefixBytes
  fresh : next.prefixes.length + renamed.count u32Max = renamed.length
  prefixSize : next.prefixBytes.length = next.prefixTotal
  room : next.prefixBytes.length + unusedTotal k.prefixes renamed = k.prefixTotal

theorem retained_nil (k : Keys) : Retained k {} (replicate k.prefixes.length u32Max) [] where
  offsets := rfl
  garbage := rfl
  rows := rfl
  size := rfl
  span := fun i row h => by simp at h
  bare := fun _ => rfl
  ids := fun _ => rfl
  id := fun _ i row h => by simp at h
  width := length_replicate
  sameId := fun old id h ne => by
    rw [getElem?_replicate] at h
    split at h
    · exact absurd (Option.some.inj h).symm ne
    · cases h
  within := fun p h => by simp at h
  fresh := by simp
  prefixSize := rfl
  room := by rw [unusedTotal_fresh]; exact zero_add _

def withPrefix (k : Keys) (key : Bytes) : Keys :=
  { k with
    prefixes := k.prefixes ++ [(Span.push k.prefixBytes key).2]
    prefixBytes := (Span.push k.prefixBytes key).1 }

theorem length_withPrefix (k : Keys) (key : Bytes) :
    (k.withPrefix key).prefixes.length = k.prefixes.length + 1 := length_append

theorem prefixOf_withPrefix (k : Keys) (within : ∀ p ∈ k.prefixes, p.Within k.prefixBytes)
    (few : k.prefixes.length < u32Max) {id : Nat} (range : id ≠ u32Max → id < k.prefixes.length)
    (key : Bytes) : (k.withPrefix key).prefixOf id = k.prefixOf id := by
  by_cases plain : id = u32Max
  · rw [plain, prefixOf_u32Max (le_of_lt few), prefixOf_u32Max
      (by rw [length_withPrefix]; exact few)]
  · have inside := range plain
    unfold prefixOf withPrefix
    simp only [getElem?_append_left inside, getElem?_eq_getElem inside]
    exact (within _ (getElem_mem inside)).get_append key

theorem prefixOf_withPrefix_new (k : Keys) (key : Bytes) :
    (k.withPrefix key).prefixOf k.prefixes.length = key := by
  unfold prefixOf withPrefix
  simp only [getElem?_concat_length]
  exact Span.get_push k.prefixBytes key

theorem prefixTotal_withPrefix {k : Keys} (size : k.prefixBytes.length = k.prefixTotal)
    (key : Bytes) : (k.withPrefix key).prefixBytes.length = (k.withPrefix key).prefixTotal := by
  unfold prefixTotal at size
  simp [withPrefix, Span.push, prefixTotal, size]

theorem within_withPrefix {k : Keys} (within : ∀ p ∈ k.prefixes, p.Within k.prefixBytes)
    (key : Bytes) : ∀ p ∈ (k.withPrefix key).prefixes, p.Within (k.withPrefix key).prefixBytes := by
  intro p mem
  rcases mem_append.mp mem with earlier | new
  · exact (within p earlier).append _
  · rw [mem_singleton] at new
    subst new
    exact Span.within_push _ _

section RetainRow

variable {k next : Keys} {renamed kept : List Nat}

def withRow (next : Keys) (suffix : Bytes) : Keys :=
  { next with
    rows := next.rows ++ [(Span.push next.suffixes suffix).2]
    suffixes := (Span.push next.suffixes suffix).1 }

section

variable (h : Retained k next renamed kept)
include h

theorem Retained.spans (row : Nat) :
    ∀ i r : Nat, (kept ++ [row])[i]? = some r → ∃ s : Span,
      (next.withRow (k.suffixAt row)).rows[i]? = some s ∧
      s.Within (next.withRow (k.suffixAt row)).suffixes ∧
      s.get (next.withRow (k.suffixAt row)).suffixes = k.suffixAt r := by
  intro i r found
  rcases lt_trichotomy i kept.length with old | new | _
  · rw [getElem?_append_left old] at found
    obtain ⟨s, here, within, bytes⟩ := h.span i r found
    refine ⟨s, ?_, within.append _, ?_⟩
    · change (next.rows ++ _)[i]? = some s
      rw [getElem?_append_left (by rw [h.rows]; exact old), here]
    · exact (within.get_append _).trans bytes
  · subst new
    rw [getElem?_concat_length] at found
    cases found
    refine ⟨_, ?_, Span.within_push next.suffixes (k.suffixAt row),
      Span.get_push next.suffixes (k.suffixAt row)⟩
    change (next.rows ++ _)[kept.length]? = _
    rw [← h.rows, getElem?_concat_length]
  · rw [getElem?_eq_none (by rw [length_append, length_singleton]; omega)] at found
    cases found

/-- A copied row; what its prefix identifier has to be is said by the last three conditions. -/
theorem Retained.withRow (row : Nat) {newIds : List Nat} (bare : k.prefixIds = [] → newIds = [])
    (ids : k.prefixIds ≠ [] → newIds.length = (kept ++ [row]).length)
    (id : k.prefixIds ≠ [] → ∀ i r : Nat, (kept ++ [row])[i]? = some r →
      ∃ id, newIds[i]? = some id ∧
      (id ≠ u32Max → id < next.prefixes.length) ∧ next.prefixOf id = k.prefixAt r) :
    Retained k { next.withRow (k.suffixAt row) with prefixIds := newIds } renamed
      (kept ++ [row]) where
  __ := h
  rows := by
    change (next.rows ++ _).length = _
    rw [length_append, length_append, h.rows]
    rfl
  size := by
    change (next.suffixes ++ _).length = _
    rw [length_append, h.size, map_append, List.sum_append]
    simp
  span := h.spans row
  bare := bare
  ids := ids
  id := id

theorem Retained.row_id (some : k.prefixIds ≠ []) (row id : Nat)
    (range : id ≠ u32Max → id < next.prefixes.length) (same : next.prefixOf id = k.prefixAt row) :
    Retained k { next.withRow (k.suffixAt row) with prefixIds := next.prefixIds ++ [id] } renamed
      (kept ++ [row]) := by
  refine h.withRow row (fun none => absurd none some) (fun _ => ?_) fun _ i r found => ?_
  · rw [length_append, length_append, h.ids some]
    rfl
  · rcases lt_trichotomy i kept.length with old | new | _
    · rw [getElem?_append_left old] at found
      rw [getElem?_append_left (by rw [h.ids some]; exact old)]
      exact h.id some i r found
    · subst new
      rw [getElem?_concat_length] at found
      cases found
      rw [← h.ids some, getElem?_concat_length]
      exact ⟨id, rfl, range, same⟩
    · rw [getElem?_eq_none (by rw [length_append, length_singleton]; omega)] at found
      cases found

theorem Retained.newPrefix (few : k.prefixes.length ≤ u32Max)
    (inside : ∀ p ∈ k.prefixes, p.Within k.prefixBytes) {old : Nat}
    (unused : renamed[old]? = some u32Max) :
    Retained k (next.withPrefix (k.prefixOf old)) (renamed.set old next.prefixes.length) kept ∧
      next.prefixes.length ≠ u32Max := by
  have bound := (List.getElem?_eq_some_iff.mp unused).1
  have one := count_pos_iff.mpr (mem_of_getElem? unused)
  have free : next.prefixes.length < u32Max := by
    have total := h.fresh
    have width := h.width
    omega
  refine ⟨?_, Nat.ne_of_lt free⟩
  exact
    { h with
      id := by
        intro some i r found
        obtain ⟨id, here, range, same⟩ := h.id some i r found
        refine ⟨id, here, fun ne => ?_, (prefixOf_withPrefix next h.within free range _).trans same⟩
        rw [length_withPrefix]
        exact Nat.lt_succ_of_lt (range ne)
      width := by rw [length_set, h.width]
      sameId := by
        intro o id found ne
        rw [getElem?_set] at found
        split at found
        · rename_i here
          cases found
          subst here
          exact ⟨by simp [length_withPrefix], prefixOf_withPrefix_new next _⟩
        · obtain ⟨range, same⟩ := h.sameId o id found ne
          refine ⟨?_, (prefixOf_withPrefix next h.within free (fun _ => range) _).trans same⟩
          rw [length_withPrefix]
          exact Nat.lt_succ_of_lt range
      within := within_withPrefix h.within _
      fresh := by
        have total := h.fresh
        have value := (List.getElem?_eq_some_iff.mp unused).2
        rw [length_withPrefix, length_set, count_set bound]
        simp only [value, beq_self_eq_true, if_true, beq_iff_eq, if_neg (Nat.ne_of_lt free)]
        omega
      prefixSize := prefixTotal_withPrefix h.prefixSize _
      room := by
        obtain ⟨p, here⟩ : ∃ p, k.prefixes[old]? = some p :=
          ⟨_, getElem?_eq_getElem (h.width ▸ bound)⟩
        have bytes : (k.prefixOf old).length = p.len := by
          simp only [prefixOf, here, (inside _ (mem_of_getElem? here)).length_get]
        have less := unusedTotal_set here unused (Nat.ne_of_lt free)
        have room := h.room
        change (next.prefixBytes ++ k.prefixOf old).length + _ = _
        rw [length_append]
        omega }

end

theorem Retained.prefixed (h : Retained k next renamed kept) (some : k.prefixIds ≠ [])
    (few : k.prefixes.length ≤ u32Max) (inside : ∀ p ∈ k.prefixes, p.Within k.prefixBytes)
    {row old : Nat} (here : k.prefixIds[row]? = .some old)
    (range : old ≠ u32Max → old < k.prefixes.length) :
    Retained k (retainPrefix k (next.withRow (k.suffixAt row)) renamed row).1
      (retainPrefix k (next.withRow (k.suffixAt row)) renamed row).2 (kept ++ [row]) := by
  have prefixAt : k.prefixAt row = k.prefixOf old := by rw [prefixAt, here]
  unfold retainPrefix
  rw [here, Option.getD_some]
  by_cases plain : old = u32Max
  · rw [if_pos plain]
    refine h.row_id some row u32Max (fun ne => absurd rfl ne) ?_
    have small : next.prefixes.length ≤ u32Max := by
      have total := h.fresh
      have width := h.width
      omega
    rw [prefixAt, plain, prefixOf_u32Max small, prefixOf_u32Max few]
  · rw [if_neg plain]
    obtain ⟨id, known⟩ : ∃ id, renamed[old]? = .some id := by
      have bound : old < renamed.length := by
        rw [h.width]
        exact range plain
      exact ⟨_, getElem?_eq_getElem bound⟩
    rw [known]
    by_cases unused : id = u32Max
    · subst unused
      obtain ⟨added, _⟩ := h.newPrefix few inside known
      have last := added.row_id some row next.prefixes.length
        (fun _ => by simp [length_withPrefix])
        (by rw [prefixAt]; exact prefixOf_withPrefix_new next _)
      dsimp only
      rw [if_pos rfl, prefixAt]
      exact last
    · dsimp only
      rw [if_neg unused]
      obtain ⟨bound, same⟩ := h.sameId old id known unused
      exact h.row_id some row id (fun _ => bound) (by rw [prefixAt]; exact same)

theorem Retained.row (h : Retained k next renamed kept) {keys : List Bytes} (holds : k.Holds keys)
    (row : Nat) (bound : row < keys.length) (keep : Nat → Bool) :
    Retained k (retainRow k keep (next, renamed) row).1 (retainRow k keep (next, renamed) row).2
      (if keep row then kept ++ [row] else kept) := by
  by_cases chosen : keep row = true
  · have retained : retainRow k keep (next, renamed) row = if k.prefixIds.isEmpty then
        (next.withRow (k.suffixAt row), renamed) else k.retainPrefix (next.withRow (k.suffixAt row))
        renamed row :=
      if_pos chosen
    rw [if_pos chosen]
    by_cases bare : k.prefixIds = []
    · rw [retained, if_pos (isEmpty_iff.mpr bare)]
      exact h.withRow row h.bare (absurd bare) (absurd bare)
    · rw [retained, if_neg (fun empty => bare (isEmpty_iff.mp empty))]
      have width := holds.ids.resolve_left bare
      have inside : row < k.prefixIds.length := by omega
      exact h.prefixed bare holds.few holds.within (getElem?_eq_getElem inside)
        (holds.range _ (getElem_mem inside))
  · rw [if_neg chosen, retainRow, if_neg chosen]
    exact h

theorem retained_range {keys : List Bytes} (holds : k.Holds keys) (keep : Nat → Bool) (n : Nat)
    (bound : n ≤ keys.length) :
    Retained k (retainRows k keep n).1 (retainRows k keep n).2 ((range n).filter keep) := by
  induction n with
  | zero => exact retained_nil k
  | succ n ih =>
    have step := (ih (by omega)).row holds n (by omega) keep
    have last : retainRows k keep (n + 1) = retainRow k keep (retainRows k keep n) n := by
      rw [retainRows, range_succ, foldl_append]
      rfl
    rw [last, range_succ, filter_append, filter_singleton]
    by_cases chosen : keep n = true
    · rw [if_pos chosen] at step
      simp only [chosen, cond_true]
      exact step
    · rw [if_neg chosen] at step
      simp only [chosen, cond_false, append_nil]
      exact step

end RetainRow

theorem Holds.prefix_suffix (h : k.Holds keys) {b : Bytes} (key : keys[i]? = some b) :
    k.prefixAt i ++ k.suffixAt i = b := by
  obtain ⟨s, span, -, bytes⟩ := h.key i b key
  rw [suffixAt, span]
  exact bytes

theorem Retained.holds {next : Keys} {renamed kept : List Nat} (h : Retained k next renamed kept)
    (holds : k.Holds keys) (inside : ∀ row ∈ kept, row < keys.length) :
    next.Holds (kept.map fun row => keys[row]?.getD []) := by
  have prefixAt : ∀ i row : Nat, kept[i]? = some row → next.prefixAt i = k.prefixAt row := by
    intro i row found
    by_cases bare : k.prefixIds = []
    · unfold prefixAt
      rw [h.bare bare, bare]
      rfl
    · obtain ⟨id, here, -, same⟩ := h.id bare i row found
      rw [prefixAt, here]
      exact same
  refine ⟨?_, ?_, ?_, ?_, h.within, ?_⟩
  · rw [count_of_open h.offsets, h.rows, length_map]
  · intro i b key
    rw [getElem?_map] at key
    obtain ⟨row, found, value⟩ := Option.map_eq_some_iff.mp key
    obtain ⟨s, here, within, bytes⟩ := h.span i row found
    have original : keys[row]? = some b := by
      rw [← value, getElem?_eq_getElem (inside row (mem_of_getElem? found))]
      rfl
    refine ⟨s, by rw [span_of_open h.offsets, here], within, ?_⟩
    rw [prefixAt i row found, bytes, holds.prefix_suffix original]
  · by_cases bare : k.prefixIds = []
    · exact .inl (h.bare bare)
    · exact .inr (by rw [h.ids bare, length_map])
  · intro id mem ne
    by_cases bare : k.prefixIds = []
    · rw [h.bare bare] at mem
      cases mem
    · obtain ⟨i, here⟩ := getElem?_of_mem mem
      have bound := (List.getElem?_eq_some_iff.mp here).1
      rw [h.ids bare] at bound
      obtain ⟨_, here', range, -⟩ := h.id bare i _ (getElem?_eq_getElem bound)
      rw [here] at here'
      cases here'
      exact range ne
  · have total := h.fresh
    have width := h.width
    have few := holds.few
    omega

def keptKeys (keep : Nat → Bool) (keys : List Bytes) : List Bytes :=
  ((List.range keys.length).filter keep).map fun row => keys[row]?.getD []

theorem keptKeys_cons (keep : Nat → Bool) (key : Bytes) (keys : List Bytes) :
    keptKeys keep (key :: keys) =
      if keep 0 then key :: keptKeys (fun row => keep (row + 1)) keys
      else keptKeys (fun row => keep (row + 1)) keys := by
  unfold keptKeys
  rw [length_cons, range_succ_eq_map]
  have shifted : ((map succ (range keys.length)).filter keep).map
      (fun row => (key :: keys)[row]?.getD []) =
      ((range keys.length).filter fun row => keep (row + 1)).map
        fun row => keys[row]?.getD [] := by
    rw [filter_map, map_map]
    rfl
  by_cases first : keep 0 = true
  · rw [filter_cons_of_pos first, map_cons, shifted, if_pos first]
    rfl
  · rw [filter_cons_of_neg first, shifted, if_neg first]

theorem map_range_length {α β : Type} {l : List α} {f : Nat → β} {g : α → β}
    (same : ∀ i a, l[i]? = some a → f i = g a) : (range l.length).map f = l.map g := by
  apply ext_getElem (by simp)
  intro i _ _
  simp only [getElem_map, getElem_range]
  exact same i _ (getElem?_eq_getElem _)

theorem keptKeys_all (keys : List Bytes) : keptKeys (fun _ => true) keys = keys := by
  unfold keptKeys
  rw [filter_true, map_range_length (g := id) fun i b key => by rw [key]; rfl, map_id]

theorem retained_count (h : k.Holds keys) (keep : Nat → Bool) :
    Retained k (retainRows k keep k.count).1 (retainRows k keep k.count).2
      ((range keys.length).filter keep) := by
  rw [h.count]
  exact retained_range h keep keys.length (le_refl _)

/-! ## New rows and rows taken again -/

section Rows

variable {k k' : Keys} {keys keys' : List Bytes}

theorem Holds.row (h : k.Holds keys) (op : k.offsets = []) {i : Nat} {b : Bytes}
    (key : keys[i]? = some b) :
    ∃ s : Span, k.rows[i]? = some s ∧ s.Within k.suffixes ∧
      k.prefixAt i ++ s.get k.suffixes = b := by
  obtain ⟨s, span, within, bytes⟩ := h.key i b key
  rw [span_of_open op] at span
  exact ⟨s, span, within, bytes⟩

theorem Holds.rows_length (h : k.Holds keys) (op : k.offsets = []) :
    k.rows.length = keys.length := by
  rw [← count_of_open op, h.count]

theorem holds_of_rows (h : k.Holds keys) (offsets : k'.offsets = [])
    (prefixes : k'.prefixes = k.prefixes) (bytes : k'.prefixBytes = k.prefixBytes)
    (length : k'.rows.length = keys'.length)
    (ids : k'.prefixIds = [] ∨ k'.prefixIds.length = keys'.length)
    (range : ∀ id ∈ k'.prefixIds, id = u32Max ∨ id ∈ k.prefixIds)
    (row : ∀ (i : Nat) (b : Bytes), keys'[i]? = some b → ∃ s : Span, k'.rows[i]? = some s ∧
      s.Within k'.suffixes ∧ k'.prefixAt i ++ s.get k'.suffixes = b) : k'.Holds keys' := by
  refine ⟨by rw [count_of_open offsets, length], ?_, ids, ?_, ?_, ?_⟩
  · intro i b key
    rw [span_of_open offsets]
    exact row i b key
  · intro id mem ne
    rw [prefixes]
    exact h.range id ((range id mem).resolve_left ne) ne
  · rw [prefixes, bytes]
    exact h.within
  · rw [prefixes]
    exact h.few

variable {row : Nat}

theorem prefixAt_insert (prefixes : k'.prefixes = k.prefixes)
    (bytes : k'.prefixBytes = k.prefixBytes) (few : k.prefixes.length ≤ u32Max)
    (ids : k'.prefixIds = if k.prefixIds.isEmpty then [] else k.prefixIds.insertIdx row u32Max)
    (inside : k.prefixIds = [] ∨ row ≤ k.prefixIds.length) (i : Nat) :
    k'.prefixAt i = if i < row then k.prefixAt i else if i = row then [] else k.prefixAt
      (i - 1) := by
  have same (id : Nat) : k'.prefixOf id = k.prefixOf id := by rw [prefixOf, prefixOf,
    prefixes, bytes]
  unfold prefixAt
  rw [ids]
  by_cases bare : k.prefixIds = []
  · simp [bare]
  · rw [if_neg (by rw [List.isEmpty_iff]; exact bare), List.getElem?_insertIdx]
    split_ifs with before here inRange
    · simp [same]
    · exact (same _).trans (prefixOf_u32Max few)
    · exact absurd (inside.resolve_left bare) (by omega)
    · simp [same]

def withNew (k : Keys) (row : Nat) (key : Bytes) : Keys :=
  { k with
    suffixes := k.suffixes ++ key
    rows := k.rows.insertIdx row ⟨k.suffixes.length, key.length⟩
    prefixIds := if k.prefixIds.isEmpty then [] else k.prefixIds.insertIdx row u32Max }

def withRowAt (k : Keys) (row : Nat) (span : Span) (more : Bytes) : Keys :=
  { k with
    suffixes := k.suffixes ++ more
    garbage := k.garbage + (k.rows[row]?.getD .default).len
    rows := k.rows.set row span
    prefixIds := k.prefixIds.set row u32Max }

theorem Holds.withNew (h : k.Holds keys) (op : k.offsets = []) (key : Bytes)
    (inside : row ≤ keys.length) : (k.withNew row key).Holds (keys.insertIdx row key) := by
  have rows := h.rows_length op
  have inRows : row ≤ k.rows.length := by rw [rows]; exact inside
  have inIds : k.prefixIds = [] ∨ row ≤ k.prefixIds.length :=
    h.ids.imp id fun same => by rw [same]; exact inside
  refine holds_of_rows h op rfl rfl ?_ ?_ ?_ ?_
  · rw [Keys.withNew, length_insertIdx_of_le_length inRows,
      length_insertIdx_of_le_length inside, rows]
  · unfold Keys.withNew
    by_cases bare : k.prefixIds = []
    · exact .inl (if_pos (isEmpty_iff.mpr bare))
    · refine .inr ?_
      rw [if_neg (by rw [List.isEmpty_iff]; exact bare),
        length_insertIdx_of_le_length (inIds.resolve_left bare),
        length_insertIdx_of_le_length inside, h.ids.resolve_left bare]
  · intro _ mem
    unfold Keys.withNew at mem
    split at mem
    · cases mem
    · exact eq_or_mem_of_mem_insertIdx mem
  · intro i b found
    rw [prefixAt_insert (show (k.withNew row key).prefixes = k.prefixes from rfl) rfl
      h.few rfl inIds]
    unfold Keys.withNew
    rcases lt_trichotomy i row with before | here | after
    · rw [getElem?_insertIdx_of_lt before] at found ⊢
      obtain ⟨s, there, within, bytes⟩ := h.row op found
      refine ⟨s, there, within.append key, ?_⟩
      rw [if_pos before, within.get_append, bytes]
    · subst here
      rw [getElem?_insertIdx_self, if_pos inside] at found
      cases found
      refine ⟨⟨k.suffixes.length, key.length⟩, ?_, Span.within_push k.suffixes key, ?_⟩
      · rw [getElem?_insertIdx_self, if_pos inRows]
      · rw [if_neg (lt_irrefl _), if_pos rfl]
        exact Span.get_push k.suffixes key
    · rw [getElem?_insertIdx_of_gt after] at found ⊢
      obtain ⟨s, there, within, bytes⟩ := h.row op found
      refine ⟨s, there, within.append key, ?_⟩
      rw [if_neg (lt_asymm after), if_neg (ne_of_gt after), within.get_append, bytes]

theorem prefixAt_set (few : k.prefixes.length ≤ u32Max) (row : Nat) (span : Span) (more : Bytes)
    (i : Nat) : (k.withRowAt row span more).prefixAt i = if i = row then [] else k.prefixAt i := by
  have same (id : Nat) : (k.withRowAt row span more).prefixOf id = k.prefixOf id := rfl
  unfold prefixAt
  have ids : (k.withRowAt row span more).prefixIds = k.prefixIds.set row u32Max := rfl
  rw [ids]
  rcases Decidable.eq_or_ne row i with rfl | other
  · rw [if_pos rfl]
    rcases lt_or_ge row k.prefixIds.length with inside | outside
    · rw [getElem?_set_self inside]
      exact (same _).trans (prefixOf_u32Max few)
    · rw [getElem?_eq_none (by rw [length_set]; exact outside)]
  · rw [if_neg other.symm, getElem?_set_ne other]
    rfl

theorem Holds.withRowAt (h : k.Holds keys) (op : k.offsets = []) {span : Span}
    {more bytes : Bytes} (inside : row < keys.length) (within : span.Within (k.suffixes ++ more))
    (same : span.get (k.suffixes ++ more) = bytes) :
    (k.withRowAt row span more).Holds (keys.set row bytes) := by
  have rows := h.rows_length op
  have inRows : row < k.rows.length := by rw [rows]; exact inside
  refine holds_of_rows h op rfl rfl ?_ ?_ ?_ ?_
  · rw [Keys.withRowAt, length_set, length_set, rows]
  · refine h.ids.imp (fun bare => ?_) fun length => ?_
    · change k.prefixIds.set row u32Max = []
      rw [bare]
      rfl
    · rw [Keys.withRowAt, length_set, length_set, length]
  · intro _ mem
    exact (mem_or_eq_of_mem_set mem).symm
  · intro i b found
    rw [prefixAt_set h.few]
    unfold Keys.withRowAt
    rcases Decidable.eq_or_ne row i with at_ | other
    · subst at_
      rw [getElem?_set_self inside] at found
      cases found
      refine ⟨span, getElem?_set_self inRows, within, ?_⟩
      rw [if_pos rfl]
      exact same
    · rw [getElem?_set_ne other] at found ⊢
      obtain ⟨t, there, inBuffer, stored⟩ := h.row op found
      refine ⟨t, there, inBuffer.append more, ?_⟩
      rw [if_neg other.symm, inBuffer.get_append, stored]

variable {key : Bytes} {replace : Bool}

theorem insert_of_fits (fits : (k.thaw.makeRoom key).suffixes.length + key.length ≤ u32Max) :
    k.insert row key replace = (if replace then (k.thaw.makeRoom key).withRowAt row
      (Span.push (k.thaw.makeRoom key).suffixes key).2 key else (k.thaw.makeRoom key).withNew row
        key,
      .ok ()) := by
  have appended : Span.append (k.thaw.makeRoom key).suffixes key =
      some (Span.push (k.thaw.makeRoom key).suffixes key) := if_pos fits
  unfold insert
  dsimp only
  rw [appended]
  cases replace <;> rfl

theorem insert_of_full (full : ¬ (k.thaw.makeRoom key).suffixes.length + key.length ≤ u32Max) :
    k.insert row key replace = (k.thaw.makeRoom key,
      .error "small-object key buffer overflow") := by
  have refused : Span.append (k.thaw.makeRoom key).suffixes key = none := if_neg full
  unfold insert
  dsimp only
  rw [refused]

end Rows

/-! ## Accounting for every byte -/

def suffixTotal (k : Keys) : Nat := ((List.range k.count).map fun i => (k.suffixAt i).length).sum

/-- The buffer stands for the keys; every byte of it belongs to a row, to a prefix or is garbage. -/
structure Sound (k : Keys) (keys : List Bytes) : Prop where
  holds : k.Holds keys
  size : k.suffixes.length = k.suffixTotal + k.garbage
  bounded : k.suffixes.length ≤ u32Max
  prefixSize : k.prefixBytes.length = k.prefixTotal
  prefixBounded : k.prefixBytes.length ≤ u32Max

theorem sound_empty : Sound {} [] := ⟨holds_empty, rfl, zero_le _, rfl, zero_le _⟩

section Sizes

variable {k : Keys} {keys : List Bytes}

theorem suffixAt_freeze (op : k.offsets = []) {i : Nat} (inside : i < k.rows.length) :
    k.freeze.suffixAt i = k.suffixAt i := by
  have here := getElem?_eq_getElem inside
  obtain ⟨t, there, -, same⟩ := span_freeze here
  rw [suffixAt, there, suffixAt, span_of_open op, here]
  exact same

section Open

variable (h : k.Holds keys) (op : k.offsets = [])
include h op

theorem Holds.row_within {i : Nat} {s : Span}
    (here : k.rows[i]? = some s) : s.Within k.suffixes := by
  have inside := (List.getElem?_eq_some_iff.mp here).1
  rw [h.rows_length op] at inside
  obtain ⟨_, here', within, -⟩ := h.row op (List.getElem?_eq_getElem inside)
  cases here.symm.trans here'
  exact within

theorem Holds.suffixTotal_open : k.suffixTotal = (k.rows.map Span.len).sum := by
  unfold suffixTotal
  rw [count_of_open op]
  refine congrArg sum (map_range_length fun i s here => ?_)
  rw [suffixAt, span_of_open op, here]
  exact (h.row_within op here).length_get

theorem Holds.count_freeze : k.freeze.count = k.rows.length := by
  rw [(h.freeze op).count, h.rows_length op]

theorem Holds.suffixTotal_freeze :
    k.freeze.suffixTotal = k.suffixTotal ∧ k.freeze.suffixes.length = k.suffixTotal := by
  have same : (List.range k.rows.length).map (fun i => (k.freeze.suffixAt i).length) =
      (List.range k.rows.length).map fun i => (k.suffixAt i).length := by
    apply List.map_congr_left
    intro i mem
    rw [suffixAt_freeze op (List.mem_range.mp mem)]
  have laid : k.freeze.suffixes.length = (k.rows.map fun s => (s.get k.suffixes).length).sum := by
    rw [Keys.freeze, length_flatten, map_map]
    rfl
  constructor
  · rw [suffixTotal, suffixTotal, h.count_freeze op, count_of_open op, same]
  · rw [laid, h.suffixTotal_open op]
    congr 1
    apply map_congr_left
    intro s mem
    obtain ⟨i, here⟩ := getElem?_of_mem mem
    exact (h.row_within op here).length_get

theorem Holds.sound_freeze (fits : k.suffixTotal ≤ u32Max)
    (prefixSize : k.prefixBytes.length = k.prefixTotal)
    (prefixBounded : k.prefixBytes.length ≤ u32Max) : k.freeze.Sound keys := by
  obtain ⟨total, length⟩ := h.suffixTotal_freeze op
  refine ⟨h.freeze op, ?_, by rw [length]; exact fits, prefixSize, prefixBounded⟩
  rw [length, total]
  rfl

end Open

theorem Sound.size_open (h : k.Sound keys) (op : k.offsets = []) :
    k.suffixes.length = (k.rows.map Span.len).sum + k.garbage := by
  rw [h.size, h.holds.suffixTotal_open op]

theorem Sound.thaw (h : k.Sound keys) : k.thaw.Sound keys := by
  obtain ⟨suffixes, garbage, -, prefixes, bytes⟩ := k.thaw_fields
  refine ⟨h.holds.thaw, ?_, by rw [suffixes]; exact h.bounded,
    ?_, by rw [bytes]; exact h.prefixBounded⟩
  · rw [suffixes, garbage, h.size, suffixTotal, suffixTotal, thaw_count]
    simp [suffixAt, thaw_span, suffixes]
  · rw [bytes, h.prefixSize, prefixTotal, prefixTotal, prefixes]

theorem Sound.freeze (h : k.Sound keys) (op : k.offsets = []) : k.freeze.Sound keys := by
  refine h.holds.sound_freeze op ?_ h.prefixSize h.prefixBounded
  have size := h.size
  have bounded := h.bounded
  omega

end Sizes

section Retain

variable {k next : Keys} {keys : List Bytes} {renamed kept : List Nat}

theorem Retained.suffixAt (h : Retained k next renamed kept) {i row : Nat}
    (here : kept[i]? = some row) : next.suffixAt i = k.suffixAt row := by
  obtain ⟨s, span, -, bytes⟩ := h.span i row here
  rw [Keys.suffixAt, span_of_open h.offsets, span]
  exact bytes

theorem Retained.suffixTotal (h : Retained k next renamed kept) :
    next.suffixTotal = next.suffixes.length := by
  rw [h.size, Keys.suffixTotal, count_of_open h.offsets, h.rows]
  exact congrArg sum (map_range_length fun i row here => by rw [h.suffixAt here])

theorem Sound.retain (h : k.Sound keys) (keep : Nat → Bool) :
    (k.retain keep).Sound (keptKeys keep keys) := by
  have loop := retained_count h.holds keep
  have holds := loop.holds h.holds fun row mem => mem_range.mp (mem_of_mem_filter mem)
  have fewer : _ ≤ k.suffixTotal :=
    ((filter_sublist (p := keep)).map fun row => (k.suffixAt row).length).sum_le_sum
    fun n _ => zero_le n
  rw [h.holds.count, ← loop.size] at fewer
  have size := h.size
  have bounded := h.bounded
  have prefixSize := h.prefixSize
  have prefixBounded := h.prefixBounded
  have prefixRoom := loop.room
  have copied : (retainRows k keep k.count).1.Sound (keptKeys keep keys) := by
    refine ⟨holds, ?_, by omega, loop.prefixSize, by omega⟩
    rw [loop.suffixTotal, loop.garbage]
    rfl
  unfold Keys.retain
  split
  · exact copied
  · exact copied.freeze loop.offsets

theorem retained_open (op : k.offsets = []) (h : k.Holds keys) (keep : Nat → Bool) :
    ∃ renamed kept, Retained k (k.retain keep) renamed kept := by
  rw [retain, if_pos (isEmpty_iff.mpr op)]
  exact ⟨_, _, retained_count h keep⟩

end Retain

theorem sum_set_add {l : List Nat} {old : Nat} (new : Nat) (here : l[i]? = some old) :
    (l.set i new).sum + old = l.sum + new := by
  induction l generalizing i with
  | nil => cases here
  | cons a l ih =>
    cases i with
    | zero =>
      cases here
      simp only [set_cons_zero, sum_cons]
      omega
    | succ =>
      have tail := ih here
      simp only [set_cons_succ, sum_cons]
      omega

section Insert

variable {k : Keys} {keys : List Bytes}

variable (h : k.Sound keys)
include h

theorem Sound.withNew (op : k.offsets = []) {row : Nat} {key : Bytes}
    (inside : row ≤ keys.length) (fits : k.suffixes.length + key.length ≤ u32Max) :
    (k.withNew row key).Sound (keys.insertIdx row key) := by
  have holds := h.holds.withNew op key inside
  have inRows : row ≤ k.rows.length := by rw [h.holds.rows_length op]; exact inside
  refine ⟨holds, ?_, ?_, h.prefixSize, h.prefixBounded⟩
  · have sum : ((k.withNew row key).rows.map Span.len).sum =
        key.length + (k.rows.map Span.len).sum :=
      ((perm_insertIdx _ _ inRows).map Span.len).sum_nat
    have size := h.size_open op
    rw [holds.suffixTotal_open op, sum]
    change (k.suffixes ++ key).length = _ + k.garbage
    rw [length_append]
    omega
  · change (k.suffixes ++ key).length ≤ _
    rw [length_append]
    exact fits

theorem Sound.withRowAt (op : k.offsets = []) {row : Nat} {span : Span}
    {more bytes : Bytes} (inside : row < keys.length) (within : span.Within (k.suffixes ++ more))
    (same : span.get (k.suffixes ++ more) = bytes) (len : span.len = more.length)
    (fits : k.suffixes.length + more.length ≤ u32Max) :
    (k.withRowAt row span more).Sound (keys.set row bytes) := by
  have holds := h.holds.withRowAt op inside within same
  obtain ⟨s, here⟩ : ∃ s, k.rows[row]? = some s :=
    ⟨_, getElem?_eq_getElem (by rw [h.holds.rows_length op]; exact inside)⟩
  refine ⟨holds, ?_, ?_, h.prefixSize, h.prefixBounded⟩
  · have lens : (k.rows.map Span.len)[row]? = some s.len := by rw [getElem?_map, here]; rfl
    have sum := sum_set_add span.len lens
    rw [← map_set] at sum
    have size := h.size_open op
    rw [holds.suffixTotal_open op]
    unfold Keys.withRowAt
    dsimp only
    rw [length_append, here, Option.getD_some]
    omega
  · change (k.suffixes ++ more).length ≤ _
    rw [length_append]
    exact fits

end Insert

/-! ## Prefix compression -/

section Groups

variable (key : Nat → Bytes)

/-- What every group promises: its rows begin with the same `shared` bytes. -/
def Group.Shares (g : Group) : Prop :=
  ∀ r ∈ g.members, ∀ q ∈ g.members, (key r).take g.shared = (key q).take g.shared ∧
    g.shared ≤ (key r).length

/-- In sorted order all rows begin with what the first and the last have in common. -/
theorem shares_common (sorted : order.Pairwise fun a b => key a ≤ key b) :
    Group.Shares key ⟨order, commonLen (key (order.headD 0)) (key (order.getLastD 0))⟩ := by
  have each : ∀ r ∈ order,
      (key r).take (commonLen (key (order.headD 0)) (key (order.getLastD 0))) =
        (key (order.headD 0)).take (commonLen (key (order.headD 0)) (key (order.getLastD 0))) ∧
      commonLen (key (order.headD 0)) (key (order.getLastD 0)) ≤ (key r).length := by
    intro r mem
    obtain ⟨first, rest, rfl⟩ := exists_cons_of_ne_nil (ne_nil_of_mem mem)
    have low : key first ≤ key r := by
      rcases mem_cons.mp mem with same | later
      · rw [same]
        exact List.le_refl _
      · exact rel_of_pairwise_cons sorted later
    have high : key r ≤ key ((first :: rest).getLastD 0) := by
      have last := sorted.rel_getLast_of_rel_getLast_getLast mem (List.le_refl _)
      rw [getLastD_eq_getLast?, getLast?_eq_some_getLast (cons_ne_nil _ _)]
      exact last
    exact take_between low high (take_commonLen _ _) (commonLen_le_left _ _)
  intro r hr q hq
  exact ⟨(each r hr).1.trans (each q hq).1.symm, (each r hr).2⟩

theorem shares_zero (order : List Nat) : Group.Shares key ⟨order, 0⟩ :=
  fun _ _ _ _ => ⟨rfl, zero_le _⟩

structure Covers (groups : List Group) (order : List Nat) : Prop where
  perm : (groups.flatMap Group.members).Perm order
  shares : ∀ g ∈ groups, Group.Shares key g

theorem covers_single {g : Group} (shares : Group.Shares key g) : Covers key [g] g.members :=
  ⟨by simp, fun h mem => by rw [mem_singleton.mp mem]; exact shares⟩

theorem Covers.reverse_children {children : List (List Nat)} {groups : List Nat → List Group}
    (each : ∀ run ∈ children, Covers key (groups run) run) :
    Covers key (children.reverse.flatMap groups) children.flatten := by
  constructor
  · induction children with
    | nil => exact List.Perm.refl _
    | cons run _ ih =>
      have tail := ih fun r mem => each r (mem_cons_of_mem _ mem)
      have head := (each run mem_cons_self).perm
      rw [reverse_cons, flatMap_append, flatMap_append, flatten_cons]
      rw [flatMap_cons, flatMap_nil, append_nil]
      exact perm_append_comm.trans (head.append tail)
  · intro g mem
    obtain ⟨run, child, inside⟩ := mem_flatMap.mp mem
    exact (each run (mem_reverse.mp child)).shares g inside

theorem visit_node (node : ¬ (order.length ≤ 1 ∨ key (order.headD 0) = key (order.getLastD 0))) :
    (visit key order).1 = [⟨order, commonLen (key (order.headD 0)) (key (order.getLastD 0))⟩] ∨
      (visit key order).1 =
        (runs key (commonLen (key (order.headD 0)) (key (order.getLastD 0))) order).reverse.flatMap
          fun run => (visit key run).1 := by
  rw [visit]
  dsimp only
  rw [dif_neg node]
  generalize (if commonLen (key (order.headD 0)) (key (order.getLastD 0)) = 0 then _ else _) = whole
  split
  · exact .inl rfl
  · refine .inr ?_
    dsimp only
    rw [flatMap_map, flatMap_def, flatMap_def, map_reverse, map_reverse]
    congr 2
    exact attach_map_val (f := fun run => (visit key run).1)

theorem covers_visit (order : List Nat) (sorted : order.Pairwise fun a b => key a ≤ key b) :
    Covers key (visit key order).1 order := by
  -- the runs of an inner node are shorter, so the induction is on the length
  induction size : order.length using Nat.strong_induction_on generalizing order with
  | _ n ih =>
    subst size
    by_cases leaf : order.length ≤ 1 ∨ key (order.headD 0) = key (order.getLastD 0)
    · rw [visit, dif_pos leaf]
      refine covers_single key ?_
      split
      · exact shares_common key sorted
      · exact shares_zero key order
    · rcases visit_node key leaf with whole | split
      · rw [whole]
        exact covers_single key (shares_common key sorted)
      · rw [split]
        have flat : (runs key (commonLen (key (order.headD 0)) (key (order.getLastD 0)))
            order).flatten = order := flatten_splitBy _ _
        have covered : Covers key
            ((runs key (commonLen (key (order.headD 0)) (key (order.getLastD 0)))
              order).reverse.flatMap
              fun run => (visit key run).1)
            (runs key (commonLen (key (order.headD 0)) (key (order.getLastD 0)))
              order).flatten := by
          refine Covers.reverse_children key fun run mem => ?_
          have part := sublist_flatten_of_mem mem
          rw [flat] at part
          exact ih run.length (length_lt_of_mem_runs leaf mem) run (sorted.sublist part) rfl
        rw [flat] at covered
        exact covered

end Groups

section Compress

variable {k : Keys} {keys : List Bytes}

def Sorter.stable : Sorter where
  order k := (range k.rows.length).mergeSort fun a b => decide (k.keyAt a ≤ k.keyAt b)
  perm k := mergeSort_perm _ _
  sorted k := by
    refine (pairwise_mergeSort (fun a b c ab bc => ?_) (fun a b => ?_) _).imp decide_eq_true_eq.mp
    · rw [decide_eq_true_eq] at ab bc ⊢
      exact List.le_trans ab bc
    · rw [Bool.or_eq_true, decide_eq_true_eq, decide_eq_true_eq]
      exact List.le_total _ _

theorem covers_groups (k : Keys) (sorter : Sorter) :
    Covers k.keyAt (k.groups sorter) (range k.rows.length) := by
  have covered := covers_visit k.keyAt (sorter.order k) (sorter.sorted k)
  exact ⟨covered.perm.trans (sorter.perm k), covered.shares⟩

/-- The compressed copy while rows are moved into it: the rows of `done` have their keys. -/
structure Compressed (k next : Keys) (done : List Nat) : Prop where
  offsets : next.offsets = []
  rows : next.rows.length = k.rows.length
  ids : next.prefixIds.length = k.rows.length
  key : ∀ r ∈ done, r < k.rows.length → ∃ s id, next.rows[r]? = some s ∧ s.Within next.suffixes ∧
    next.prefixIds[r]? = some id ∧ (id ≠ u32Max → id < next.prefixes.length) ∧
    next.prefixOf id ++ s.get next.suffixes = k.keyAt r
  range : ∀ id ∈ next.prefixIds, id ≠ u32Max → id < next.prefixes.length
  within : ∀ p ∈ next.prefixes, p.Within next.prefixBytes
  few : next.prefixes.length ≤ u32Max
  prefixSize : next.prefixBytes.length = next.prefixTotal

theorem compressRows_prefixes (shared id : Nat) (members : List Nat) (next : Keys) :
    (members.foldl (compressRow k shared id) next).prefixes = next.prefixes ∧
      (members.foldl (compressRow k shared id) next).prefixBytes = next.prefixBytes := by
  induction members generalizing next with
  | nil => exact ⟨rfl, rfl⟩
  | cons r _ ih => exact ih (compressRow k shared id next r)

variable {next : Keys} {done : List Nat}

section

variable (h : Compressed k next done)
include h

theorem Compressed.row {shared id row : Nat} (range : id ≠ u32Max → id < next.prefixes.length)
    (head : next.prefixOf id = (k.keyAt row).take shared) :
    Compressed k (compressRow k shared id next row) (row :: done) where
  __ := h
  rows := by
    change (next.rows.set _ _).length = _
    rw [length_set, h.rows]
  ids := by
    change (next.prefixIds.set _ _).length = _
    rw [length_set, h.ids]
  key := by
    intro r mem inside
    change ∃ s i, (next.rows.set row _)[r]? = some s ∧ _ ∧ (next.prefixIds.set row id)[r]? = _ ∧ _
    rcases Decidable.eq_or_ne row r with same | other
    · subst same
      refine ⟨_, id, getElem?_set_self (by rw [h.rows]; exact inside), Span.within_push _ _,
        getElem?_set_self (by rw [h.ids]; exact inside), range, ?_⟩
      have suffix := Span.get_push next.suffixes ((k.keyAt row).drop shared)
      exact (congrArg₂ (· ++ ·) head suffix).trans (take_append_drop shared _)
    · obtain ⟨s, i, here, within, idHere, idRange, bytes⟩ :=
        h.key r ((mem_cons.mp mem).resolve_left other.symm) inside
      rw [getElem?_set_ne other, getElem?_set_ne other]
      exact ⟨s, i, here, within.append _, idHere, idRange,
        (congrArg (next.prefixOf i ++ ·) (within.get_append _)).trans bytes⟩
  range := by
    intro i mem ne
    rcases mem_or_eq_of_mem_set mem with earlier | new
    · exact h.range i earlier ne
    · subst new
      exact range ne

theorem Compressed.rows_foldl {shared id : Nat} (range : id ≠ u32Max → id < next.prefixes.length)
    (members : List Nat) (head : ∀ r ∈ members, next.prefixOf id = (k.keyAt r).take shared) :
    Compressed k (members.foldl (compressRow k shared id) next) (members.reverse ++ done) := by
  induction members generalizing next done with
  | nil => exact h
  | cons row _ ih =>
    have one := h.row range (head row mem_cons_self)
    have all := ih one range fun r mem => head r (mem_cons_of_mem _ mem)
    rw [reverse_cons, append_assoc]
    exact all

theorem Compressed.newPrefix (bytes : Bytes) (few : next.prefixes.length < u32Max) :
    Compressed k (next.withPrefix bytes) done where
  __ := h
  key := by
    intro r mem inside
    obtain ⟨s, id, here, within, idHere, range, same⟩ := h.key r mem inside
    refine ⟨s, id, here, within, idHere, fun ne => ?_, ?_⟩
    · rw [length_withPrefix]
      exact lt_succ_of_lt (range ne)
    · rw [prefixOf_withPrefix next h.within few range]
      exact same
  range := by
    intro id mem ne
    rw [length_withPrefix]
    exact lt_succ_of_lt (h.range id mem ne)
  within := within_withPrefix h.within _
  few := by
    rw [length_withPrefix]
    exact few
  prefixSize := prefixTotal_withPrefix h.prefixSize _

theorem Compressed.group {g : Group} (shares : Group.Shares k.keyAt g)
    (few : g.shared ≠ 0 → next.prefixes.length < u32Max) :
    Compressed k (compressGroup k next g) (g.members.reverse ++ done) ∧
      (compressGroup k next g).prefixes.length =
        next.prefixes.length + (if g.shared ≠ 0 then 1 else 0) ∧
      (compressGroup k next g).prefixBytes.length ≤ next.prefixBytes.length + g.shared := by
  by_cases none : g.shared = 0
  · obtain ⟨prefixes, bytes⟩ := compressRows_prefixes (k := k) g.shared u32Max g.members next
    rw [compressGroup, if_pos none, prefixes, bytes, if_neg (fun ne => ne none)]
    refine ⟨h.rows_foldl (fun ne => absurd rfl ne) g.members fun r _ => ?_, rfl, by omega⟩
    rw [prefixOf_u32Max h.few, none]
    rfl
  · obtain ⟨prefixes, bytes⟩ := compressRows_prefixes (k := k) g.shared
      next.prefixes.length g.members
      (next.withPrefix ((k.keyAt (g.members.headD 0)).take g.shared))
    rw [show compressGroup k next g = g.members.foldl _ (next.withPrefix _) from if_neg
      none, prefixes, bytes, if_pos none, length_withPrefix]
    refine ⟨(h.newPrefix _ (few none)).rows_foldl (fun _ => by simp [length_withPrefix]) g.members
      fun r mem => ?_, rfl, ?_⟩
    · have first : g.members.headD 0 ∈ g.members := by
        obtain ⟨_, _, same⟩ := exists_cons_of_ne_nil (ne_nil_of_mem mem)
        rw [same]
        exact mem_cons_self
      rw [prefixOf_withPrefix_new]
      exact (shares _ first _ mem).1
    · change (next.prefixBytes ++ _).length ≤ _
      rw [length_append, length_take]
      omega

end

def prefixGroups (groups : List Group) : Nat := (groups.filter fun g => g.shared ≠ 0).length

theorem Compressed.groups (h : Compressed k next done) (groups : List Group)
    (shares : ∀ g ∈ groups, Group.Shares k.keyAt g)
    (few : next.prefixes.length + prefixGroups groups < u32Max) :
    ∃ done', Compressed k (groups.foldl (compressGroup k) next) done' ∧
      done ⊆ done' ∧ groups.flatMap Group.members ⊆ done' ∧
      (groups.foldl (compressGroup k) next).prefixBytes.length ≤
        next.prefixBytes.length + (groups.map Group.shared).sum := by
  induction groups generalizing next done with
  | nil => exact ⟨done, h, List.Subset.refl _, nil_subset _, le_refl _⟩
  | cons g rest ih =>
    have count : prefixGroups (g :: rest) =
        (if g.shared ≠ 0 then 1 else 0) + prefixGroups rest := by
      unfold prefixGroups
      rw [filter_cons]
      by_cases none : g.shared = 0
      · simp [none]
      · simp [none, add_comm]
    obtain ⟨one, _, _⟩ := h.group (shares g mem_cons_self) fun some => by
      rw [count, if_pos some] at few
      omega
    obtain ⟨done', all, kept, members, _⟩ :=
      ih one (fun g' mem => shares g' (mem_cons_of_mem _ mem))
      (by omega)
    obtain ⟨inside, before⟩ := append_subset.mp kept
    refine ⟨done', all, before, ?_, ?_⟩
    · rw [flatMap_cons]
      exact append_subset.mpr ⟨fun r mem => inside (mem_reverse.mpr mem), members⟩
    · rw [foldl_cons, map_cons, sum_cons]
      omega

theorem compressed_start (k : Keys) :
    Compressed k
      { rows := replicate k.rows.length .default
        prefixIds := replicate k.rows.length u32Max } [] where
  offsets := rfl
  rows := length_replicate
  ids := length_replicate
  key := fun r mem => by cases mem
  range := fun id mem ne => absurd (eq_of_mem_replicate mem) ne
  within := fun p mem => by cases mem
  few := zero_le _
  prefixSize := rfl

theorem Holds.keyAt (h : k.Holds keys) (op : k.offsets = []) (bare : k.prefixIds = []) {i : Nat}
    {b : Bytes} (key : keys[i]? = some b) : k.keyAt i = b := by
  have bytes := h.prefix_suffix key
  rw [prefixAt, bare, Keys.suffixAt, span_of_open op] at bytes
  exact bytes

theorem Compressed.holds (h : Compressed k next done) (holds : k.Holds keys) (op : k.offsets = [])
    (bare : k.prefixIds = []) (all : List.range k.rows.length ⊆ done) : next.Holds keys := by
  have rows := holds.rows_length op
  refine ⟨?_, ?_, ?_, h.range, h.within, h.few⟩
  · rw [count_of_open h.offsets, h.rows, rows]
  · intro i b key
    have inside : i < k.rows.length := by
      rw [rows]
      exact (List.getElem?_eq_some_iff.mp key).1
    obtain ⟨s, _, here, within, idHere, -, bytes⟩ :=
      h.key i (all (mem_range.mpr inside)) inside
    refine ⟨s, by rw [span_of_open h.offsets, here], within, ?_⟩
    rw [prefixAt, idHere, ← holds.keyAt op bare key]
    exact bytes
  · exact .inr (by rw [h.ids, rows])

def total (keys : List Bytes) : Nat := (keys.map List.length).sum

theorem Holds.suffixTotal_le (h : k.Holds keys) : k.suffixTotal ≤ total keys := by
  unfold suffixTotal total
  rw [h.count, ← map_range_length (l := keys) (f := fun i => (keys[i]?.getD []).length)
    fun i b key => by rw [key]; rfl]
  refine sum_le_sum fun i mem => ?_
  have key : keys[i]? = some (keys[i]?.getD []) := by
    rw [getElem?_eq_getElem (mem_range.mp mem)]
    rfl
  have parts := congrArg length (h.prefix_suffix key)
  rw [length_append] at parts
  omega

/-- The lengths and offsets of the buffer are exact in 32 bits. -/
def Fits (k : Keys) : Prop := k.suffixes.length ≤ u32Max ∧ k.prefixBytes.length ≤ u32Max

variable (h : k.Sound keys)
include h

theorem Sound.fits : k.Fits := ⟨h.bounded, h.prefixBounded⟩

theorem Sound.size_bare (bare : k.prefixIds = []) : k.suffixes.length = total keys + k.garbage := by
  have rows : k.suffixTotal = total keys := by
    unfold suffixTotal total
    rw [h.holds.count]
    refine congrArg sum (map_range_length fun i b key => ?_)
    have bytes := h.holds.prefix_suffix key
    rw [prefixAt, bare] at bytes
    exact congrArg length bytes
  rw [h.size, rows]

theorem Sound.compress (op : k.offsets = []) (sorter : Sorter) :
    let next := k.compress sorter
    next.Holds keys ∧ next.offsets = [] ∧ next.suffixTotal ≤ u32Max ∧
      next.prefixBytes.length = next.prefixTotal ∧ next.prefixBytes.length ≤ u32Max := by
  intro next
  have size := h.size
  have bounded := h.bounded
  by_cases early : k.rows.isEmpty = true ∨ ¬k.prefixIds.isEmpty = true
  · have same : next = k := if_pos early
    rw [same]
    exact ⟨h.holds, op, by omega, h.prefixSize, h.prefixBounded⟩
  · have bare : k.prefixIds = [] := by
      rw [not_or, not_not] at early
      exact isEmpty_iff.mp early.2
    have keysFit : total keys ≤ u32Max := by
      have size := h.size_bare bare
      omega
    obtain ⟨k', same, sound, op', bare'⟩ : ∃ k' : Keys,
        (if k.garbage ≠ 0 then k.retain fun _ => true else k) = k' ∧ k'.Sound keys ∧
          k'.offsets = [] ∧ k'.prefixIds = [] := by
      refine ⟨_, rfl, ?_⟩
      split
      · have all := h.retain fun _ => true
        rw [keptKeys_all] at all
        obtain ⟨_, _, copied⟩ := retained_open op h.holds fun _ => true
        exact ⟨all, copied.offsets, copied.bare bare⟩
      · exact ⟨h, op, bare⟩
    unfold next Keys.compress
    rw [if_neg early, same]
    dsimp only
    split
    · have fits := le_trans sound.holds.suffixTotal_le keysFit
      exact ⟨sound.holds, op', fits, sound.prefixSize, sound.prefixBounded⟩
    · rename_i smaller
      have covered := k'.covers_groups sorter
      have bounded := sound.bounded
      unfold compressedSize spanSize at smaller
      have few : prefixGroups (k'.groups sorter) < u32Max := by
        unfold prefixGroups
        omega
      obtain ⟨_, all, -, members, prefixes⟩ := (compressed_start k').groups _ covered.shares
        (by rw [length_nil]; omega)
      have holds := all.holds sound.holds op' bare' fun r mem => members
        (covered.perm.mem_iff.mpr mem)
      refine ⟨holds, all.offsets, le_trans holds.suffixTotal_le keysFit, all.prefixSize,
        le_trans prefixes ?_⟩
      change 0 + _ ≤ _
      omega

theorem Sound.sealUp (sorter : Sorter) : (k.sealUp sorter).Sound keys := by
  unfold Keys.sealUp
  split
  · rename_i op
    obtain ⟨holds, opened, fits, prefixSize, bounded⟩ := h.compress (isEmpty_iff.mp op) sorter
    exact holds.sound_freeze opened fits prefixSize bounded
  · exact h

end Compress

/-! ## A buffer that was never sealed -/

/-- The keys of a segment's rows; an open segment's buffer was never sealed. -/
structure Held (k : Keys) (op : Bool) (keys : List Bytes) : Prop where
  sound : k.Sound keys
  plain : op = true → k.offsets = [] ∧ k.prefixIds = []

theorem held_empty : Held {} true [] := ⟨sound_empty, fun _ => ⟨rfl, rfl⟩⟩

section Held

variable {op : Bool} (h : k.Held op keys)
include h

theorem Held.relax : k.Held false keys := ⟨h.sound, (absurd · Bool.false_ne_true)⟩

theorem Held.retain (keep : Nat → Bool) : (k.retain keep).Held op (keptKeys keep keys) := by
  refine ⟨h.sound.retain keep, fun isOpen => ?_⟩
  obtain ⟨offsets, bare⟩ := h.plain isOpen
  obtain ⟨_, _, copied⟩ := retained_open offsets h.sound.holds keep
  exact ⟨copied.offsets, copied.bare bare⟩

theorem Held.sealUp (sorter : Sorter) : (k.sealUp sorter).Held false keys :=
  ⟨h.sound.sealUp sorter, (absurd · Bool.false_ne_true)⟩

theorem Held.thaw : k.thaw.Held op keys := by
  refine ⟨h.sound.thaw, fun isOpen => ?_⟩
  rw [thaw_of_open (h.plain isOpen).1]
  exact h.plain isOpen

theorem Held.copy : (k.retain fun _ => true).Held op keys := by
  have all := h.retain fun _ => true
  rwa [keptKeys_all] at all

theorem Held.makeRoom (opened : k.offsets = []) (key : Bytes) :
    (k.makeRoom key).Held op keys ∧ (k.makeRoom key).offsets = [] := by
  unfold Keys.makeRoom
  split
  · obtain ⟨_, _, copied⟩ := retained_open opened h.sound.holds fun _ => true
    exact ⟨h.copy, copied.offsets⟩
  · exact ⟨h, opened⟩

theorem Held.insert {row : Nat} (key : Bytes) (replace : Bool)
    (inside : if replace then row < keys.length else row ≤ keys.length) :
    ((k.insert row key replace).2 = .ok () ∧ (k.insert row key replace).1.Held op
      (if replace then keys.set row key else keys.insertIdx row key)) ∨
    ((k.insert row key replace).2 = .error "small-object key buffer overflow" ∧
      (k.insert row key replace).1.Held op keys) := by
  obtain ⟨made, opened⟩ := h.thaw.makeRoom k.thaw_offsets key
  by_cases fits : (k.thaw.makeRoom key).suffixes.length + key.length ≤ u32Max
  · rw [insert_of_fits fits]
    refine .inl ⟨rfl, ?_⟩
    cases replace with
    | true =>
      refine ⟨made.sound.withRowAt opened inside (Span.within_push _ key)
        (Span.get_push _ key) rfl fits, fun isOpen => ⟨opened, ?_⟩⟩
      simp [Keys.withRowAt, (made.plain isOpen).2]
    | false =>
      refine ⟨made.sound.withNew opened inside fits, fun isOpen => ⟨opened, ?_⟩⟩
      simp [Keys.withNew, (made.plain isOpen).2]
  · rw [insert_of_full fits]
    exact .inr ⟨rfl, made⟩

theorem Held.remove {row : Nat} (inside : row < keys.length) :
    ∃ bytes, (op = true → bytes = []) ∧ (k.remove row).Held op (keys.set row bytes) := by
  unfold Keys.remove
  split
  · rename_i opened
    have empty := h.sound.withRowAt (isEmpty_iff.mp opened) inside
      (Span.within_default (k.suffixes ++ [])) rfl rfl h.sound.bounded
    unfold Keys.withRowAt at empty
    rw [append_nil] at empty
    refine ⟨[], fun _ => rfl, empty, fun isOpen => ?_⟩
    simp [h.plain isOpen]
  · rename_i frozen
    refine ⟨keys[row], fun isOpen => absurd (isEmpty_iff.mpr (h.plain isOpen).1) frozen, ?_⟩
    rw [set_getElem_self]
    exact h

end Held

/-- A buffer that was never sealed takes every key for which its own keys leave room. -/
theorem Held.insert_ok_iff (h : k.Held true keys) {row : Nat} {key : Bytes} {replace : Bool} :
    (k.insert row key replace).2 = .ok () ↔ total keys + key.length ≤ u32Max := by
  obtain ⟨offsets, bare⟩ := h.plain rfl
  have room : (k.thaw.makeRoom key).suffixes.length + key.length ≤ u32Max ↔
      total keys + key.length ≤ u32Max := by
    rw [thaw_of_open offsets]
    unfold Keys.makeRoom
    have size := h.sound.size_bare bare
    split
    · obtain ⟨_, _, copied⟩ := retained_open offsets h.sound.holds fun _ => true
      rw [h.copy.sound.size_bare (copied.bare bare), copied.garbage]
      rfl
    · omega
  rw [← room]
  by_cases fits : (k.thaw.makeRoom key).suffixes.length + key.length ≤ u32Max
  · simp [insert_of_fits fits, fits]
  · simp [insert_of_full fits, fits]

end Keys

end Talon.SmallStore
