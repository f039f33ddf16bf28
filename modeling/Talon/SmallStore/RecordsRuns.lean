import Talon.SmallStore.RecordsSpec

/-!
# Records as a map over whole runs

The callers of `records.rs` insert after their `overlaps` check, remove, cut off, seal and clone, in
any order, a sealed segment included.  Every copy stays the map from offsets to records that its
calls describe; tombstones, compaction and the form of the keys do not show.
-/

set_option autoImplicit false

namespace Talon.SmallStore.Records

open List Extents

abbrev OffsetMap := Nat → Option Record

section Runs

variable (keyHash : SmallKey → Nat)

/-- One call, and what it does to the map.  `Model::apply` inserts only what overlaps nothing. -/
inductive Step : Records × OffsetMap → Records × OffsetMap → Prop
  | insert {r m offset record i} (fits : record.key.Fits) (checksum : record.checksum < 2 ^ 64)
      (free : r.overlaps offset record.len = false)
      (done : (r.insert keyHash offset record).2 = .ok i) :
      Step (r, m) ((r.insert keyHash offset record).1, Function.update m offset (some record))
  | refused {r m offset record e} (fits : record.key.Fits) (checksum : record.checksum < 2 ^ 64)
      (free : r.overlaps offset record.len = false)
      (failed : (r.insert keyHash offset record).2 = .error e) :
      Step (r, m) ((r.insert keyHash offset record).1, m)
  | remove {r m offset r'} (removed : r.remove offset = some r') :
      Step (r, m) (r', Function.update m offset none)
  | retainBefore {r m} (stop : Nat) :
      Step (r, m) (r.retainBefore stop, fun o => if o < stop then m o else none)
  | sealUp {r m} (sorter : Keys.Sorter) : Step (r, m) (r.sealUp sorter, m)

/-- The copies that calls and clones make, each with its map. -/
inductive Copies : List (Records × OffsetMap) → Prop
  | start : Copies [({}, fun _ => none)]
  | step {front back s t} (copies : Copies (front ++ s :: back)) (made : Step keyHash s t) :
      Copies (front ++ t :: back)
  | clone {l s} (copies : Copies l) (mem : s ∈ l) : Copies (s :: l)

def Tracks (s : Records × OffsetMap) : Prop :=
  ∃ es, s.1.Lists keyHash false es ∧ ∀ o record, (o, record) ∈ es ↔ s.2 o = some record

end Runs

variable {keyHash : SmallKey → Nat} {r : Records} {m : OffsetMap} {es : List Entry} {offset : Nat}
  {record : Record}

theorem Lists.relax {op : Bool} (h : r.Lists keyHash op es) : r.Lists keyHash false es := by
  obtain ⟨cells, holds, same⟩ := h
  exact ⟨cells, { holds with keys := holds.keys.relax, ok := fun c mem => (holds.ok c mem).relax },
    same⟩

theorem Lists.len_pos (h : r.Lists keyHash false es) {e : Entry} (mem : e ∈ es) : 0 < e.2.len := by
  obtain ⟨cells, holds, rfl⟩ := h
  obtain ⟨c, cell, entry⟩ := mem_filterMap.mp mem
  obtain ⟨_, live, rfl⟩ := Option.map_eq_some_iff.mp entry
  exact (holds.len_of_record cell live).2

theorem len_pos_of_insert {i : Nat} (done : (r.insert keyHash offset record).2 = .ok i) :
    0 < record.len := by
  unfold Records.insert at done
  split at done
  · cases done
  · split at done
    · cases done
    · rename_i valid
      exact (validExtent_bounds (by simpa using valid)).2.1

theorem Step.tracks {s t : Records × OffsetMap} (step : Step keyHash s t) (h : Tracks keyHash s) :
    Tracks keyHash t := by
  obtain ⟨es, lists, same⟩ := h
  cases step with
  | @insert r m offset record i fits checksum free done =>
    have positive := len_pos_of_insert done
    rcases lists.insert_any fits checksum free with ⟨_, put⟩ | ⟨⟨e, failed⟩, _⟩
    · refine ⟨_, put, fun o q => ?_⟩
      have vacant : ∀ q, (offset, q) ∉ es := by
        intro q mem
        have long := lists.len_pos mem
        have meets := (lists.overlaps_iff offset record.len).mpr ⟨_, mem, by dsimp only; omega,
          by dsimp only at long ⊢; omega⟩
        rw [free] at meets
        cases meets
      by_cases here : o = offset
      · subst here
        simp [Entries.put, vacant, eq_comm]
      · simp only [Entries.put, mem_append, mem_filter, mem_cons, Prod.mk.injEq, here, false_and,
          false_or, decide_eq_true_eq, Function.update_of_ne here, ← same]
        rw [← and_or_left]
        exact and_iff_left (Nat.lt_or_ge o offset)
    · rw [done] at failed
      cases failed
  | refused fits checksum free failed =>
    rcases lists.insert_any fits checksum free with ⟨⟨i, done⟩, _⟩ | ⟨_, kept⟩
    · rw [failed] at done
      cases done
    · exact ⟨es, kept, same⟩
  | @remove r m offset r' removed =>
    have gone := lists.remove offset
    unfold Entries.remove at gone
    split_ifs at gone
    · obtain ⟨_, found, left⟩ := gone
      cases removed.symm.trans found
      refine ⟨_, left, fun o q => ?_⟩
      by_cases here : o = offset
      · simp [here]
      · simp [here, ← same]
    · cases removed.symm.trans gone
  | retainBefore stop =>
    refine ⟨_, lists.retainBefore stop, fun o q => ?_⟩
    by_cases low : o < stop
    · simp [Entries.before, low, ← same]
    · simp [Entries.before, low]
  | sealUp sorter => exact ⟨es, lists.sealUp sorter, same⟩

theorem Copies.tracks {l : List (Records × OffsetMap)} (copies : Copies keyHash l) :
    ∀ s ∈ l, Tracks keyHash s := by
  induction copies with
  | start =>
    intro s mem
    rw [mem_singleton.mp mem]
    exact ⟨[], (lists_empty keyHash).relax, by simp⟩
  | step _ made ih =>
    simp only [forall_mem_append, forall_mem_cons] at ih ⊢
    exact ⟨ih.1, made.tracks ih.2.1, ih.2.2⟩
  | clone _ mem ih => exact forall_mem_cons.mpr ⟨ih _ mem, ih⟩

/-! ## What the calls answer -/

def InExtent (offset : Nat) (record : Record) (byte : Nat) : Prop :=
  offset ≤ byte ∧ byte < offset + record.len

/-- The records are the map: their rows in increasing order and apart, and every answer that of the
map. -/
structure IsMap (r : Records) (m : OffsetMap) : Prop where
  rows : ∀ o record, (o, record) ∈ r.iter ↔ m o = some record
  ordered : r.iter.Pairwise fun a b => a.1 < b.1 ∧
    ∀ byte, ¬ (InExtent a.1 a.2 byte ∧ InExtent b.1 b.2 byte)
  count : r.live = r.iter.length
  overlaps : ∀ o len, 0 < len → o + len < 2 ^ 64 → (r.overlaps o len = true ↔
    ∃ p record byte, m p = some record ∧ InExtent p record byte ∧ o ≤ byte ∧ byte < o + len)
  overlapsEmpty : ∀ o, r.overlaps o 0 = true ↔ ∃ p record, m p = some record ∧ p < o ∧
    o < p + record.len
  crosses : ∀ stop, r.crosses stop = true ↔ ∃ p record, m p = some record ∧
    (∃ byte, InExtent p record byte ∧ byte < stop) ∧ ∃ byte, InExtent p record byte ∧ stop ≤ byte
  before : ∀ stop, r.before stop = r.iter.filter fun e => e.1 < stop
  position : ∀ o record, m o = some record → r.get (r.position o) = some (o, record)
  removes : ∀ o, (r.remove o).isSome = (m o).isSome
  compacts : ∀ o r', r.remove o = some r' → ∃ tomb : Records, tomb.slots = r.slots ∧
    tomb.compact.slots < r.slots ∧ r' = if r.compactsAfterRemove then tomb.compact else tomb

theorem Lists.apart (h : r.Lists keyHash false es) :
    Apart (fun e : Entry => e.1) (fun e => e.2.len) es := by
  obtain ⟨cells, holds, rfl⟩ := h
  rw [← filterMap_entry_filter, Apart, pairwise_filterMap]
  refine holds.apart.imp_of_mem fun {c d} mem _ order e he f hf => ?_
  obtain ⟨record, live, rfl⟩ := Option.map_eq_some_iff.mp he
  obtain ⟨-, -, rfl⟩ := Option.map_eq_some_iff.mp hf
  have len := (holds.len_of_record (mem_filter.mp mem).1 live).1
  dsimp only at order ⊢
  omega

theorem Lists.count (h : r.Lists keyHash false es) : r.live = es.length := by
  obtain ⟨cells, holds, rfl⟩ := h
  rw [holds.live, length_filterMap_eq_countP, countP_eq_length_filter]
  simp [Cell.entry]

/-- The row at the position of a live offset, and that a removal there leaves a tombstone behind or
compacts, as `compacts_after_remove` says. -/
theorem Lists.found (h : r.Lists keyHash false es) (mem : (offset, record) ∈ es) :
    (∃ found, r.get (r.position offset) = some (offset, found) ∧ (offset, found) ∈ es) ∧
      ∀ r', r.remove offset = some r' → ∃ tomb : Records, tomb.slots = r.slots ∧
        tomb.compact.slots < r.slots ∧ r' = if r.compactsAfterRemove then tomb.compact
          else tomb := by
  obtain ⟨cells, holds, rfl⟩ := h
  obtain ⟨d, cell, entry⟩ := mem_filterMap.mp mem
  obtain ⟨_, alive, same⟩ := Option.map_eq_some_iff.mp entry
  rcases holds.indexOf offset with ⟨front, c, back, found, whole, here, live, position,
    index⟩ | ⟨_, absent⟩
  · subst whole
    obtain ⟨bytes, tomb⟩ := holds.tomb live
    refine ⟨⟨found, ?_, mem_filterMap.mpr ⟨c, by simp, by rw [Cell.entry_live live, here]⟩⟩,
      fun r' gone => ?_⟩
    · rw [holds.get, position]
      simp [Cell.entry_live live, here]
    · have rows : r.rows.length = front.length + (back.length + 1) := by simp [holds.rows]
      have count := holds.live
      have few := length_filter_le (fun c : Cell => c.record.isSome) front
      have few' := length_filter_le (fun c : Cell => c.record.isSome) back
      simp only [filter_append, length_append, filter_cons, live, Option.isSome_some, if_true,
        length_cons] at count
      have same : r.rows.length - (r.live - 1) = r.rows.length - r.live + 1 := by omega
      refine ⟨⟨r.rows.modify front.length clear, r.keys.remove front.length, r.live - 1⟩,
        length_modify .., ?_, ?_⟩
      · rw [slots, tomb.compact.rows, slots, rows, length_map, filter_append]
        simp only [length_append, filter_cons, Cell.tomb, Option.isSome_none,
          Bool.false_eq_true, if_false]
        omega
      · simp only [Records.remove, index, length_modify, same] at gone
        unfold compactsAfterRemove
        split at gone <;> cases gone <;> simp_all
  · exact absurd (congrArg Prod.fst same) (absent d cell (by simp [alive]))

theorem Lists.removes (h : r.Lists keyHash false es) (o : Nat) :
    (r.remove o).isSome = true ↔ ∃ q, (o, q) ∈ es := by
  have gone := h.remove o
  unfold Entries.remove at gone
  split_ifs at gone with present
  · obtain ⟨_, removed, _⟩ := gone
    obtain ⟨⟨p, q⟩, mem, here⟩ := any_eq_true.mp present
    cases beq_iff_eq.mp here
    exact iff_of_true (by rw [removed]; rfl) ⟨q, mem⟩
  · refine iff_of_false (by simp [gone]) fun ⟨q, mem⟩ => present (any_eq_true.mpr ⟨_, mem, ?_⟩)
    exact beq_self_eq_true o

theorem Tracks.isMap (h : Tracks keyHash (r, m)) : r.IsMap m := by
  obtain ⟨es, lists, same⟩ := h
  dsimp only at lists same
  have iter := lists.iter
  have order := lists.apart
  have pos := fun e (mem : e ∈ es) => lists.len_pos mem
  refine ⟨?_, ?_, ?_, ?_, ?_, ?_, ?_, ?_, ?_, ?_⟩
  · rw [iter]
    exact same
  · rw [iter]
    refine (lists.sorted.and order).imp fun {a b} both => ⟨both.1, fun byte inside => ?_⟩
    have apart : a.1 + a.2.len ≤ b.1 := both.2
    unfold InExtent at inside
    omega
  · rw [iter, lists.count]
  · intro o len positive _
    rw [lists.overlaps_iff]
    constructor
    · rintro ⟨⟨p, q⟩, mem, below, above⟩
      have long := pos _ mem
      dsimp only at below above long
      exact ⟨p, q, max o p, (same p q).mp mem, ⟨by omega, by omega⟩, by omega, by omega⟩
    · rintro ⟨p, q, byte, held, ⟨_, _⟩, _, _⟩
      exact ⟨(p, q), (same p q).mpr held, by dsimp only; omega, by dsimp only; omega⟩
  · intro o
    rw [lists.overlaps_iff]
    constructor
    · rintro ⟨⟨p, q⟩, mem, below, above⟩
      exact ⟨p, q, (same p q).mp mem, below, above⟩
    · rintro ⟨p, q, held, below, above⟩
      exact ⟨(p, q), (same p q).mpr held, below, above⟩
  · intro stop
    rw [lists.crosses, Entries.crosses, any_eq_true]
    constructor
    · rintro ⟨⟨p, q⟩, mem, both⟩
      simp only [Bool.and_eq_true, decide_eq_true_eq] at both
      exact ⟨p, q, (same p q).mp mem, ⟨p, ⟨by omega, by omega⟩, both.1⟩, stop,
        ⟨by omega, both.2⟩, le_refl _⟩
    · rintro ⟨p, q, held, ⟨a, ⟨_, _⟩, _⟩, b, ⟨_, _⟩, _⟩
      refine ⟨(p, q), (same p q).mpr held, ?_⟩
      simp only [Bool.and_eq_true, decide_eq_true_eq]
      omega
  · intro stop
    rw [iter, lists.before, Entries.before]
  · intro o q held
    obtain ⟨⟨found, got, mem⟩, -⟩ := lists.found ((same o q).mpr held)
    rw [got, Option.some.inj (((same o found).mp mem).symm.trans held)]
  · intro o
    rw [Bool.eq_iff_iff, lists.removes, Option.isSome_iff_exists]
    exact exists_congr (same o)
  · intro o r' removed
    obtain ⟨q, mem⟩ := (lists.removes o).mp (by rw [removed]; rfl)
    exact (lists.found mem).2 r' removed

/-- Every copy that any sequence of checked calls and clones makes is the map its calls describe. -/
theorem ordered_map_of_copies {l : List (Records × OffsetMap)} (copies : Copies keyHash l)
    (mem : (r, m) ∈ l) : r.IsMap m :=
  (copies.tracks _ mem).isMap

def sampleRecord : Record := ⟨⟨⟨⟨.s3, ['b'], ['o']⟩, 0, 4096, ['v']⟩, .whole⟩, 10, 9⟩

def oneRecord : Records × OffsetMap :=
  ((insert (fun _ => 0) {} 0 sampleRecord).1, Function.update (fun _ => none) 0 (some sampleRecord))

def twoRecords : Records × OffsetMap :=
  ((insert (fun _ => 0) oneRecord.1 16 sampleRecord).1, Function.update oneRecord.2 16
    (some sampleRecord))

theorem copies_one : Copies (fun _ => 0) [oneRecord] := by
  have done : (insert (fun _ => 0) {} 0 sampleRecord).2 = .ok 0 := by decide
  exact @Copies.step _ [] [] _ _ .start (.insert ⟨by decide, by decide⟩ (by decide) rfl done)

/-- Of the two records the clone keeps one. -/
theorem copies_removed :
    ∃ r, Copies (fun _ => 0) [twoRecords, (r, Function.update twoRecords.2 0 none)] := by
  have done : (insert (fun _ => 0) oneRecord.1 16 sampleRecord).2 = .ok 1 := by decide
  have two : Copies (fun _ => 0) [twoRecords] :=
    @Copies.step _ [] [] _ _ copies_one
    (.insert ⟨by decide, by decide⟩ (by decide) (by decide) done)
  obtain ⟨r, removed⟩ := Option.isSome_iff_exists.mp
    (show (twoRecords.1.remove 0).isSome = true by decide)
  exact ⟨r, @Copies.step _ [_] [] _ _ (.clone two (mem_singleton.mpr rfl)) (.remove removed)⟩

theorem ordered_map_of_copies_removed : ∃ (r : Records) (m : OffsetMap), r.IsMap m ∧
    r.get (r.position 16) = some (16, sampleRecord) ∧
    (r.remove 0).isSome = false ∧ r.overlaps 20 0 = true ∧ r.crosses 16 = false := by
  obtain ⟨r, copies⟩ := copies_removed
  have isMap := ordered_map_of_copies copies (mem_cons_of_mem _ (mem_singleton.mpr rfl))
  refine ⟨r, _, isMap, isMap.position 16 sampleRecord (by simp [twoRecords]),
    by rw [isMap.removes]; simp,
    (isMap.overlapsEmpty 20).mpr ⟨16, sampleRecord, by simp [twoRecords], by decide, by decide⟩, ?_⟩
  rw [← Bool.not_eq_true, isMap.crosses]
  rintro ⟨p, record, held, ⟨a, ⟨low, _⟩, below⟩, -⟩
  have other : p ≠ 16 := by omega
  by_cases zero : p = 0
  · simp [zero] at held
  · simp [twoRecords, oneRecord, other, zero] at held

/-- `overlaps` answers `true` for an empty range inside an extent, which meets no byte. -/
theorem overlaps_of_empty_range : ∃ r m, Copies (fun _ => 0) [(r, m)] ∧ ¬ (r.overlaps 5 0 = true ↔
    ∃ p record byte, m p = some record ∧ InExtent p record byte ∧ 5 ≤ byte ∧ byte < 5 + 0) := by
  refine ⟨_, _, copies_one, fun same => ?_⟩
  obtain ⟨_, _, byte, _, _, _, _⟩ := same.mp (by decide)
  omega

end Talon.SmallStore.Records
