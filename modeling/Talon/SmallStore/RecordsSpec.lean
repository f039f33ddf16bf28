import Talon.Lib.Extents
import Talon.SmallStore.KeysSpec
import Talon.SmallStore.Records

/-!
# Records as an ordered map of extents

`Records.Lists r op es`: the live records of `r` are the entries `es`, which are sorted, apart and
valid.  Each operation has one lemma that says what it does to the entries; none of them depends on
where tombstones are or on whether keys are compressed.
-/

set_option autoImplicit false

namespace Talon.SmallStore

open Wire Extents List KeyCodec

structure Record.Valid (offset : Nat) (record : Record) : Prop where
  fits : record.key.Fits
  checksum : record.checksum < 2 ^ 64
  key : validateKey record.key = .ok ()
  extent : Records.validExtent offset record = true

abbrev Entry := Nat × Record

namespace Entries

def overlaps (es : List Entry) (offset len : Nat) : Bool :=
  es.any fun e => e.1 < offset + len && offset < e.1 + e.2.len

def crosses (es : List Entry) (stop : Nat) : Bool :=
  es.any fun e => e.1 < stop && stop < e.1 + e.2.len

def before (es : List Entry) (stop : Nat) : List Entry := es.filter fun e => e.1 < stop

def keyBytes (es : List Entry) : Nat := (es.map fun e => (KeyCodec.encode e.2.key).length).sum

def put (es : List Entry) (offset : Nat) (record : Record) : List Entry :=
  es.filter (fun e => e.1 < offset) ++ (offset, record) :: es.filter fun e => offset ≤ e.1

def insert (es : List Entry) (offset : Nat) (record : Record) : List Entry × Result Unit :=
  match validateKey record.key with
  | .error e => (es, .error e)
  | .ok () =>
    if !Records.validExtent offset record then (es, .error "invalid small-object record extent")
    else if keyBytes es + (KeyCodec.encode record.key).length ≤ u32Max then
      (put es offset record, .ok ())
    else (es, .error "small-object key buffer overflow")

def remove (es : List Entry) (offset : Nat) : Option (List Entry) :=
  if es.any fun e => e.1 == offset then some (es.filter fun e => e.1 != offset) else none

end Entries

/-- A row, the key bytes stored for it and the record it stands for, if it is live. -/
structure Cell where
  row : Row
  bytes : Bytes
  record : Option Record

namespace Cell

variable (keyHash : SmallKey → Nat)

def Ok (op : Bool) (c : Cell) : Prop :=
  match c.record with
  | none => c.row.len = 0 ∧ (op = true → c.bytes = [])
  | some record => c.row = Records.rowOf keyHash c.row.offset record ∧
      c.bytes = KeyCodec.encode record.key ∧ record.Valid c.row.offset

def entry (c : Cell) : Option Entry := c.record.map fun record => (c.row.offset, record)

/-- What a removal leaves of a cell; an open buffer forgets the key at once. -/
def tomb (bytes : Bytes) (c : Cell) : Cell := ⟨Records.clear c.row, bytes, none⟩

/-- `retain_before` for one row: it becomes a tombstone whose key is still stored. -/
def cut (stop : Nat) (c : Cell) : Cell :=
  if c.row.offset ≥ stop ∧ c.row.len ≠ 0 then ⟨Records.clear c.row, c.bytes, none⟩ else c

end Cell

variable {record : Record} {es : List Entry} {front back : List Cell}

variable {offset : Nat} {c : Cell} {α : Type} {keyHash : SmallKey → Nat} {op : Bool}

namespace Cell

theorem Ok.relax (h : c.Ok keyHash op) : c.Ok keyHash false := by
  unfold Ok at h ⊢
  split at h
  · exact ⟨h.1, fun absurd => by cases absurd⟩
  · exact h

theorem Ok.dead (h : c.Ok keyHash op) (none : c.record = none) : c.row.len = 0 := by
  rw [Ok, none] at h
  exact h.1

theorem entry_live (live : c.record = some record) : c.entry = some (c.row.offset, record) := by
  rw [entry, live]
  rfl

end Cell

namespace Records

section

variable (keyHash : SmallKey → Nat)

structure Holds (r : Records) (op : Bool) (cells : List Cell) : Prop where
  rows : r.rows = cells.map Cell.row
  keys : r.keys.Held op (cells.map Cell.bytes)
  live : r.live = (cells.filter fun c => c.record.isSome).length
  ok : ∀ c ∈ cells, c.Ok keyHash op
  sorted : Sorted (fun c : Cell => c.row.offset) cells
  apart : Apart (fun c : Cell => c.row.offset) (fun c => c.row.len)
    (cells.filter fun c => c.record.isSome)

def Lists (r : Records) (op : Bool) (es : List Entry) : Prop :=
  ∃ cells, r.Holds keyHash op cells ∧ cells.filterMap Cell.entry = es

theorem lists_empty : Lists keyHash {} true [] :=
  ⟨[], ⟨rfl, Keys.held_empty, rfl, forall_mem_nil _, List.Pairwise.nil,
    List.Pairwise.nil⟩, rfl⟩

end

variable {r : Records} {cells : List Cell}

theorem validExtent_bounds (h : validExtent offset record = true) :
    record.key.validExtent record.len = true ∧ 0 < record.len ∧ record.len ≤ maxLen ∧
      offset + record.len ≤ maxOffset := by
  unfold validExtent at h
  rw [Bool.and_eq_true, decide_eq_true_eq] at h
  exact ⟨h.1, Nat.pos_of_ne_zero h.2.2.1, h.2.2.2.1, h.2.2.2.2⟩

theorem rowOf_valid (h : record.Valid offset) :
    rowOf keyHash offset record =
      ⟨offset, record.len, record.checksum, keyHash record.key, keyLen record.key - 25⟩ := by
  obtain ⟨-, _, _, inside⟩ := validExtent_bounds h.extent
  obtain ⟨-, keyShort⟩ := validateKey_ok h.key
  have first : offset % 2 ^ 32 = offset := by
    unfold maxOffset at inside
    omega
  have second : record.len % 2 ^ 32 = record.len := by
    unfold maxOffset at inside
    omega
  have third : (keyLen record.key - 25) % 2 ^ 16 = keyLen record.key - 25 := by
    unfold maxKey at keyShort
    omega
  rw [rowOf, first, second, third]

theorem Holds.row_of_record (h : r.Holds keyHash op cells) (mem : c ∈ cells)
    (live : c.record = some record) :
    c.row = ⟨c.row.offset, record.len, record.checksum, keyHash record.key,
      keyLen record.key - 25⟩ ∧ c.bytes = encode record.key ∧
      record.Valid c.row.offset := by
  have ok := h.ok c mem
  rw [Cell.Ok, live] at ok
  obtain ⟨row, bytes, valid⟩ := ok
  exact ⟨row.trans (rowOf_valid valid), bytes, valid⟩

theorem Holds.len_of_record (h : r.Holds keyHash op cells) (mem : c ∈ cells)
    (live : c.record = some record) : c.row.len = record.len ∧ 0 < record.len := by
  obtain ⟨row, -, valid⟩ := h.row_of_record mem live
  exact ⟨by rw [row], (validExtent_bounds valid.extent).2.1⟩

theorem Holds.live_iff (h : r.Holds keyHash op cells) (mem : c ∈ cells) :
    c.row.live = c.record.isSome := by
  cases live : c.record with
  | none => simp [Row.live, (h.ok c mem).dead live]
  | some =>
    obtain ⟨_, _⟩ := h.len_of_record mem live
    simp only [Row.live, Option.isSome_some, bne_iff_ne]
    omega

/-! ## Reading -/

theorem Holds.get (h : r.Holds keyHash op cells) (i : Nat) :
    r.get i = cells[i]?.bind Cell.entry := by
  cases found : cells[i]? with
  | none =>
    have row : r.rows[i]? = none := by rw [h.rows, getElem?_map, found]; rfl
    simp [Records.get, metadata, row]
  | some c =>
    have mem := mem_of_getElem? found
    have row : r.rows[i]? = some c.row := by rw [h.rows, getElem?_map, found]; rfl
    have bytes : (cells.map Cell.bytes)[i]? = some c.bytes := by
      rw [getElem?_map, found]
      rfl
    cases live : c.record with
    | none => simp [Records.get, metadata, row, (h.ok c mem).dead live, Cell.entry, live]
    | some record =>
      obtain ⟨same, encoded, valid⟩ := h.row_of_record mem live
      obtain ⟨p, s, key, whole⟩ := h.keys.sound.holds.get bytes
      obtain ⟨len, _⟩ := h.len_of_record mem live
      have checksum : c.row.checksum = record.checksum := by rw [same]
      have decoded := decode_encode valid.fits (validateKey_ok valid.key).1
      have present : record.len ≠ 0 := by omega
      simp [Records.get, metadata, row, present, key, whole, encoded, decoded, Cell.entry, live,
        len, checksum]

theorem filterMap_range {β : Type} (f : α → Option β) (l : List α) :
    (range l.length).filterMap (fun i => l[i]?.bind f) = l.filterMap f := by
  induction l with
  | nil => rfl
  | cons a l ih =>
    rw [length_cons, range_succ_eq_map, filterMap_cons, filterMap_map,
      filterMap_cons]
    have rest : (range l.length).filterMap
        ((fun i => (a :: l)[i]?.bind f) ∘ Nat.succ) = l.filterMap f := ih
    rw [rest]
    rfl

theorem Holds.iter (h : r.Holds keyHash op cells) : r.iter = cells.filterMap Cell.entry := by
  have length : r.slots = cells.length := by rw [slots, h.rows, length_map]
  unfold Records.iter
  rw [length, ← filterMap_range Cell.entry cells]
  exact congrArg (filterMap · _) (funext h.get)

theorem Lists.iter (h : r.Lists keyHash op es) : r.iter = es := by
  obtain ⟨_, holds, same⟩ := h
  rw [holds.iter, same]

/-! ## Overlaps -/

theorem split_partitionPoint (p : α → Bool) (l : List α) :
    l.take (partitionPoint p l) = l.takeWhile p ∧ l.drop (partitionPoint p l) = l.dropWhile p := by
  have whole := takeWhile_append_dropWhile (p := p) (l := l)
  constructor
  · calc l.take (partitionPoint p l)
        = (l.takeWhile p ++ l.dropWhile p).take (l.takeWhile p).length := by rw [whole]; rfl
      _ = l.takeWhile p := take_left
  · calc l.drop (partitionPoint p l)
        = (l.takeWhile p ++ l.dropWhile p).drop (l.takeWhile p).length := by rw [whole]; rfl
      _ = l.dropWhile p := drop_left

def liveRows (r : Records) : List Row := r.rows.filter Row.live

section

variable (h : r.Holds keyHash op cells)
include h

theorem Holds.rows_sorted : Sorted Row.offset r.rows := by
  rw [h.rows]
  exact pairwise_map.mpr h.sorted

theorem Holds.liveRows_eq : r.liveRows = (cells.filter fun c => c.record.isSome).map Cell.row := by
  rw [liveRows, h.rows, filter_map]
  congr 1
  exact filter_congr fun c mem => h.live_iff mem

theorem Holds.mem_liveRows (mem : c ∈ cells) (live : c.record.isSome = true) :
    c.row ∈ r.liveRows := by
  rw [h.liveRows_eq]
  exact mem_map.mpr ⟨c, mem_filter.mpr ⟨mem, live⟩, rfl⟩

theorem Holds.liveRows_apart : Apart Row.offset Row.len r.liveRows := by
  rw [h.liveRows_eq]
  exact pairwise_map.mpr h.apart

theorem Holds.liveBefore (n : Nat) :
    r.liveBefore n = (r.liveRows.takeWhile fun w => w.offset < n).getLast? := by
  have sorted : Sorted Row.offset r.liveRows := h.rows_sorted.sublist filter_sublist
  rw [Records.liveBefore, position, (split_partitionPoint _ _).1, ← getLast?_filter,
    takeWhile_eq_filter h.rows_sorted, takeWhile_eq_filter sorted, liveRows, filter_comm]

theorem Holds.crosses_iff (n : Nat) :
    r.crosses n = true ↔ ∃ w ∈ r.liveRows, w.offset < n ∧ n < w.offset + w.len := by
  have sorted : Sorted Row.offset r.liveRows := h.rows_sorted.sublist filter_sublist
  rw [← reaches_iff h.liveRows_apart sorted, crosses, h.liveBefore, Option.any_eq_true]
  simp

theorem Holds.overlaps_iff (offset len : Nat) :
    r.overlaps offset len = true ↔
      ∃ w ∈ r.liveRows, w.offset < offset + len ∧ offset < w.offset + w.len := by
  have sorted : Sorted Row.offset r.liveRows := h.rows_sorted.sublist filter_sublist
  have before := reaches_iff h.liveRows_apart sorted offset
  have after := meets_iff sorted offset (offset + len)
  have next : (r.rows.drop (r.position offset)).find? Row.live =
      (r.liveRows.dropWhile fun w => w.offset < offset).head? := by
    rw [position, (split_partitionPoint _ _).2, ← head?_filter, dropWhile_eq_filter h.rows_sorted,
      dropWhile_eq_filter sorted, liveRows, filter_comm]
  rw [overlaps, Bool.or_eq_true, h.liveBefore, next, Option.any_eq_true, Option.any_eq_true]
  simp only [decide_eq_true_eq]
  constructor
  · intro found
    rcases found with last | first
    · obtain ⟨w, mem, low, reach⟩ := before.mp last
      exact ⟨w, mem, by omega, reach⟩
    · obtain ⟨w, mem, low, reach⟩ := after.mp first
      have positive : w.len ≠ 0 := by
        have live := (mem_filter.mp mem).2
        simpa [Row.live] using live
      exact ⟨w, mem, reach, by omega⟩
  · intro found
    obtain ⟨w, mem, low, reach⟩ := found
    rcases Nat.lt_or_ge w.offset offset with below | above
    · exact .inl (before.mpr ⟨w, mem, below, reach⟩)
    · exact .inr (after.mpr ⟨w, mem, above, low⟩)

theorem Holds.exists_row_iff (P : Nat → Nat → Prop) :
    (∃ w ∈ r.liveRows, P w.offset w.len) ↔
      ∃ e ∈ cells.filterMap Cell.entry, P e.1 e.2.len := by
  constructor
  · intro found
    obtain ⟨w, mem, holds⟩ := found
    rw [h.liveRows_eq] at mem
    obtain ⟨c, inside, rfl⟩ := mem_map.mp mem
    obtain ⟨cell, some⟩ := mem_filter.mp inside
    obtain ⟨record, live⟩ := Option.isSome_iff_exists.mp some
    refine ⟨(c.row.offset, record), mem_filterMap.mpr ⟨c, cell, Cell.entry_live live⟩, ?_⟩
    rw [← (h.len_of_record cell live).1]
    exact holds
  · intro found
    obtain ⟨e, mem, holds⟩ := found
    obtain ⟨c, cell, entry⟩ := mem_filterMap.mp mem
    obtain ⟨_, live, rfl⟩ := Option.map_eq_some_iff.mp entry
    refine ⟨c.row, h.mem_liveRows cell (by rw [live]; rfl), ?_⟩
    rw [(h.len_of_record cell live).1]
    exact holds

end

section Lists

variable {es : List Entry}

section

variable (h : r.Lists keyHash op es)
include h

theorem Lists.overlaps_iff (offset len : Nat) :
    r.overlaps offset len = true ↔
      ∃ e ∈ es, e.1 < offset + len ∧ offset < e.1 + e.2.len := by
  obtain ⟨_, holds, rfl⟩ := h
  rw [holds.overlaps_iff]
  exact holds.exists_row_iff fun o n => o < offset + len ∧ offset < o + n

theorem Lists.overlaps (offset len : Nat) :
    r.overlaps offset len = Entries.overlaps es offset len := by
  rw [Bool.eq_iff_iff, h.overlaps_iff, Entries.overlaps, any_eq_true]
  simp

theorem Lists.crosses (n : Nat) : r.crosses n = Entries.crosses es n := by
  obtain ⟨_, holds, rfl⟩ := h
  rw [Bool.eq_iff_iff, holds.crosses_iff, holds.exists_row_iff fun o len => o < n ∧ n < o + len,
    Entries.crosses, any_eq_true]
  simp

theorem Lists.sorted : Sorted (fun e : Entry => e.1) es := by
  obtain ⟨_, holds, rfl⟩ := h
  refine List.Pairwise.filterMap _ (fun c d order e he f hf => ?_) holds.sorted
  obtain ⟨-, -, rfl⟩ := Option.map_eq_some_iff.mp he
  obtain ⟨-, -, rfl⟩ := Option.map_eq_some_iff.mp hf
  exact order

theorem Lists.before (stop : Nat) : r.before stop = Entries.before es stop := by
  rw [Records.before, h.iter, takeWhile_eq_filter h.sorted]
  rfl

end

end Lists

/-! ## Compaction -/

theorem keptKeys_cells (p : Cell → Bool) (cells : List Cell) (keep : Nat → Bool)
    (same : ∀ (i : Nat) (c : Cell), cells[i]? = some c → keep i = p c) :
    Keys.keptKeys keep (cells.map Cell.bytes) = (cells.filter p).map Cell.bytes := by
  induction cells generalizing keep with
  | nil => rfl
  | cons c _ ih =>
    have tail := ih (fun row => keep (row + 1)) fun i d found => same (i + 1) d found
    rw [map_cons, Keys.keptKeys_cons, tail, same 0 c rfl]
    by_cases chosen : p c = true
    · rw [if_pos chosen, filter_cons_of_pos chosen, map_cons]
    · rw [if_neg chosen, filter_cons_of_neg chosen]

/-- Compaction needs less than `Holds`: keys of dead rows may still be there. -/
theorem holds_compact (rows : r.rows = cells.map Cell.row)
    (keys : r.keys.Held op (cells.map Cell.bytes))
    (live : r.live = (cells.filter fun c => c.record.isSome).length)
    (ok : ∀ c ∈ cells, c.Ok keyHash false ∧ c.row.live = c.record.isSome)
    (sorted : Sorted (fun c : Cell => c.row.offset) cells)
    (apart : Apart (fun c : Cell => c.row.offset) (fun c => c.row.len)
      (cells.filter fun c => c.record.isSome)) :
    r.compact.Holds keyHash op (cells.filter fun c => c.record.isSome) where
  rows := by
    change r.rows.filter Row.live = _
    rw [rows, filter_map]
    congr 1
    exact filter_congr fun c mem => (ok c mem).2
  keys := by
    have kept := keys.retain fun row => (r.rows[row]?).any Row.live
    rw [keptKeys_cells (fun c => c.record.isSome)] at kept
    · exact kept
    · intro i c found
      rw [rows, getElem?_map, found]
      exact (ok c (mem_of_getElem? found)).2
  live := by
    rw [filter_filter]
    simp only [Bool.and_self]
    exact live
  ok := by
    intro c mem
    obtain ⟨cell, some⟩ := mem_filter.mp mem
    obtain ⟨_, alive⟩ := Option.isSome_iff_exists.mp some
    have ok := (ok c cell).1
    rw [Cell.Ok, alive] at ok ⊢
    exact ok
  sorted := sorted.sublist filter_sublist
  apart := by
    rw [filter_filter]
    simp only [Bool.and_self]
    exact apart

theorem filterMap_entry_filter (cells : List Cell) :
    (cells.filter fun c => c.record.isSome).filterMap Cell.entry = cells.filterMap Cell.entry := by
  rw [filterMap_filter]
  apply filterMap_congr
  intro c _
  cases record : c.record with
  | none => simp [Cell.entry, record]
  | some => simp

theorem Holds.compact (h : r.Holds keyHash op cells) :
    r.compact.Holds keyHash op (cells.filter fun c => c.record.isSome) :=
  holds_compact h.rows h.keys h.live
    (fun c mem => ⟨(h.ok c mem).relax, h.live_iff mem⟩) h.sorted h.apart

theorem Lists.sealUp (h : r.Lists keyHash op es) (sorter : Keys.Sorter) :
    (r.sealUp sorter).Lists keyHash false es := by
  obtain ⟨cells, holds, same⟩ := h
  exact ⟨cells, ⟨holds.rows, holds.keys.sealUp sorter, holds.live, fun c mem =>
    (holds.ok c mem).relax, holds.sorted, holds.apart⟩, same⟩

section RetainBefore

theorem cut_row (stop : Nat) (c : Cell) : (c.cut stop).row =
    if c.row.offset ≥ stop ∧ c.row.len ≠ 0 then clear c.row else c.row := by
  unfold Cell.cut
  split <;> rfl

theorem cut_bytes (stop : Nat) (c : Cell) : (c.cut stop).bytes = c.bytes := by
  unfold Cell.cut
  split <;> rfl

theorem cut_offset (stop : Nat) (c : Cell) : (c.cut stop).row.offset = c.row.offset := by
  rw [cut_row]
  split <;> rfl

theorem Holds.cut_isSome (h : r.Holds keyHash op cells) (stop : Nat) (mem : c ∈ cells) :
    (c.cut stop).record.isSome = (c.record.isSome && decide (c.row.offset < stop)) := by
  have alive := h.live_iff mem
  unfold Row.live at alive
  unfold Cell.cut
  by_cases low : c.row.offset < stop
  · rw [if_neg (by omega)]
    simp [low]
  · by_cases dead : c.row.len = 0
    · rw [if_neg (by omega), ← alive]
      simp [dead]
    · rw [if_pos ⟨by omega, dead⟩]
      simp [low]

theorem Holds.filter_cut (h : r.Holds keyHash op cells) (stop : Nat) :
    (cells.map (Cell.cut stop)).filter (fun c => c.record.isSome) =
      (cells.filter fun c => c.record.isSome).filter fun c => c.row.offset < stop := by
  have chosen : cells.filter ((fun c => c.record.isSome) ∘ Cell.cut stop) =
      cells.filter fun c => decide (c.row.offset < stop) && c.record.isSome :=
    filter_congr fun c mem => (h.cut_isSome stop mem).trans (Bool.and_comm _ _)
  rw [filter_map, chosen, filter_filter]
  conv => rhs; rw [← map_id (cells.filter _)]
  apply map_congr_left
  intro c mem
  have low := (mem_filter.mp mem).2
  rw [Bool.and_eq_true, decide_eq_true_eq] at low
  unfold Cell.cut
  rw [if_neg (by omega)]
  rfl

theorem Holds.cut_live (h : r.Holds keyHash op cells) (stop : Nat) :
    r.live - (r.rows.filter fun w => w.offset ≥ stop ∧ w.len ≠ 0).length =
      ((cells.map (Cell.cut stop)).filter fun c => c.record.isSome).length := by
  have cleared : (r.rows.filter fun w => w.offset ≥ stop ∧ w.len ≠ 0).length =
      ((cells.filter fun c => c.record.isSome).filter
        fun c => !decide (c.row.offset < stop)).length := by
    rw [h.rows, filter_map, length_map, filter_filter]
    congr 1
    apply filter_congr
    intro c mem
    have alive := h.live_iff mem
    unfold Row.live at alive
    rw [← alive, Bool.eq_iff_iff]
    simp only [Function.comp_apply, decide_eq_true_eq, Bool.and_eq_true, Bool.not_eq_true',
      decide_eq_false_iff_not, bne_iff_ne, ne_eq]
    omega
  have total := length_eq_length_filter_add
    (l := cells.filter fun c => c.record.isSome) fun c => decide (c.row.offset < stop)
  rw [h.filter_cut, h.live, cleared]
  omega

theorem entries_filter (cells : List Cell) (p : Nat → Bool) :
    (cells.filter fun c => p c.row.offset).filterMap Cell.entry =
      (cells.filterMap Cell.entry).filter fun e => p e.1 := by
  rw [filterMap_filter, filter_filterMap]
  apply filterMap_congr
  intro c _
  cases record : c.record with
  | none => simp [Cell.entry, record]
  | some =>
    by_cases chosen : p c.row.offset = true <;> simp [Cell.entry, record, chosen, Option.filter]

theorem Lists.retainBefore (h : r.Lists keyHash op es) (stop : Nat) :
    (r.retainBefore stop).Lists keyHash op (Entries.before es stop) := by
  obtain ⟨cells, holds, rfl⟩ := h
  have compacted : (r.retainBefore stop).Holds keyHash op
      ((cells.map (Cell.cut stop)).filter fun c => c.record.isSome) := by
    refine holds_compact ?rows ?keys (holds.cut_live stop) ?ok ?sorted ?apart
    case rows =>
      rw [holds.rows, map_map, map_map]
      exact map_congr_left fun c _ => (cut_row stop c).symm
    case keys =>
      rw [map_map]
      have same : cells.map (Cell.bytes ∘ Cell.cut stop) = cells.map Cell.bytes :=
        map_congr_left fun c _ => cut_bytes stop c
      rw [same]
      exact holds.keys
    case ok =>
      intro c mem
      obtain ⟨d, cell, rfl⟩ := mem_map.mp mem
      unfold Cell.cut
      split
      · exact ⟨⟨rfl, fun absurd => by cases absurd⟩, rfl⟩
      · exact ⟨(holds.ok d cell).relax, holds.live_iff cell⟩
    case sorted =>
      refine pairwise_map.mpr (holds.sorted.imp fun {a b} order => ?_)
      change (a.cut stop).row.offset < (b.cut stop).row.offset
      rw [cut_offset, cut_offset]
      exact order
    case apart =>
      rw [holds.filter_cut]
      exact holds.apart.sublist filter_sublist
  refine ⟨_, compacted, ?_⟩
  rw [holds.filter_cut, entries_filter _ fun o => decide (o < stop), filterMap_entry_filter]
  rfl

end RetainBefore

/-! ## Removal -/

section Remove

theorem partitionPoint_rows {p : Row → Bool} (low : ∀ c ∈ front, p c.row = true)
    (high : ∀ c ∈ back, p c.row = false) :
    partitionPoint p ((front ++ back).map Cell.row) = front.length := by
  rw [partitionPoint, takeWhile_map, length_map,
    takeWhile_append_of_pos (p := p ∘ Cell.row) low]
  cases back with
  | nil => simp
  | cons c =>
    rw [takeWhile_cons_of_neg (by simp [high c mem_cons_self]), append_nil]

theorem Holds.split (h : r.Holds keyHash op cells) (offset : Nat) :
    ∃ front gone back, cells = front ++ gone ++ back ∧ r.position offset = front.length ∧
      (∀ c ∈ front, c.row.offset < offset) ∧ (∀ c ∈ back, offset < c.row.offset) ∧
      ((∃ c, gone = [c] ∧ c.row.offset = offset) ∨ gone = []) := by
  obtain ⟨front, back, whole, low, high, -⟩ := split_at h.sorted offset
  have position : r.position offset = front.length := by
    rw [position, h.rows, whole]
    exact partitionPoint_rows (fun c mem => decide_eq_true (low c mem))
      fun c mem => decide_eq_false (Nat.not_lt.mpr (high c mem))
  cases back with
  | nil => exact ⟨front, [], [], by simp [whole], position, low, forall_mem_nil _, .inr rfl⟩
  | cons c back =>
    have sorted := h.sorted
    rw [whole, Sorted, pairwise_append, pairwise_cons] at sorted
    have above := high c mem_cons_self
    rcases Nat.eq_or_lt_of_le above with here | after
    · exact ⟨front, [c], back, by simp [whole], position, low,
        fun d mem => here ▸ sorted.2.1.1 d mem, .inl ⟨c, rfl, here.symm⟩⟩
    · exact ⟨front, [], c :: back, by simp [whole], position, low,
        forall_mem_cons.mpr ⟨after, fun d mem => after.trans (sorted.2.1.1 d mem)⟩, .inr rfl⟩

theorem Holds.indexOf (h : r.Holds keyHash op cells) (offset : Nat) :
    (∃ front c back record, cells = front ++ c :: back ∧ c.row.offset = offset ∧
      c.record = some record ∧ r.position offset = front.length ∧
      r.indexOf offset = some front.length) ∨
    (r.indexOf offset = none ∧ ∀ c ∈ cells, c.record.isSome = true → c.row.offset ≠ offset) := by
  obtain ⟨front, gone, back, whole, position, low, high, shape⟩ := h.split offset
  have rest : r.rows.drop (r.position offset) = gone.map Cell.row ++ back.map Cell.row := by
    rw [position, h.rows, whole, append_assoc, map_append, map_append]
    exact drop_left' (length_map ..)
  have later : (back.map Cell.row).takeWhile (fun w => w.offset == offset) = [] := by
    cases back with
    | nil => rfl
    | cons d => simp [(high d mem_cons_self).ne']
  have aside : ∀ d ∈ front ++ back, d.row.offset ≠ offset := fun d mem =>
    (mem_append.mp mem).elim (fun before => (low d before).ne) fun after => (high d after).ne'
  unfold Records.indexOf
  rw [rest, position]
  rcases shape with ⟨c, rfl, here⟩ | rfl
  · have cell : c ∈ cells := by simp [whole]
    have only : ([c].map Cell.row ++ back.map Cell.row).takeWhile (fun w => w.offset == offset) =
        [c.row] := by simp [here, later]
    rw [only]
    cases live : c.record with
    | none =>
      have dead : c.row.live = false := by rw [h.live_iff cell, live]; rfl
      refine .inr ⟨by simp [dead], fun d mem some => ?_⟩
      have other : d ∈ front ++ back := by
        simp only [whole, mem_append, mem_singleton] at mem ⊢
        rcases mem with (before | rfl) | after
        · exact .inl before
        · rw [live] at some
          cases some
        · exact .inr after
      exact aside d other
    | some record =>
      have alive : c.row.live = true := by rw [h.live_iff cell, live]; rfl
      exact .inl ⟨front, c, back, record, by simp [whole], here, live, rfl, by simp [alive]⟩
  · refine .inr ⟨?_, fun d mem _ => aside d (by simpa [whole] using mem)⟩
    rw [map_nil, nil_append, later]
    rfl

section Middle

variable {β : Type} (f : α → β) (front : List α) (x y : α) (back : List α)

theorem modify_middle (g : β → β) : ((front ++ x :: back).map f).modify front.length g =
    front.map f ++ g (f x) :: back.map f := by
  induction front with
  | nil => rfl
  | cons a _ ih => exact congrArg (f a :: ·) ih

theorem insertIdx_middle : ((front ++ back).map f).insertIdx front.length (f y) =
    (front ++ y :: back).map f := by
  simpa using Extents.insertIdx_length (front.map f) (back.map f) (f y)

theorem set_middle : ((front ++ x :: back).map f).set front.length (f y) =
    (front ++ y :: back).map f := by simp

end Middle

theorem held_remove {k : Keys} (h : k.Held op ((front ++ c :: back).map Cell.bytes)) :
    ∃ bytes, (op = true → bytes = []) ∧
      (k.remove front.length).Held op ((front ++ c.tomb bytes :: back).map Cell.bytes) := by
  have inside : front.length < ((front ++ c :: back).map Cell.bytes).length := by simp
  obtain ⟨bytes, empty, removed⟩ := h.remove inside
  refine ⟨bytes, empty, ?_⟩
  rw [← set_middle Cell.bytes front c]
  exact removed

theorem Holds.tomb (h : r.Holds keyHash op (front ++ c :: back)) (live : c.record = some record) :
    ∃ bytes, Holds keyHash
      { rows := r.rows.modify front.length clear
        keys := r.keys.remove front.length
        live := r.live - 1 } op (front ++ c.tomb bytes :: back) := by
  obtain ⟨bytes, empty, removed⟩ := held_remove h.keys
  have some : c.record.isSome = true := by rw [live]; rfl
  have alive : (front ++ c.tomb bytes :: back).filter (fun c => c.record.isSome) =
      front.filter (fun c => c.record.isSome) ++ back.filter fun c => c.record.isSome := by
    rw [filter_append, filter_cons_of_neg (by simp [Cell.tomb])]
  have before : (front ++ c :: back).filter (fun c => c.record.isSome) =
      front.filter (fun c => c.record.isSome) ++ c :: back.filter fun c => c.record.isSome := by
    rw [filter_append, filter_cons_of_pos (p := fun c : Cell => c.record.isSome) some]
  refine ⟨bytes, ?_, removed, ?_, ?_, ?_, ?_⟩
  · rw [h.rows, modify_middle, map_append]
    rfl
  · change r.live - 1 = _
    rw [h.live, alive, before, length_append, length_append, length_cons]
    omega
  · have ok := h.ok
    simp only [forall_mem_append, forall_mem_cons] at ok ⊢
    exact ⟨ok.1, ⟨rfl, empty⟩, ok.2.2⟩
  · have sorted := h.sorted
    simp only [Sorted, pairwise_append, pairwise_cons, forall_mem_cons] at sorted ⊢
    exact sorted
  · have apart := h.apart
    rw [before] at apart
    rw [alive]
    exact apart.sublist ((List.Sublist.refl _).append (sublist_cons_self _ _))

theorem entries_middle (live : c.record = some record) :
    (front ++ c :: back).filterMap Cell.entry =
      front.filterMap Cell.entry ++ (c.row.offset, record) :: back.filterMap Cell.entry := by
  rw [filterMap_append, filterMap_cons_some (Cell.entry_live live)]

theorem filter_ne_middle {front back : List Entry}
    (sorted : Sorted (fun e : Entry => e.1) (front ++ (offset, record) :: back)) :
    (front ++ (offset, record) :: back).filter (fun e => e.1 != offset) = front ++ back := by
  rw [Sorted, pairwise_append, pairwise_cons] at sorted
  have low : front.filter (fun e => e.1 != offset) = front := by
    rw [filter_eq_self]
    intro e mem
    have below : e.1 < offset := sorted.2.2 e mem _ mem_cons_self
    rw [bne_iff_ne]
    omega
  have high : back.filter (fun e => e.1 != offset) = back := by
    rw [filter_eq_self]
    intro e mem
    have above : offset < e.1 := sorted.2.1.1 e mem
    rw [bne_iff_ne]
    omega
  rw [filter_append, low, filter_cons_of_neg (by simp), high]

theorem Lists.remove (h : r.Lists keyHash op es) (offset : Nat) :
    match Entries.remove es offset with
    | none => r.remove offset = none
    | some es' => ∃ r', r.remove offset = some r' ∧ r'.Lists keyHash op es' := by
  have sorted := h.sorted
  obtain ⟨cells, holds, rfl⟩ := h
  unfold Entries.remove Records.remove
  rcases holds.indexOf offset with
    ⟨front, c, back, record, whole, here, live, -, index⟩ | ⟨index, absent⟩
  · subst whole
    obtain ⟨bytes, tomb⟩ := holds.tomb live
    rw [entries_middle live, here] at sorted ⊢
    have present : (front.filterMap Cell.entry ++ (offset, record) ::
        back.filterMap Cell.entry).any (fun e => e.1 == offset) = true := by simp
    rw [if_pos present, index]
    have rest : (front.filterMap Cell.entry ++ (offset, record) ::
        back.filterMap Cell.entry).filter (fun e => e.1 != offset) =
        (front ++ c.tomb bytes :: back).filterMap Cell.entry := by
      have others := filter_ne_middle sorted
      rw [others, filterMap_append, filterMap_cons_none rfl]
    rw [rest]
    dsimp only
    split
    · exact ⟨_, rfl, _, tomb.compact, filterMap_entry_filter _⟩
    · exact ⟨_, rfl, _, tomb, rfl⟩
  · have none : (cells.filterMap Cell.entry).any (fun e => e.1 == offset) = false := by
      rw [any_eq_false]
      intro e mem
      obtain ⟨c, cell, entry⟩ := mem_filterMap.mp mem
      obtain ⟨_, live, rfl⟩ := Option.map_eq_some_iff.mp entry
      have differ := absent c cell (by rw [live]; rfl)
      simpa using differ
    rw [if_neg (by rw [none]; exact Bool.false_ne_true), index]

end Remove

/-! ## Insertion -/

section Insert

variable {offset : Nat} {record : Record}

def newCell (keyHash : SmallKey → Nat) (offset : Nat) (record : Record) : Cell :=
  ⟨rowOf keyHash offset record, KeyCodec.encode record.key, some record⟩

theorem newCell_row (keyHash : SmallKey → Nat) (valid : record.Valid offset) :
    (newCell keyHash offset record).row.offset = offset ∧
      (newCell keyHash offset record).row.len = record.len := by
  rw [newCell, rowOf_valid valid]
  exact ⟨rfl, rfl⟩

theorem Holds.total (h : r.Holds keyHash true cells) :
    Keys.total (cells.map Cell.bytes) = Entries.keyBytes (cells.filterMap Cell.entry) := by
  have ok := h.ok
  clear h
  unfold Keys.total Entries.keyBytes
  induction cells with
  | nil => rfl
  | cons c _ ih =>
    have tail := ih fun d mem => ok d (mem_cons_of_mem _ mem)
    have here := ok c mem_cons_self
    unfold Cell.Ok at here
    rw [map_cons, map_cons, sum_cons, tail]
    cases live : c.record with
    | none =>
      rw [live] at here
      rw [here.2 rfl, filterMap_cons_none (by rw [Cell.entry, live]; rfl)]
      exact Nat.zero_add _
    | some =>
      rw [live] at here
      rw [here.2.1, filterMap_cons_some (Cell.entry_live live), map_cons, sum_cons]

variable {gone : List Cell}

theorem Holds.put (h : r.Holds keyHash op (front ++ gone ++ back))
    (dead : gone.filter (fun c => c.record.isSome) = []) (valid : record.Valid offset)
    (low : ∀ c ∈ front, c.row.offset < offset) (high : ∀ c ∈ back, offset < c.row.offset)
    (free : r.overlaps offset record.len = false) {keys : Keys}
    (held : keys.Held op ((front ++ newCell keyHash offset record :: back).map Cell.bytes)) :
    Holds keyHash
      { rows := (front ++ newCell keyHash offset record :: back).map Cell.row
        keys, live := r.live + 1 } op (front ++ newCell keyHash offset record :: back) := by
  obtain ⟨newOffset, newLen⟩ := newCell_row keyHash valid
  have before : (front ++ gone ++ back).filter (fun c => c.record.isSome) =
      front.filter (fun c => c.record.isSome) ++ back.filter fun c => c.record.isSome := by
    rw [filter_append, filter_append, dead, append_nil]
  have after : (front ++ newCell keyHash offset record :: back).filter
      (fun c => c.record.isSome) = front.filter (fun c => c.record.isSome) ++
        newCell keyHash offset record :: back.filter fun c => c.record.isSome := by
    rw [filter_append, filter_cons_of_pos rfl]
  have clear : ∀ c ∈ front ++ gone ++ back, c.record.isSome = true →
      ¬ (c.row.offset < offset + record.len ∧ offset < c.row.offset + c.row.len) := by
    intro c mem some meets
    rw [Bool.eq_false_iff] at free
    exact free ((h.overlaps_iff offset record.len).mpr ⟨c.row, h.mem_liveRows mem some, meets⟩)
  refine ⟨rfl, held, ?_, ?_, ?_, ?_⟩
  · change r.live + 1 = _
    rw [h.live, before, after, length_append, length_append, length_cons]
    omega
  · have ok := h.ok
    simp only [forall_mem_append, forall_mem_cons] at ok ⊢
    refine ⟨ok.1.1, ⟨?_, rfl, ?_⟩, ok.2⟩
    · rw [newOffset]
      rfl
    · rw [newOffset]
      exact valid
  · have sorted := h.sorted
    simp only [Sorted, pairwise_append, pairwise_cons, forall_mem_cons,
      forall_mem_append, newOffset] at sorted ⊢
    exact ⟨sorted.1.1, ⟨high, sorted.2.1⟩, fun a mem => ⟨low a mem, sorted.2.2.1 a mem⟩⟩
  · have apart := h.apart
    rw [before, Apart, pairwise_append] at apart
    simp only [after, Apart, pairwise_append, pairwise_cons, forall_mem_cons, newOffset,
      newLen]
    refine ⟨apart.1, ⟨fun c mem => ?_, apart.2.1⟩, fun a mem => ⟨?_, apart.2.2 a mem⟩⟩
    · obtain ⟨cell, some⟩ := mem_filter.mp mem
      have apartFrom := clear c (by simp [cell]) some
      have above := high c cell
      omega
    · obtain ⟨cell, some⟩ := mem_filter.mp mem
      have apartFrom := clear a (by simp [cell]) some
      have below := low a cell
      omega

variable (h : r.Holds keyHash op cells)

include h in
theorem Holds.around (valid : record.Valid offset) (free : r.overlaps offset record.len = false) :
    ∃ front gone back, cells = front ++ gone ++ back ∧ r.position offset = front.length ∧
      (∀ c ∈ front, c.row.offset < offset) ∧ (∀ c ∈ back, offset < c.row.offset) ∧
      gone.filter (fun c => c.record.isSome) = [] ∧
      ((∃ c, gone = [c] ∧ c.row.offset = offset ∧ c.row.len = 0) ∨ gone = []) := by
  obtain ⟨front, gone, back, whole, position, low, high, shape⟩ := h.split offset
  refine ⟨front, gone, back, whole, position, low, high, ?_⟩
  rcases shape with ⟨c, rfl, here⟩ | rfl
  · have cell : c ∈ cells := by simp [whole]
    have dead : c.record = none := by
      by_contra alive
      obtain ⟨_, live⟩ := Option.ne_none_iff_exists'.mp alive
      obtain ⟨len, _⟩ := h.len_of_record cell live
      have positive := (validExtent_bounds valid.extent).2.1
      have meets := (h.overlaps_iff offset record.len).mpr
          ⟨c.row, h.mem_liveRows cell (by rw [live]; rfl), by omega, by omega⟩
      rw [free] at meets
      cases meets
    exact ⟨by simp [dead], .inl ⟨c, rfl, here, (h.ok c cell).dead dead⟩⟩
  · exact ⟨rfl, .inr rfl⟩

theorem put_entries (dead : gone.filter (fun c => c.record.isSome) = [])
    (low : ∀ c ∈ front, c.row.offset < offset) (high : ∀ c ∈ back, offset < c.row.offset)
    (newOffset : (newCell keyHash offset record).row.offset = offset) :
    (front ++ newCell keyHash offset record :: back).filterMap Cell.entry =
      Entries.put ((front ++ gone ++ back).filterMap Cell.entry) offset record := by
  have nothing : gone.filterMap Cell.entry = [] := by
    rw [← filterMap_entry_filter, dead]
    rfl
  have entryOf : ∀ (l : List Cell) (e : Entry), e ∈ l.filterMap Cell.entry →
      ∃ c ∈ l, c.row.offset = e.1 := by
    intro l e mem
    obtain ⟨c, cell, entry⟩ := mem_filterMap.mp mem
    obtain ⟨-, -, rfl⟩ := Option.map_eq_some_iff.mp entry
    exact ⟨c, cell, rfl⟩
  have below : ∀ e ∈ front.filterMap Cell.entry, e.1 < offset := by
    intro e mem
    obtain ⟨c, cell, same⟩ := entryOf front e mem
    exact same ▸ low c cell
  have above : ∀ e ∈ back.filterMap Cell.entry, offset < e.1 := by
    intro e mem
    obtain ⟨c, cell, same⟩ := entryOf back e mem
    exact same ▸ high c cell
  have first : ((front ++ gone ++ back).filterMap Cell.entry).filter (fun e => e.1 < offset) =
      front.filterMap Cell.entry := by
    rw [filterMap_append, filterMap_append, nothing, append_nil, filter_append,
      filter_eq_self.mpr, filter_eq_nil_iff.mpr, append_nil]
    · intro e mem
      simpa using (above e mem).le
    · intro e mem
      simpa using below e mem
  have second : ((front ++ gone ++ back).filterMap Cell.entry).filter (fun e => offset ≤ e.1) =
      back.filterMap Cell.entry := by
    rw [filterMap_append, filterMap_append, nothing, append_nil, filter_append,
      filter_eq_nil_iff.mpr, filter_eq_self.mpr, nil_append]
    · intro e mem
      simpa using (above e mem).le
    · intro e mem
      simpa using below e mem
  rw [Entries.put, first, second, entries_middle rfl, newOffset]

/-- The end of `insert`, once it is known which row the record takes. -/
def placeAt (keyHash : SmallKey → Nat) (r : Records) (offset : Nat) (record : Record) (index : Nat)
    (replace : Bool) : Records × Result Nat :=
  match r.keys.insert index (KeyCodec.encode record.key) replace with
  | (keys, .error e) => ({ r with keys }, .error e)
  | (keys, .ok ()) =>
    ({ rows := if replace then r.rows.set index (rowOf keyHash offset record)
         else r.rows.insertIdx index (rowOf keyHash offset record), keys
       live := r.live + 1 }, .ok index)

theorem insert_valid (r : Records) (valid : record.Valid offset) :
    r.insert keyHash offset record =
      if (r.rows[r.position offset]?).any fun w => w.offset == offset && w.len == 0 then
        placeAt keyHash r offset record (r.position offset) true
      else placeAt keyHash r offset record
        (partitionPoint (fun w : Row => w.offset ≤ offset) r.rows) false := by
  rw [Records.insert, valid.key]
  rw [valid.extent]
  rfl

include h

theorem Holds.insert_place (valid : record.Valid offset)
    (free : r.overlaps offset record.len = false) :
    ∃ front gone back replace, cells = front ++ gone ++ back ∧
      (∀ c ∈ front, c.row.offset < offset) ∧ (∀ c ∈ back, offset < c.row.offset) ∧
      gone.filter (fun c => c.record.isSome) = [] ∧
      ((replace = true ∧ ∃ c, gone = [c]) ∨ (replace = false ∧ gone = [])) ∧
      r.insert keyHash offset record = placeAt keyHash r offset record front.length replace := by
  obtain ⟨front, _, back, whole, position, low, high, dead, shape⟩ := h.around valid free
  rw [insert_valid r valid, position]
  rcases shape with ⟨c, rfl, here, none⟩ | rfl
  · refine ⟨front, [c], back, true, whole, low, high, dead, .inl ⟨rfl, c, rfl⟩, if_pos ?_⟩
    simp [h.rows, whole, here, none]
  · refine ⟨front, [], back, false, whole, low, high, dead, .inr ⟨rfl, rfl⟩, ?_⟩
    have rows : r.rows = (front ++ back).map Cell.row := by rw [h.rows, whole, append_nil]
    have index : partitionPoint (fun w : Row => w.offset ≤ offset) r.rows = front.length := by
      rw [rows]
      exact partitionPoint_rows (fun c mem => decide_eq_true (low c mem).le)
        fun c mem => decide_eq_false (Nat.not_le.mpr (high c mem))
    have free' :
        (r.rows[front.length]?).any (fun w => w.offset == offset && w.len == 0) = false := by
      rw [rows]
      cases back with
      | nil => simp
      | cons c =>
        have above := high c mem_cons_self
        have differ : c.row.offset ≠ offset := by omega
        simp [differ]
    rw [if_neg (by rw [free']; exact Bool.false_ne_true), index]

theorem Holds.insert (valid : record.Valid offset) (free : r.overlaps offset record.len = false) :
    ((∃ i, (r.insert keyHash offset record).2 = .ok i) ∧
      (r.insert keyHash offset record).1.Lists keyHash op
        (Entries.put (cells.filterMap Cell.entry) offset record) ∨
    (r.insert keyHash offset record).2 = .error "small-object key buffer overflow" ∧
      (r.insert keyHash offset record).1.Holds keyHash op cells) ∧
    (op = true → ((∃ i, (r.insert keyHash offset record).2 = .ok i) ↔
      Entries.keyBytes (cells.filterMap Cell.entry) + (encode record.key).length ≤ u32Max)) := by
  obtain ⟨front, gone, back, replace, whole, low, high, dead, shape, same⟩ :=
    h.insert_place valid free
  obtain ⟨newOffset, -⟩ := newCell_row keyHash valid
  obtain ⟨inside, bytes, rows⟩ : (if replace then front.length < (cells.map Cell.bytes).length
      else front.length ≤ (cells.map Cell.bytes).length) ∧
      (if replace then (cells.map Cell.bytes).set front.length (encode record.key)
        else (cells.map Cell.bytes).insertIdx front.length (encode record.key)) =
        (front ++ newCell keyHash offset record :: back).map Cell.bytes ∧
      (if replace then r.rows.set front.length (rowOf keyHash offset record)
        else r.rows.insertIdx front.length (rowOf keyHash offset record)) =
        (front ++ newCell keyHash offset record :: back).map Cell.row := by
    rw [h.rows, whole]
    rcases shape with ⟨rfl, c, rfl⟩ | ⟨rfl, rfl⟩
    · rw [append_assoc]
      exact ⟨show _ < _ by simp, set_middle Cell.bytes front c (newCell keyHash offset record) back,
        set_middle Cell.row front c (newCell keyHash offset record) back⟩
    · rw [append_nil]
      exact ⟨show _ ≤ _ by simp, insertIdx_middle Cell.bytes front
        (newCell keyHash offset record) back,
        insertIdx_middle Cell.row front (newCell keyHash offset record) back⟩
  have room (isOpen : op = true) :
    (r.keys.insert front.length (encode record.key) replace).2 = .ok () ↔
      Entries.keyBytes (cells.filterMap Cell.entry) + (encode record.key).length ≤ u32Max := by
    subst isOpen
    rw [← h.total]
    exact h.keys.insert_ok_iff
  have placed := h.keys.insert (encode record.key) replace inside
  rw [bytes] at placed
  rw [same]
  unfold placeAt
  cases inserted : r.keys.insert front.length (encode record.key) replace with
  | mk keys result =>
    rw [inserted] at placed room
    rcases placed with ⟨rfl, held⟩ | ⟨rfl, held⟩
    · refine ⟨.inl ⟨⟨_, rfl⟩, ?_⟩, fun isOpen => ?_⟩
      · rw [rows, whole]
        exact ⟨_, Holds.put (whole ▸ h) dead valid low high free held, put_entries dead low
          high newOffset⟩
      · simpa using room isOpen
    · refine ⟨.inr ⟨rfl, h.rows, held, h.live, h.ok, h.sorted, h.apart⟩, fun isOpen => ?_⟩
      simpa using room isOpen

omit h

theorem insert_invalid (keyHash : SmallKey → Nat) (r : Records) (es : List Entry)
    (invalid : ¬ (validateKey record.key = .ok () ∧ validExtent offset record = true)) :
    ∃ e, r.insert keyHash offset record = (r, .error e) ∧
      Entries.insert es offset record = (es, .error e) := by
  unfold Records.insert Entries.insert
  cases key : validateKey record.key with
  | error e => exact ⟨e, rfl, rfl⟩
  | ok => simp_all

theorem Lists.insert_any (h : r.Lists keyHash op es) (fits : record.key.Fits)
    (checksum : record.checksum < 2 ^ 64) (free : r.overlaps offset record.len = false) :
    ((∃ i, (r.insert keyHash offset record).2 = .ok i) ∧
      (r.insert keyHash offset record).1.Lists keyHash op (Entries.put es offset record)) ∨
    (∃ e, (r.insert keyHash offset record).2 = .error e) ∧
      (r.insert keyHash offset record).1.Lists keyHash op es := by
  by_cases valid : validateKey record.key = .ok () ∧ validExtent offset record = true
  · obtain ⟨cells, holds, rfl⟩ := h
    rcases (holds.insert ⟨fits, checksum, valid.1, valid.2⟩ free).1 with done | ⟨failed, same⟩
    · exact .inl done
    · exact .inr ⟨⟨_, failed⟩, cells, same, rfl⟩
  · obtain ⟨e, same, -⟩ := insert_invalid keyHash r es valid
    rw [same]
    exact .inr ⟨⟨e, rfl⟩, h⟩

theorem Lists.insert (h : r.Lists keyHash true es) (fits : record.key.Fits)
    (checksum : record.checksum < 2 ^ 64) (free : r.overlaps offset record.len = false) :
    (r.insert keyHash offset record).1.Lists keyHash true (Entries.insert es offset record).1 ∧
      (r.insert keyHash offset record).2.map (fun _ => ()) =
        (Entries.insert es offset record).2 := by
  by_cases valid : validateKey record.key = .ok () ∧ validExtent offset record = true
  · obtain ⟨cells, holds, rfl⟩ := h
    obtain ⟨inserted, room⟩ := holds.insert ⟨fits, checksum, valid.1, valid.2⟩ free
    have room := room rfl
    simp only [Entries.insert, valid, Bool.not_true, Bool.false_eq_true, if_false]
    rcases inserted with ⟨⟨i, ok⟩, lists⟩ | ⟨failed, same⟩
    · rw [if_pos (room.mp ⟨i, ok⟩), ok]
      exact ⟨lists, rfl⟩
    · rw [if_neg (by rw [← room, failed]; simp), failed]
      exact ⟨⟨cells, same, rfl⟩, rfl⟩
  · obtain ⟨e, same, same'⟩ := insert_invalid keyHash r es valid
    rw [same, same']
    exact ⟨h, rfl⟩

end Insert

end Records

end Talon.SmallStore
