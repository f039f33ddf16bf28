import Talon.SmallStore.RecordsSpec

/-!
# Key buffers over whole runs

The rows of a segment are inserted, taken again, removed, compacted, sealed, and opened again by a
later insertion, in any order.  Every operation keeps the buffer sound, so that a row that was not
removed gives back the bytes stored for it.
-/

set_option autoImplicit false

namespace Talon.SmallStore

open Wire List Nat Keys

abbrev Stored := List (Option Bytes)

/-- Buffers reached from the empty one by operations on rows that exist. -/
inductive Keys.Reached : Keys → Stored → Prop
  | empty : Reached {} []
  | insert {k stored} (reached : Reached k stored) {row} (inside : row ≤ stored.length)
      {key} (done : (k.insert row key false).2 = .ok ()) :
      Reached (k.insert row key false).1 (stored.insertIdx row (some key))
  | replace {k stored} (reached : Reached k stored) {row} (inside : row < stored.length)
      {key} (done : (k.insert row key true).2 = .ok ()) :
      Reached (k.insert row key true).1 (stored.set row (some key))
  | refused {k stored} (reached : Reached k stored) {row replace}
      (inside : if replace then row < stored.length else row ≤ stored.length) {key e}
      (failed : (k.insert row key replace).2 = .error e) :
      Reached (k.insert row key replace).1 stored
  | remove {k stored} (reached : Reached k stored) {row} (inside : row < stored.length) :
      Reached (k.remove row) (stored.set row none)
  | retain {k stored} (reached : Reached k stored) (keep : Nat → Bool) :
      Reached (k.retain keep)
        (((List.range stored.length).filter keep).map fun row => stored[row]?.getD none)
  | sealUp {k stored} (reached : Reached k stored) (sorter : Keys.Sorter) :
      Reached (k.sealUp sorter) stored

/-- The keys a buffer stands for agree with what was stored wherever nothing was removed. -/
def Agrees (stored : Stored) (keys : List Bytes) : Prop :=
  stored.length = keys.length ∧ ∀ (row : Nat) (key : Bytes), stored[row]? = some (some key) →
    keys[row]? = some key

section Agree

variable {stored : Stored} {keys : List Bytes}

theorem Agrees.insertIdx (h : Agrees stored keys) {row : Nat} (inside : row ≤ stored.length)
    (key : Bytes) : Agrees (stored.insertIdx row (some key)) (keys.insertIdx row key) := by
  have inKeys : row ≤ keys.length := by rw [← h.1]; exact inside
  refine ⟨?_, fun i b found => ?_⟩
  · rw [length_insertIdx_of_le_length inside, length_insertIdx_of_le_length inKeys, h.1]
  · rcases lt_trichotomy i row with before | here | after
    · rw [getElem?_insertIdx_of_lt before] at found ⊢
      exact h.2 i b found
    · subst here
      rw [getElem?_insertIdx_self, if_pos inside] at found
      rw [getElem?_insertIdx_self, if_pos inKeys]
      cases found
      rfl
    · rw [getElem?_insertIdx_of_gt after] at found ⊢
      exact h.2 (i - 1) b found

theorem Agrees.set (h : Agrees stored keys) {row : Nat} (inside : row < stored.length)
    {value : Option Bytes} {bytes : Bytes} (same : ∀ key, value = some key → bytes = key) :
    Agrees (stored.set row value) (keys.set row bytes) := by
  refine ⟨by rw [length_set, length_set, h.1], fun i b found => ?_⟩
  rcases Decidable.eq_or_ne row i with rfl | other
  · rw [getElem?_set_self inside] at found
    rw [getElem?_set_self (by rw [← h.1]; exact inside), same b (Option.some.inj found)]
  · rw [getElem?_set_ne other] at found ⊢
    exact h.2 i b found

theorem Agrees.retain (h : Agrees stored keys) (keep : Nat → Bool) :
    Agrees (((range stored.length).filter keep).map fun row => stored[row]?.getD none)
      (keptKeys keep keys) := by
  unfold keptKeys
  rw [h.1]
  refine ⟨by rw [length_map, length_map], fun i b found => ?_⟩
  rw [getElem?_map] at found ⊢
  obtain ⟨row, there, value⟩ := Option.map_eq_some_iff.mp found
  rw [there, Option.map_some]
  cases at_ : stored[row]? with
  | none =>
    rw [at_] at value
    cases value
  | some =>
    rw [at_, Option.getD_some] at value
    rw [value] at at_
    rw [h.2 row b at_, Option.getD_some]

end Agree

theorem Keys.Reached.held {k : Keys} {stored : Stored} (reached : k.Reached stored) :
    ∃ keys, k.Held false keys ∧ Agrees stored keys := by
  induction reached with
  | empty => exact ⟨[], held_empty.relax, rfl, fun row key h => by cases h⟩
  | insert _ inside done ih =>
    obtain ⟨keys, held, agrees⟩ := ih
    rcases held.insert _ false (show _ ≤ _ from agrees.1 ▸ inside) with ⟨_, new⟩ | ⟨failed, _⟩
    · exact ⟨_, new, agrees.insertIdx inside _⟩
    · rw [done] at failed
      cases failed
  | replace _ inside done ih =>
    obtain ⟨keys, held, agrees⟩ := ih
    rcases held.insert _ true (show _ < _ from agrees.1 ▸ inside) with ⟨_, new⟩ | ⟨failed, _⟩
    · exact ⟨_, new, agrees.set inside fun key same => Option.some.inj same⟩
    · rw [done] at failed
      cases failed
  | @refused k _ _ _ replace inside key e failed ih =>
    obtain ⟨keys, held, agrees⟩ := ih
    rw [agrees.1] at inside
    rcases held.insert key replace inside with ⟨done, _⟩ | ⟨_, same⟩
    · rw [failed] at done
      cases done
    · exact ⟨keys, same, agrees⟩
  | remove _ inside ih =>
    obtain ⟨keys, held, agrees⟩ := ih
    obtain ⟨_, _, removed⟩ := held.remove (agrees.1 ▸ inside)
    exact ⟨_, removed, agrees.set inside fun key none_ => by cases none_⟩
  | retain _ keep ih =>
    obtain ⟨keys, held, agrees⟩ := ih
    exact ⟨_, held.retain keep, agrees.retain keep⟩
  | sealUp _ sorter ih =>
    obtain ⟨keys, held, agrees⟩ := ih
    exact ⟨keys, held.sealUp sorter, agrees⟩

namespace Records

/-- The buffer of the records is reached, it has their rows, and a live row was not removed. -/
structure Issues (r : Records) (stored : Stored) : Prop where
  reached : r.keys.Reached stored
  rows : stored.length = r.rows.length
  live : ∀ (row : Nat) (w : Row), r.rows[row]? = some w → w.live = true →
    ∃ key, stored[row]? = some (some key)

variable {keyHash : SmallKey → Nat} {r : Records} {stored : Stored}

variable (h : r.Issues stored)
include h

theorem Issues.placed {row : Nat} (replace : Bool)
    (inside : if replace then row < r.rows.length else row ≤ r.rows.length) (w : Row) (live : Nat)
    (key : Bytes) :
    ((r.keys.insert row key replace).2 = .ok () → ∃ stored',
      Issues ⟨if replace then r.rows.set row w else r.rows.insertIdx row w,
        (r.keys.insert row key replace).1, live⟩
        stored') ∧
    ∀ e, (r.keys.insert row key replace).2 = .error e →
      ({ r with keys := (r.keys.insert row key replace).1 } : Records).Issues stored := by
  have inStored := inside
  rw [← h.rows] at inStored
  refine ⟨fun done => ?_, fun e failed => ⟨h.reached.refused inStored failed, h.rows, h.live⟩⟩
  cases replace with
  | true =>
    rw [if_pos rfl] at inside inStored ⊢
    refine ⟨_, h.reached.replace inStored done, ?_, fun i w' here alive => ?_⟩
    · rw [length_set, length_set, h.rows]
    · rcases Decidable.eq_or_ne row i with rfl | other
      · exact ⟨_, getElem?_set_self inStored⟩
      · rw [getElem?_set_ne other] at here ⊢
        exact h.live i w' here alive
  | false =>
    rw [if_neg Bool.false_ne_true] at inside inStored ⊢
    refine ⟨_, h.reached.insert inStored done, ?_, fun i w' here alive => ?_⟩
    · rw [length_insertIdx_of_le_length inStored, length_insertIdx_of_le_length inside, h.rows]
    · rcases lt_trichotomy i row with before | same | after
      · rw [getElem?_insertIdx_of_lt before] at here ⊢
        exact h.live i w' here alive
      · rw [same, getElem?_insertIdx_self, if_pos inStored]
        exact ⟨_, rfl⟩
      · rw [getElem?_insertIdx_of_gt after] at here ⊢
        exact h.live (i - 1) w' here alive

theorem Issues.insert (offset : Nat) (record : Record) :
    ∃ stored', (r.insert keyHash offset record).1.Issues stored' := by
  unfold Records.insert
  split
  · exact ⟨stored, h⟩
  split
  · exact ⟨stored, h⟩
  dsimp only
  split
  · rename_i vacant
    have inside : r.position offset < r.rows.length := by
      rcases lt_or_ge (r.position offset) r.rows.length with inside | outside
      · exact inside
      · rw [getElem?_eq_none outside] at vacant
        cases vacant
    obtain ⟨done, refused⟩ := h.placed true inside (rowOf keyHash offset record) (r.live + 1)
      (KeyCodec.encode record.key)
    split <;> rename_i inserted <;> rw [inserted] at done refused
    · exact ⟨stored, refused _ rfl⟩
    · exact done rfl
  · obtain ⟨done, refused⟩ := h.placed false
      (show partitionPoint (fun w : Row => decide (w.offset ≤ offset)) r.rows ≤ r.rows.length from
        (takeWhile_sublist _).length_le) (rowOf keyHash offset record) (r.live + 1)
      (KeyCodec.encode record.key)
    split <;> rename_i inserted <;> rw [inserted] at done refused
    · exact ⟨stored, refused _ rfl⟩
    · exact done rfl

omit h

theorem filter_positions {α : Type} (l : List α) (p : α → Bool) :
    ((range l.length).filter fun i => (l[i]?).any p).map (l[·]?) = (l.filter p).map some := by
  induction l with
  | nil => rfl
  | cons a l ih =>
    have rest : ((map succ (range l.length)).filter
        fun i => ((a :: l)[i]?).any p).map ((a :: l)[·]?) = (l.filter p).map some := by
      rw [filter_map, map_map, ← ih]
      rfl
    rw [length_cons, range_succ_eq_map]
    by_cases first : p a = true
    · rw [filter_cons_of_pos (by simpa using first), filter_cons_of_pos first, map_cons,
        rest]
      rfl
    · rw [filter_cons_of_neg (by simpa using first), filter_cons_of_neg first, rest]

include h

theorem Issues.compact : ∃ stored', r.compact.Issues stored' := by
  set pairs := r.rows.zip stored with zipped
  have width : pairs.length = stored.length := by
    rw [zipped, length_zip, h.rows, min_self]
  have first (i : Nat) : r.rows[i]? = (pairs[i]?).map Prod.fst := by
    rw [← getElem?_map, zipped, map_fst_zip (le_of_eq h.rows.symm)]
  have second (i : Nat) : stored[i]? = (pairs[i]?).map Prod.snd := by
    rw [← getElem?_map, zipped, map_snd_zip (le_of_eq h.rows)]
  have kept : ((range stored.length).filter fun row => (r.rows[row]?).any Row.live).map
      (fun row => stored[row]?.getD none) =
        (pairs.filter fun x => x.1.live).map Prod.snd := by
    have chosen := filter_positions pairs fun x => x.1.live
    have values := congrArg (map fun x => (x.map Prod.snd).getD none) chosen
    rw [map_map, map_map] at values
    rw [← width]
    simp only [first, second, Option.any_map]
    exact values
  have rows : r.rows.filter Row.live = (pairs.filter fun x => x.1.live).map Prod.fst := by
    conv_lhs => rw [← map_fst_zip (le_of_eq h.rows.symm), ← zipped]
    rw [filter_map]
    rfl
  have reached := h.reached.retain fun row => (r.rows[row]?).any Row.live
  rw [kept] at reached
  refine ⟨_, reached, ?_, fun row w here live => ?_⟩
  · change _ = (r.rows.filter Row.live).length
    rw [rows, length_map, length_map]
  · change (r.rows.filter Row.live)[row]? = some w at here
    rw [rows, getElem?_map] at here
    rw [getElem?_map]
    obtain ⟨⟨w', value⟩, at_, rfl⟩ := Option.map_eq_some_iff.mp here
    have mem := mem_of_mem_filter (mem_of_getElem? at_)
    obtain ⟨i, position⟩ := getElem?_of_mem mem
    have inRows := first i
    have inStored := second i
    rw [position] at inRows inStored
    obtain ⟨key, same⟩ := h.live i w' inRows live
    refine ⟨key, ?_⟩
    rw [at_]
    exact inStored.symm.trans same

theorem Issues.remove {offset : Nat} {r' : Records}
    (removed : r.remove offset = some r') : ∃ stored', r'.Issues stored' := by
  unfold Records.remove at removed
  split at removed
  · cases removed
  · rename_i index found
    have inside : index < r.rows.length := by
      obtain ⟨i, at_, rfl⟩ := Option.map_eq_some_iff.mp found
      have bound := (findIdx?_eq_some_iff_getElem.mp at_).1
      have part := (takeWhile_sublist (l := r.rows.drop (r.position offset))
        fun w : Row => w.offset == offset).length_le
      rw [length_drop] at part
      omega
    have inStored : index < stored.length := by rw [h.rows]; exact inside
    have cleared : Issues ⟨r.rows.modify index clear, r.keys.remove index, r.live - 1⟩
        (stored.set index none) := by
      refine ⟨h.reached.remove inStored, ?_, fun row w here live => ?_⟩
      · rw [length_set, length_modify, h.rows]
      · rcases Decidable.eq_or_ne index row with rfl | other
        · rw [getElem?_modify_eq] at here
          obtain ⟨_, -, rfl⟩ := Option.map_eq_some_iff.mp here
          cases live
        · rw [getElem?_modify_ne _ _ other] at here
          rw [getElem?_set_ne other]
          exact h.live row w here live
    dsimp only at removed
    split at removed <;> cases removed
    · exact cleared.compact
    · exact ⟨_, cleared⟩

theorem Issues.retainBefore (stop : Nat) : ∃ stored', (r.retainBefore stop).Issues stored' := by
  refine Issues.compact (r := _) ⟨h.reached, ?_, fun row w here live => ?_⟩
  · rw [length_map, h.rows]
  · rw [getElem?_map] at here
    obtain ⟨w', at_, same⟩ := Option.map_eq_some_iff.mp here
    split at same
    · subst same
      cases live
    · subst same
      exact h.live row w' at_ live

omit h

/-- What a segment does to its records; a refused insertion and a missing offset change no record.
-/
inductive Op
  | insert (offset : Nat) (record : Record)
  | remove (offset : Nat)
  | retainBefore (stop : Nat)
  | sealUp (sorter : Keys.Sorter)

def step (keyHash : SmallKey → Nat) (r : Records) : Op → Records
  | .insert offset record => (r.insert keyHash offset record).1
  | .remove offset => (r.remove offset).getD r
  | .retainBefore stop => r.retainBefore stop
  | .sealUp sorter => r.sealUp sorter

def run (keyHash : SmallKey → Nat) (ops : List Op) : Records := ops.foldl (step keyHash) {}

include h in
theorem Issues.step (op : Op) : ∃ stored', (r.step keyHash op).Issues stored' := by
  cases op with
  | insert offset record => exact h.insert offset record
  | remove offset =>
    change ∃ stored', ((r.remove offset).getD r).Issues stored'
    cases removed : r.remove offset with
    | none => exact ⟨stored, h⟩
    | some => exact h.remove removed
  | retainBefore stop => exact h.retainBefore stop
  | sealUp sorter => exact ⟨stored, h.reached.sealUp sorter, h.rows, h.live⟩

theorem issues_run (keyHash : SmallKey → Nat) (ops : List Op) :
    ∃ stored, (run keyHash ops).Issues stored := by
  unfold run
  induction ops using reverseRecOn with
  | nil => exact ⟨[], .empty, rfl, fun row w here => by cases here⟩
  | append_singleton _ op ih =>
    obtain ⟨_, h⟩ := ih
    rw [foldl_append]
    exact h.step op

end Records

/-- Identities are encoded without loss, and a row that was not removed gives back the bytes stored
for it after every sequence of operations on the buffer, among them those that records issue. -/
theorem identities_never_confused :
    (∀ id : SmallKey, id.Fits → (∀ i, id.kind ≠ .page i) →
      KeyCodec.decode (KeyCodec.encode id) = some id) ∧
      (∀ a b : SmallKey, a.Fits → b.Fits → (∀ i, a.kind ≠ .page i) → (∀ i, b.kind ≠ .page i) →
        KeyCodec.encode a = KeyCodec.encode b → a = b) ∧
      (∀ (k : Keys) (stored : Stored), k.Reached stored →
        k.Fits ∧ ∀ (row : Nat) (key : Bytes), stored[row]? = some (some key) →
          ∃ head suffix, k.get row = some (head, suffix) ∧ head ++ suffix = key) ∧
      ∀ (keyHash : SmallKey → Nat) (ops : List Records.Op), ∃ stored,
        (Records.run keyHash ops).Issues stored := by
  refine ⟨fun id fits kind => KeyCodec.decode_encode fits kind,
    fun a b fitsA fitsB kindA kindB same => ?_, fun k stored reached => ?_, Records.issues_run⟩
  · have left := KeyCodec.decode_encode fitsA kindA
    rw [same, KeyCodec.decode_encode fitsB kindB] at left
    exact (Option.some.inj left).symm
  · obtain ⟨_, ⟨sound, _⟩, agrees⟩ := reached.held
    exact ⟨sound.fits, fun row key here => sound.holds.get (agrees.2 row key here)⟩

/-- Two keys stored and the buffer sealed: the second is read back. -/
theorem identities_never_confused_sealed :
    ∃ (k : Keys) (head suffix : Bytes), k.Reached [some [1, 2], some [1, 3]] ∧
      k.get 1 = some (head, suffix) ∧ head ++ suffix = [1, 3] := by
  have two : (Keys.insert (Keys.insert {} 0 [1, 3] false).1 0 [1, 2] false).1.Reached
      [some [1, 2], some [1, 3]] :=
    (Keys.Reached.empty.insert (Nat.le_refl _) rfl).insert (Nat.zero_le _) rfl
  obtain ⟨-, rows⟩ := identities_never_confused.2.2.1 _ _ (two.sealUp .stable)
  obtain ⟨head, suffix, got, same⟩ := rows 1 [1, 3] rfl
  exact ⟨_, head, suffix, two.sealUp .stable, got, same⟩

end Talon.SmallStore
