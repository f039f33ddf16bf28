import Talon.SmallStore.JournalSpec

/-!
# Snapshots of the journal's model

Restoring the records of a snapshot gives back the model: `restoreAll_snapshot`.  The restored model
stores its records in another way than the original (tombstones are gone, buffers are split
elsewhere), so the two are compared through the entry lists they refine.
-/

set_option autoImplicit false

namespace Talon.SmallStore

open Wire Extents List Records Model

/-! ## The bytes of the snapshot's records -/

section Codec

theorem Event.u64s_cons (n : Nat) (ns : List Nat) (rest : Bytes) :
    Event.u64s (n :: ns) ++ rest = leBytes 8 n ++ (Event.u64s ns ++ rest) := by
  rw [Event.u64s, flatMap_cons, append_assoc]
  rfl

theorem Event.u64s_nil (rest : Bytes) : Event.u64s [] ++ rest = rest := rfl

theorem Event.decode_encode_insert {slot segment offset : Nat} {record : Record}
    (slotFits : slot < 2 ^ 64) (segmentFits : segment < 2 ^ 64) (valid : record.Valid offset) :
    ∃ b, (Event.insert slot segment offset record).encode = .ok (0 :: b) ∧
      Event.decode (0 :: b) = .ok (.insert slot segment offset record) := by
  obtain ⟨key, encoded, -⟩ := encodeKey_ok valid.key
  obtain ⟨extent, -, len, below⟩ := validExtent_bounds valid.extent
  have lenFits : record.len < 2 ^ 64 := by unfold maxLen at len; omega
  have offsetFits : offset < 2 ^ 64 := by unfold maxOffset at below; omega
  refine ⟨_, by rw [Event.encode, encoded]; rfl, ?_⟩
  have accepted : ¬ (record.len > maxLen ∨ ¬ record.key.validExtent record.len) := by
    intro rejected
    rcases rejected with _ | bad
    · omega
    · exact bad extent
  change Event.decodeInsert _ = _
  simp only [Event.decodeInsert, Event.u64s_cons, Event.u64s_nil, u64_leBytes slotFits,
    u64_leBytes segmentFits, u64_leBytes offsetFits, u64_leBytes lenFits,
    u64_leBytes valid.checksum, ok_bind, view_encodeKey valid.fits encoded]
  rw [if_neg accepted]

variable {R : Type} (ops : RecordOps R)

theorem Model.decodeSealed_flag (sealed : Bool) (rest : Bytes) :
    decodeSealed ((if sealed then 1 else 0) :: rest) = .ok (sealed, rest) := by
  cases sealed <;> rfl

theorem Model.decodeSnapshot_next {next : Nat} (positive : 0 < next) (fits : next < 2 ^ 64) :
    decodeSnapshot ops (5 :: leBytes 8 next) = .ok (.next next) := by
  have read := u64_leBytes fits []
  rw [append_nil] at read
  have accepted : ¬ (¬ ([] : Bytes).isEmpty ∨ next = 0) := by
    simp only [isEmpty_nil, not_true_eq_false, false_or]
    omega
  have opened : decodeSnapshot ops (5 :: leBytes 8 next) = (u64 (leBytes 8 next)).bind
      fun read => if ¬ read.2.isEmpty ∨ read.1 = 0 then Except.error "snapshot allocator"
        else Except.ok (SnapshotRecord.next read.1) := rfl
  rw [opened, read]
  exact if_neg accepted

theorem Model.decodeSnapshot_header {id : Nat} {s : SegmentMeta R} (idFits : id < 2 ^ 64)
    (slot : s.slot < 2 ^ 64) (bytes : s.bytes < 2 ^ 64) (metadata : s.metadata < 2 ^ 64)
    (durable : s.durableEnd ≤ s.bytes) (full : s.sealed = true → s.durableEnd = s.bytes) :
    decodeSnapshot ops (snapshotHeader id s) =
      .ok (.segment id { s with records := ops.empty }) := by
  have last := u64_leBytes (Nat.lt_of_le_of_lt durable bytes) []
  rw [append_nil] at last
  have accepted : ¬ (¬ ([] : Bytes).isEmpty ∨ s.durableEnd > s.bytes ∨
      (s.sealed ∧ s.durableEnd ≠ s.bytes)) := by
    intro rejected
    rcases rejected with nonempty | _ | ⟨sealed, short⟩
    · exact nonempty rfl
    · omega
    · exact short (full sealed)
  change decodeHeader ops 8 _ = _
  simp only [decodeHeader, Event.u64s_cons, Event.u64s_nil, u64_leBytes idFits,
    u64_leBytes slot, u64_leBytes bytes, u64_leBytes metadata, ok_bind, decodeSealed_flag,
    if_pos, last]
  rw [if_neg accepted]

end Codec

/-! ## Restoring -/

section Restore

variable (keyHash : SmallKey → Nat)

structure Model.Restored (m : Model Records) (a : Segments) (low : Nat) : Prop where
  next : m.next = a.next
  below : ∀ id : Nat, id < low →
    Option.Rel (SegmentMeta.Refines keyHash) m.segments[id]? a.segments[id]?
  above : ∀ id : Nat, low ≤ id → m.segments[id]? = none

/-- A segment that has its header and the first records; they are not sealed before the next
header. -/
structure SegmentMeta.Fills (s : SegmentMeta Records) (t : Segment) (es : List Entry) : Prop where
  slot : s.slot = t.slot
  bytes : s.bytes = t.bytes
  durableEnd : s.durableEnd = t.durableEnd
  metadata : s.metadata = t.metadata
  sealed : s.sealed = t.sealed
  records : s.records.Lists keyHash true es

structure Model.Filling (m : Model Records) (a : Segments) (id : Nat) (t : Segment)
    (es : List Entry) : Prop where
  next : m.next = a.next
  below : ∀ other : Nat, other < id →
    Option.Rel (SegmentMeta.Refines keyHash) m.segments[other]? a.segments[other]?
  here : ∃ s, m.segments[id]? = some s ∧ s.Fills keyHash t es
  above : ∀ other : Nat, id < other → m.segments[other]? = none

end Restore

variable {es : List Entry} {s : SegmentMeta Records}

namespace Model

variable {keyHash : SmallKey → Nat} {sorter : Keys.Sorter} {a : Segments} {m : Model Records}
  {low id : Nat}
  {t : Segment}

theorem restoreAll_cons {R : Type} {ops : RecordOps R} {m m' : Model R} {bytes : Bytes}
    {record : SnapshotRecord R} (decoded : decodeSnapshot ops bytes = .ok record)
    (restored : m.restore ops record = (m', .ok ())) (rest : List (Result Bytes)) :
    m.restoreAll ops (.ok bytes :: rest) = m'.restoreAll ops rest := by
  rw [restoreAll, ok_bind, decoded, ok_bind, restored]

theorem Restored.sealLast (h : m.Restored keyHash a low) (sorter : Keys.Sorter) :
    (m.sealLast (ops keyHash sorter)).Restored keyHash a low := by
  unfold Model.sealLast
  split
  · exact h
  · rename_i last _
    split
    · exact h
    · rename_i s found
      split
      · rename_i sealed
        refine ⟨h.next, fun id inside => ?_, fun id outside => ?_⟩
        · rw [getElem?_insert_nat]
          split
          · rename_i same
            subst same
            have related := h.below last inside
            rw [found] at related
            generalize a.segments[last]? = stored at related
            cases related with
            | some refines =>
              obtain ⟨_, lists, -⟩ := refines.records
              refine .some ⟨refines.slot, refines.bytes, refines.durableEnd, refines.metadata,
                refines.sealed, false, lists.sealUp sorter, fun isOpen => ?_⟩
              rw [← refines.sealed, sealed] at isOpen
              cases isOpen
          · exact h.below id inside
        · rw [getElem?_insert_nat]
          split
          · rename_i same
            subst same
            rw [h.above last outside] at found
            cases found
          · exact h.above id outside
      · exact h

theorem filling_put (next : m.next = a.next) (below : ∀ other : Nat, other < id →
      Option.Rel (SegmentMeta.Refines keyHash) m.segments[other]? a.segments[other]?)
    (above : ∀ other : Nat, id < other → m.segments[other]? = none) (fills : s.Fills keyHash t es) :
    Filling keyHash { m with segments := m.segments.insert id s } a id t es where
  next := next
  below := fun other lower => by
    rw [getElem?_insert_nat, if_neg (by omega)]
    exact below other lower
  here := ⟨s, by rw [getElem?_insert_nat, if_pos rfl], fills⟩
  above := fun other upper => by
    rw [getElem?_insert_nat, if_neg (by omega)]
    exact above other upper

theorem Restored.restoreSegment (h : m.Restored keyHash a low) (order : low ≤ id) (wf : a.Wf)
    (found : a.segments[id]? = some t)
    (between : ∀ other : Nat, low ≤ other → other < id → a.segments[other]? = none)
    (header : s.Fills keyHash t []) :
    ∃ m', m.restore (ops keyHash sorter) (.segment id s) = (m', .ok ()) ∧
      m'.Filling keyHash a id t [] := by
  obtain ⟨_, _, -⟩ := wf.segment id t found
  have last := h.sealLast sorter
  have unknown := last.above id order
  have fresh : (m.sealLast (ops keyHash sorter)).segments.contains id = false := by
    rw [Std.ExtTreeMap.contains_eq_isSome_getElem?, unknown]
    rfl
  have accepted : ¬ (id = 0 ∨ id ≥ (m.sealLast (ops keyHash sorter)).next) := by
    rw [last.next]
    omega
  have below : ∀ other : Nat, other < id → Option.Rel (SegmentMeta.Refines keyHash)
      (m.sealLast (ops keyHash sorter)).segments[other]? a.segments[other]? := by
    intro other lower
    by_cases restored : other < low
    · exact last.below other restored
    · rw [last.above other (by omega), between other (by omega) lower]
      exact .none
  have filling := filling_put last.next below (fun other upper => last.above other (by omega))
    header
  refine ⟨_, ?_, filling⟩
  rw [Model.restore, Model.restoreSegment]
  rw [if_neg accepted, fresh]
  rfl

variable {rest : List Entry}

theorem Filling.restoreInsert {e : Entry} (h : m.Filling keyHash a id t es)
    (wf : t.Wf) (split : t.records = es ++ e :: rest) :
    ∃ m', m.restore (ops keyHash sorter) (.insert (.insert t.slot id e.1 e.2)) = (m', .ok ()) ∧
      m'.Filling keyHash a id t (es ++ [e]) := by
  obtain ⟨s, found, fills⟩ := h.here
  have mem : e ∈ t.records := by rw [split]; exact mem_append_right _ mem_cons_self
  have valid := wf.valid e mem
  have inside := wf.inside e mem
  have small := wf.bytes
  obtain ⟨-, _, -, -⟩ := validExtent_bounds valid.extent
  have earlier : ∀ f ∈ es, f.1 < e.1 ∧ f.1 + f.2.len ≤ e.1 := by
    intro f done
    have sorted := wf.sorted
    have apart := wf.apart
    rw [split] at sorted apart
    have order := (pairwise_append.mp sorted).2.2 f done e mem_cons_self
    have gap := (pairwise_append.mp apart).2.2 f done e mem_cons_self
    exact ⟨order, gap⟩
  have free : s.records.overlaps e.1 e.2.len = false := by
    rw [← Bool.not_eq_true, fills.records.overlaps_iff]
    intro meets
    obtain ⟨f, done, -, _⟩ := meets
    have ends := (earlier f done).2
    omega
  have accepted : ¬ (s.slot ≠ t.slot ∨ e.1 + e.2.len ≥ 2 ^ 64 ∨ e.1 + e.2.len > s.bytes ∨
      (e.1 < s.durableEnd ∧ e.1 + e.2.len > s.durableEnd) ∨
      (ops keyHash sorter).overlaps s.records e.1 e.2.len) := by
    have apart : (ops keyHash sorter).overlaps s.records e.1 e.2.len = false := free
    have whole := wf.whole e mem
    rw [fills.slot, fills.bytes, fills.durableEnd, apart]
    unfold maxOffset at small
    simp only [ne_eq, not_true_eq_false, Bool.false_eq_true, or_false, false_or]
    omega
  have room : Entries.keyBytes es + (KeyCodec.encode e.2.key).length ≤ u32Max := by
    have total := wf.room
    rw [split, Entries.keyBytes, map_append, sum_append, map_cons,
      sum_cons] at total
    unfold Entries.keyBytes
    omega
  have appended : Entries.insert es e.1 e.2 = (es ++ [e], .ok ()) := by
    have kept := filter_eq_self.mpr fun f done => decide_eq_true (earlier f done).1
    have none_after := filter_eq_nil_iff.mpr fun f done later => by
        have order := (earlier f done).1
        have later' : e.1 ≤ f.1 := of_decide_eq_true later
        omega
    rw [Entries.insert, valid.key]
    rw [valid.extent, if_pos room, Entries.put, kept, none_after]
    rfl
  obtain ⟨lists, result⟩ := fills.records.insert valid.fits valid.checksum free
  rw [appended] at lists result
  have fills' : SegmentMeta.Fills keyHash
      { s with records := (s.records.insert keyHash e.1 e.2).1 } t (es ++ [e]) :=
    ⟨fills.slot, fills.bytes, fills.durableEnd, fills.metadata, fills.sealed, lists⟩
  refine ⟨_, ?_, filling_put h.next h.below h.above fills'⟩
  rw [restore, update, found]
  dsimp only
  rw [Model.restoreInsert, if_neg accepted]
  exact congrArg _ result

theorem Filling.restoreRecords (h : m.Filling keyHash a id t es) (wf : t.Wf)
    (fits : id < 2 ^ 64) (split : t.records = es ++ rest) (more : List (Result Bytes)) :
    ∃ m' : Model Records, m.restoreAll (ops keyHash sorter)
          (rest.map (fun e => (Event.insert t.slot id e.1 e.2).encode) ++ more) =
        m'.restoreAll (ops keyHash sorter) more ∧
      m'.Filling keyHash a id t t.records := by
  induction rest generalizing m es with
  | nil =>
    rw [append_nil] at split
    rw [split]
    exact ⟨m, rfl, h⟩
  | cons e _ ih =>
    obtain ⟨_, restored, filling⟩ := h.restoreInsert wf split
    have mem : e ∈ t.records := by rw [split]; exact mem_append_right _ mem_cons_self
    obtain ⟨b, encoded, decoded⟩ := Event.decode_encode_insert wf.slot fits (wf.valid e mem)
    have record : decodeSnapshot (ops keyHash sorter) (0 :: b) =
        .ok (.insert (.insert t.slot id e.1 e.2)) := by
      change Event.decode (0 :: b) >>= _ = _
      rw [decoded]
      rfl
    obtain ⟨m', rest', done⟩ := ih filling (by rw [split, append_assoc]; rfl)
    refine ⟨m', ?_, done⟩
    rw [map_cons, cons_append, encoded, restoreAll_cons record restored]
    exact rest'

theorem Filling.done (h : m.Filling keyHash a id t t.records) (found : a.segments[id]? = some t) :
    m.Restored keyHash a (id + 1) where
  next := h.next
  below := by
    intro other _
    by_cases same : other = id
    · subst same
      obtain ⟨s, stored, fills⟩ := h.here
      rw [stored, found]
      exact .some ⟨fills.slot, fills.bytes, fills.durableEnd, fills.metadata, fills.sealed, true,
        fills.records, fun _ => rfl⟩
    · exact h.below other (by omega)
  above := fun other upper => h.above other upper

theorem Restored.restoreSnapshotSegment (h : m.Restored keyHash a low) (order : low ≤ id)
    (wf : a.Wf) (found : a.segments[id]? = some t)
    (between : ∀ other : Nat, low ≤ other → other < id → a.segments[other]? = none)
    (refines : s.Refines keyHash t) (more : List (Result Bytes)) :
    ∃ m' : Model Records, m.restoreAll (ops keyHash sorter)
          (snapshotSegment (ops keyHash sorter) (id, s) ++ more) =
        m'.restoreAll (ops keyHash sorter) more ∧
      m'.Restored keyHash a (id + 1) := by
  obtain ⟨-, allocated, segment⟩ := wf.segment id t found
  have fits : id < 2 ^ 64 := Nat.lt_trans allocated wf.next
  have small := segment.bytes
  have empty : SegmentMeta.Fills keyHash { s with records := {} } t [] :=
    ⟨refines.slot, refines.bytes, refines.durableEnd, refines.metadata, refines.sealed,
      lists_empty keyHash⟩
  obtain ⟨_, restored, filling⟩ := h.restoreSegment order wf found between empty
  have header : decodeSnapshot (ops keyHash sorter) (snapshotHeader id s) =
      .ok (.segment id { s with records := {} }) := by
    apply decodeSnapshot_header (ops keyHash sorter) fits
    · rw [refines.slot]
      exact segment.slot
    · rw [refines.bytes]
      unfold maxOffset at small
      omega
    · rw [refines.metadata]
      exact segment.metadata
    · rw [refines.durableEnd, refines.bytes]
      exact segment.durable
    · rw [refines.sealed, refines.durableEnd, refines.bytes]
      exact segment.full
  obtain ⟨m', rest, done⟩ := filling.restoreRecords segment fits (nil_append _).symm more
  refine ⟨m', ?_, done.done found⟩
  obtain ⟨_, lists, -⟩ := refines.records
  have records : (ops keyHash sorter).iter s.records = t.records := lists.iter
  rw [snapshotSegment, records, refines.slot, cons_append, restoreAll_cons header restored]
  exact rest

/-- The snapshot lists the segments in the order of their ids; `low` is where the rest begins. -/
theorem Restored.restoreSegments {m₀ : Model Records} (refines : m.Refines keyHash a) (wf : a.Wf)
    (l : List (Nat × SegmentMeta Records)) (sorted : l.Pairwise fun p q => p.1 < q.1)
    (all : ∀ p : Nat × SegmentMeta Records, p ∈ l ↔ low ≤ p.1 ∧ m.segments[p.1]? = some p.2)
    (h : m₀.Restored keyHash a low) :
    ∃ m', m₀.restoreAll (ops keyHash sorter) (l.flatMap (snapshotSegment (ops keyHash sorter))) =
        .ok m' ∧ m'.Refines keyHash a := by
  induction l generalizing m₀ low with
  | nil =>
    refine ⟨m₀, rfl, h.next, fun id => ?_⟩
    by_cases restored : id < low
    · exact h.below id restored
    · have related := refines.segments id
      rw [h.above id (by omega)]
      cases stored : m.segments[id]? with
      | none =>
        rw [stored] at related
        exact related
      | some s => exact absurd ((all (id, s)).mpr ⟨by omega, stored⟩) not_mem_nil
  | cons p l ih =>
    obtain ⟨id, s⟩ := p
    obtain ⟨order, stored⟩ := (all (id, s)).mp mem_cons_self
    obtain ⟨first, later⟩ := pairwise_cons.mp sorted
    have related := refines.segments id
    rw [stored] at related
    obtain ⟨t, found, refinesHere⟩ : ∃ t, a.segments[id]? = some t ∧ s.Refines keyHash t := by
      generalize a.segments[id]? = other at related
      cases related with
      | some refines => exact ⟨_, rfl, refines⟩
    have between : ∀ other : Nat, low ≤ other → other < id → a.segments[other]? = none := by
      intro other from_low _
      have absent : m.segments[other]? = none := by
        cases known : m.segments[other]? with
        | none => rfl
        | some u =>
          rcases mem_cons.mp ((all (other, u)).mpr ⟨from_low, known⟩) with same | mem
          · cases same
            omega
          · have after := first (other, u) mem
            omega
      have none_related := refines.segments other
      rw [absent] at none_related
      generalize a.segments[other]? = unknown at none_related
      cases none_related
      rfl
    obtain ⟨_, restored, next⟩ := h.restoreSnapshotSegment order wf found between refinesHere
      (l.flatMap (snapshotSegment (ops keyHash sorter)))
    have rest : ∀ p : Nat × SegmentMeta Records,
        p ∈ l ↔ id + 1 ≤ p.1 ∧ m.segments[p.1]? = some p.2 := by
      intro p
      constructor
      · intro mem
        exact ⟨first p mem, ((all p).mp (mem_cons_of_mem _ mem)).2⟩
      · intro listed
        obtain ⟨after, known⟩ := listed
        rcases mem_cons.mp ((all p).mpr ⟨by omega, known⟩) with same | mem
        · subst same
          omega
        · exact mem
    obtain ⟨m', done, final⟩ := ih later rest next
    refine ⟨m', ?_, final⟩
    rw [flatMap_cons, restored]
    exact done

theorem Refines.restore_snapshot (refines : m.Refines keyHash a) (wf : a.Wf) :
    ∃ m', start.restoreAll (ops keyHash sorter) (m.snapshot (ops keyHash sorter)) = .ok m' ∧
      m'.Refines keyHash a := by
  have next : decodeSnapshot (ops keyHash sorter) (5 :: leBytes 8 m.next) = .ok (.next m.next) := by
    rw [refines.next]
    exact decodeSnapshot_next (ops keyHash sorter) wf.next_pos wf.next
  have first : start.restore (ops keyHash sorter) (.next m.next) =
      ({ next := m.next }, .ok ()) := by
    rw [restore, start]
    rfl
  have empty : Restored keyHash { next := m.next } a 0 :=
    ⟨refines.next, fun id lower => absurd lower (Nat.not_lt_zero id),
      fun id _ => Std.ExtTreeMap.getElem?_empty⟩
  obtain ⟨m', restored, final⟩ := empty.restoreSegments refines wf m.segments.toList
    (Std.ExtTreeMap.ordered_keys_toList.imp fun order => Nat.compare_eq_lt.mp order)
    (fun p => by
      rw [← Std.ExtTreeMap.mem_toList_iff_getElem?_eq_some]
      exact ⟨fun mem => ⟨Nat.zero_le _, mem⟩, fun h => h.2⟩)
  refine ⟨m', ?_, final⟩
  rw [snapshot, restoreAll_cons next first]
  exact restored

end Model

/-! ## Fidelity -/

structure SegmentMeta.Same (s s' : SegmentMeta Records) : Prop where
  slot : s.slot = s'.slot
  bytes : s.bytes = s'.bytes
  durableEnd : s.durableEnd = s'.durableEnd
  metadata : s.metadata = s'.metadata
  sealed : s.sealed = s'.sealed
  records : s.records.iter = s'.records.iter

namespace Model

structure Same (m m' : Model Records) : Prop where
  next : m.next = m'.next
  segments : ∀ id : Nat, Option.Rel SegmentMeta.Same m.segments[id]? m'.segments[id]?

def applyAll {R : Type} (ops : RecordOps R) (m : Model R) : List Event →
    Model R × List (Result Unit)
  | [] => (m, [])
  | e :: events =>
    (((m.apply ops e).1.applyAll ops events).1,
      (m.apply ops e).2 :: ((m.apply ops e).1.applyAll ops events).2)

/-- The models that accepted events and restored snapshots lead to. -/
inductive Reachable (keyHash : SmallKey → Nat) (sorter : Keys.Sorter) : Model Records → Prop
  | start : Reachable keyHash sorter Model.start
  | apply {m m' e} (before : Reachable keyHash sorter m) (fits : e.Fits)
      (accepted : m.apply (Records.ops keyHash sorter) e = (m', .ok ())) :
      Reachable keyHash sorter m'
  | restore {m m'} (before : Reachable keyHash sorter m)
      (restored : Model.start.restoreAll (Records.ops keyHash sorter)
        (m.snapshot (Records.ops keyHash sorter)) =
        .ok m') : Reachable keyHash sorter m'

variable {keyHash : SmallKey → Nat} {sorter : Keys.Sorter} {m m' : Model Records} {a : Segments}

theorem Refines.same (h : m.Refines keyHash a) (h' : m'.Refines keyHash a) : m.Same m' where
  next := h.next.trans h'.next.symm
  segments := by
    intro id
    have left := h.segments id
    have right := h'.segments id
    generalize m.segments[id]? = mine, m'.segments[id]? = theirs, a.segments[id]? = stored
      at left right ⊢
    cases left with
    | none =>
      cases right
      exact .none
    | some refines =>
      cases right with
      | some refines' =>
        obtain ⟨_, lists, -⟩ := refines.records
        obtain ⟨_, lists', -⟩ := refines'.records
        exact .some
          { slot := refines.slot.trans refines'.slot.symm
            bytes := refines.bytes.trans refines'.bytes.symm
            durableEnd := refines.durableEnd.trans refines'.durableEnd.symm
            metadata := refines.metadata.trans refines'.metadata.symm
            sealed := refines.sealed.trans refines'.sealed.symm
            records := lists.iter.trans lists'.iter.symm }

variable {events : List Event}

theorem Refines.applyAll (h : m.Refines keyHash a) (fits : ∀ e ∈ events, e.Fits) :
    (m.applyAll (ops keyHash sorter) events).1.Refines keyHash (a.applyAll Entries.ops events).1 ∧
      (m.applyAll (ops keyHash sorter) events).2 = (a.applyAll Entries.ops events).2 := by
  induction events generalizing m a with
  | nil => exact ⟨h, rfl⟩
  | cons e _ ih =>
    obtain ⟨next, verdict⟩ := h.apply (fits e mem_cons_self)
    obtain ⟨final, verdicts⟩ := ih next fun f mem => fits f (mem_cons_of_mem _ mem)
    exact ⟨final, congrArg₂ _ verdict verdicts⟩

theorem Reachable.refines (h : m.Reachable keyHash sorter) :
    ∃ a : Segments, m.Refines keyHash a ∧ a.Wf := by
  induction h with
  | start => exact ⟨Model.start, refines_start keyHash, wf_start⟩
  | apply _ fits accepted ih =>
    obtain ⟨a, refines, wf⟩ := ih
    obtain ⟨next, verdict⟩ := refines.apply fits
    rw [accepted] at next verdict
    exact ⟨_, next, wf.apply fits (Prod.ext rfl verdict.symm)⟩
  | restore _ restored ih =>
    obtain ⟨a, refines, wf⟩ := ih
    obtain ⟨_, same, next⟩ := refines.restore_snapshot wf
    rw [restored] at same
    cases same
    exact ⟨a, next, wf⟩

/-- Restoring a snapshot succeeds, gives the same segments, and no later event tells the restored
model from the original. -/
theorem restoreAll_snapshot (h : m.Reachable keyHash sorter) :
    ∃ m', start.restoreAll (Records.ops keyHash sorter)
      (m.snapshot (Records.ops keyHash sorter)) = .ok m' ∧
      m.Same m' ∧
      ∀ events : List Event, (∀ e ∈ events, e.Fits) →
        (m.applyAll (Records.ops keyHash sorter) events).2 =
          (m'.applyAll (Records.ops keyHash sorter) events).2 ∧
        (m.applyAll (Records.ops keyHash sorter) events).1.Same
          (m'.applyAll (Records.ops keyHash sorter) events).1 := by
  obtain ⟨a, refines, wf⟩ := h.refines
  obtain ⟨m', restored, refines'⟩ := refines.restore_snapshot wf
  refine ⟨m', restored, refines.same refines', fun events fits => ?_⟩
  obtain ⟨mine, verdicts⟩ := refines.applyAll fits
  obtain ⟨theirs, verdicts'⟩ := refines'.applyAll fits
  exact ⟨verdicts.trans verdicts'.symm, mine.same theirs⟩

theorem Reachable.applyAll (h : m.Reachable keyHash sorter) (fits : ∀ e ∈ events, e.Fits)
    (accepted : ∀ verdict ∈ (m.applyAll (Records.ops keyHash sorter) events).2, verdict = .ok ()) :
    (m.applyAll (Records.ops keyHash sorter) events).1.Reachable keyHash sorter := by
  induction events generalizing m with
  | nil => exact h
  | cons e _ ih =>
    have first := h.apply (fits e mem_cons_self) (Prod.ext rfl (accepted _ mem_cons_self))
    exact ih first (fun f mem => fits f (mem_cons_of_mem _ mem)) fun v mem => accepted v
      (mem_cons_of_mem _ mem)

def sampleRecord (name : Char) : Record := ⟨⟨⟨⟨.s3, ['b'], [name]⟩, 0, 4096, ['v']⟩, .whole⟩, 3, 9⟩

/-- A sealed segment with a tombstone between two records, and an open one with a durable end. -/
def sampleEvents : List Event :=
  [.insert 0 7 0 (sampleRecord 'o'), .insert 0 7 3 (sampleRecord 'p'), .insert 0 7 6
    (sampleRecord 'q'), .delete 7 3,
    .sealSegment 7, .insert 1 8 0 (sampleRecord 'p'), .flush 8 3, .insert 1 8 3 (sampleRecord 'r')]

theorem restoreAll_snapshot_sample :
    (start.applyAll (Records.ops (fun _ => 0) .stable) sampleEvents).2 = replicate 8 (.ok ()) ∧
      ∃ m', start.restoreAll (Records.ops (fun _ => 0) .stable)
          ((start.applyAll (Records.ops (fun _ => 0) .stable) sampleEvents).1.snapshot
            (Records.ops (fun _ => 0) .stable)) = .ok m' ∧
        (start.applyAll (Records.ops (fun _ => 0) .stable) sampleEvents).1.Same m' := by
  have fits : ∀ e ∈ sampleEvents, e.Fits := by
    have key (name : Char) : (sampleRecord name).key.Fits :=
      ⟨(by decide : 0 < 2 ^ 64), (by decide : 4096 < 2 ^ 32)⟩
    simp [sampleEvents, Event.Fits, key]
    decide
  have accepted : (start.applyAll (Records.ops (fun _ => 0) .stable) sampleEvents).2 = replicate 8
      (.ok ()) := by
    rw [((refines_start fun _ => 0).applyAll fits).2]
    decide
  have reachable := Reachable.start.applyAll fits fun v mem => eq_of_mem_replicate (accepted ▸ mem)
  obtain ⟨m', restored, same, -⟩ := restoreAll_snapshot reachable
  exact ⟨accepted, m', restored, same⟩

end Model

end Talon.SmallStore
