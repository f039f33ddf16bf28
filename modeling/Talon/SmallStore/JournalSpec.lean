import Talon.SmallStore.Journal

/-!
# The journal's model and what it stands for

`Model.Refines m a`: the model over the source's record storage and the model over plain entry lists
have the same segments.  `Refines.apply` says that an event keeps them so and is accepted by both or
by neither.  `Model.Wf` is the invariant of the model over entry lists; every accepted event keeps
it.
-/

set_option autoImplicit false

namespace Talon.SmallStore

open Wire Extents List Nat Records Entries

/-- A segment by itself: the model over plain entries. -/
abbrev Segment := SegmentMeta (List Entry)

abbrev Segments := Model (List Entry)

section Maps

variable {β : Type} (t : Std.ExtTreeMap Nat β) (k a : Nat)

theorem getElem?_insert_nat (v : β) : (t.insert k v)[a]? = if k = a then some v else t[a]? := by
  rw [Std.ExtTreeMap.getElem?_insert]
  simp

theorem getElem?_erase_nat : (t.erase k)[a]? = if k = a then none else t[a]? := by
  rw [Std.ExtTreeMap.getElem?_erase]
  simp

end Maps

def Event.Fits : Event → Prop
  | .insert slot segment offset record =>
    slot < 2 ^ 64 ∧ segment < 2 ^ 64 ∧ offset < 2 ^ 64 ∧ record.len < 2 ^ 64 ∧
      record.checksum < 2 ^ 64 ∧ record.key.Fits
  | .delete segment offset => segment < 2 ^ 64 ∧ offset < 2 ^ 64
  | .sealSegment segment => segment < 2 ^ 64
  | .flush segment durableEnd => segment < 2 ^ 64 ∧ durableEnd < 2 ^ 64
  | .recover segment => segment < 2 ^ 64
  | .setNext next => next < 2 ^ 64
  | .replace old new => old < 2 ^ 64 ∧ ∀ id ∈ new, id < 2 ^ 64

section Refinement

variable (keyHash : SmallKey → Nat)

structure SegmentMeta.Refines (s : SegmentMeta Records) (t : Segment) : Prop where
  slot : s.slot = t.slot
  bytes : s.bytes = t.bytes
  durableEnd : s.durableEnd = t.durableEnd
  metadata : s.metadata = t.metadata
  sealed : s.sealed = t.sealed
  records : ∃ op, s.records.Lists keyHash op t.records ∧ (t.sealed = false → op = true)

/-- Both sides go on alike and give the same verdict. -/
abbrev SegmentMeta.Alike (x : SegmentMeta Records × Result Unit) (y : Segment × Result Unit) :
    Prop :=
  x.1.Refines keyHash y.1 ∧ x.2 = y.2

structure Model.Refines (m : Model Records) (a : Segments) : Prop where
  next : m.next = a.next
  segments : ∀ id : Nat, Option.Rel (SegmentMeta.Refines keyHash) m.segments[id]? a.segments[id]?

@[inherit_doc SegmentMeta.Alike]
abbrev Model.Alike (x : Model Records × Result Unit) (y : Segments × Result Unit) : Prop :=
  x.1.Refines keyHash y.1 ∧ x.2 = y.2

theorem Model.refines_start : Model.Refines keyHash Model.start Model.start :=
  ⟨rfl, fun id => by
    rw [Model.start, Model.start, Std.ExtTreeMap.getElem?_empty, Std.ExtTreeMap.getElem?_empty]
    exact .none⟩

end Refinement

variable {record : Record}

namespace SegmentMeta

variable {keyHash : SmallKey → Nat} {sorter : Keys.Sorter} {s : SegmentMeta Records} {t : Segment}

section

variable (h : s.Refines keyHash t)
include h

theorem Refines.isOpen (op : t.sealed = false) : s.records.Lists keyHash true t.records := by
  obtain ⟨_, lists, same⟩ := h.records
  rw [same op] at lists
  exact lists

theorem Refines.insert (slot offset : Nat) (fits : record.key.Fits)
    (checksum : record.checksum < 2 ^ 64) :
    Alike keyHash (s.insert (ops keyHash sorter) slot offset record)
      (t.insert ops slot offset record) := by
  obtain ⟨_, lists, -⟩ := h.records
  have overlaps : (ops keyHash sorter).overlaps s.records offset record.len =
      ops.overlaps t.records offset record.len := lists.overlaps offset record.len
  unfold SegmentMeta.insert
  rw [h.slot, h.sealed, h.durableEnd, overlaps]
  split
  · exact ⟨h, rfl⟩
  · rename_i allowed
    split
    · exact ⟨h, rfl⟩
    · split
      · exact ⟨h, rfl⟩
      · rename_i free
        have isOpen : t.sealed = false := by
          cases sealed : t.sealed with
          | false => rfl
          | true => exact absurd (.inr (.inl sealed)) allowed
        have free' : s.records.overlaps offset record.len = false := by
          rw [Bool.not_eq_true] at free
          rw [lists.overlaps]
          exact free
        obtain ⟨listed, result⟩ := (h.isOpen isOpen).insert fits checksum free'
        refine ⟨⟨rfl, ?_, rfl, ?_, rfl, true, listed, fun _ => rfl⟩, result⟩
        · exact congrArg (max · (offset + record.len)) h.bytes
        · exact congrArg (addU64 · (37 + keyLen record.key)) h.metadata

theorem Refines.delete (offset : Nat) :
    Alike keyHash (s.delete (ops keyHash sorter) offset) (t.delete ops offset) := by
  obtain ⟨op, lists, flag⟩ := h.records
  have removed := lists.remove offset
  unfold SegmentMeta.delete
  cases found : remove t.records offset with
  | none =>
    rw [found] at removed
    have same : (ops keyHash sorter).remove s.records offset = none := removed
    have same' : ops.remove t.records offset = none := found
    rw [same, same']
    exact ⟨h, rfl⟩
  | some es' =>
    rw [found] at removed
    obtain ⟨r', same, lists'⟩ := removed
    have here : (ops keyHash sorter).remove s.records offset = some r' := same
    have there : ops.remove t.records offset = some es' := found
    rw [here, there]
    exact ⟨⟨h.slot, h.bytes, h.durableEnd, congrArg (addU64 · 21) h.metadata, h.sealed, op, lists',
      flag⟩, rfl⟩

theorem Refines.sealUp : (s.sealUp (ops keyHash sorter)).Refines keyHash (t.sealUp ops) := by
  obtain ⟨_, lists, -⟩ := h.records
  exact ⟨h.slot, h.bytes, h.bytes, h.metadata, rfl, false, lists.sealUp sorter, nofun⟩

theorem Refines.flush (durableEnd : Nat) :
    Alike keyHash (s.flush (ops keyHash sorter) durableEnd) (t.flush ops durableEnd) := by
  obtain ⟨op, lists, flag⟩ := h.records
  have crosses : (ops keyHash sorter).crosses s.records durableEnd =
      ops.crosses t.records durableEnd := lists.crosses durableEnd
  unfold SegmentMeta.flush
  rw [h.sealed, h.durableEnd, h.bytes, crosses]
  split
  · exact ⟨h, rfl⟩
  · exact ⟨⟨h.slot, rfl, rfl, h.metadata, rfl, op, lists, flag⟩, rfl⟩

theorem Refines.recover : Alike keyHash (s.recover (ops keyHash sorter)) (t.recover ops) := by
  obtain ⟨_, lists, -⟩ := h.records
  have before : (ops keyHash sorter).before s.records t.durableEnd =
      ops.before t.records t.durableEnd := lists.before t.durableEnd
  have metadata : s.recoveredMetadata (ops keyHash sorter) =
      t.recoveredMetadata ops := by
    unfold recoveredMetadata
    rw [h.sealed, h.metadata, h.durableEnd, before]
  unfold SegmentMeta.recover
  rw [h.sealed, h.durableEnd, metadata]
  split
  · exact ⟨h, rfl⟩
  · exact ⟨⟨h.slot, rfl, rfl, rfl, rfl, false, (lists.retainBefore t.durableEnd).sealUp sorter,
      nofun⟩, rfl⟩

end

end SegmentMeta

namespace Model

variable {keyHash : SmallKey → Nat} {sorter : Keys.Sorter} {m : Model Records} {a : Segments}

section

variable (h : m.Refines keyHash a)
include h

theorem Refines.put {s : SegmentMeta Records} {t : Segment} (id next : Nat)
    (refines : s.Refines keyHash t) :
    Refines keyHash { segments := m.segments.insert id s, next }
      { segments := a.segments.insert id t, next } := by
  refine ⟨rfl, fun other => ?_⟩
  rw [getElem?_insert_nat, getElem?_insert_nat]
  split
  · exact .some refines
  · exact h.segments other

theorem Refines.erase (id : Nat) :
    Refines keyHash { m with segments := m.segments.erase id }
      { a with segments := a.segments.erase id } := by
  refine ⟨h.next, fun other => ?_⟩
  rw [getElem?_erase_nat, getElem?_erase_nat]
  split
  · exact .none
  · exact h.segments other

theorem Refines.update (id : Nat) (missing : String)
    {f : SegmentMeta Records → SegmentMeta Records × Result Unit}
    {g : Segment → Segment × Result Unit}
    (each : ∀ s t, s.Refines keyHash t → SegmentMeta.Alike keyHash (f s) (g t)) :
    Alike keyHash (m.update id missing f) (a.update id missing g) := by
  have here := h.segments id
  unfold Model.update
  generalize m.segments[id]? = mine at here ⊢
  generalize a.segments[id]? = theirs at here ⊢
  cases here with
  | none => exact ⟨h, rfl⟩
  | some refines =>
    obtain ⟨next, result⟩ := each _ _ refines
    exact ⟨⟨h.next, (h.put id m.next next).segments⟩, result⟩

theorem Refines.setNext (next : Nat) : Alike keyHash (m.setNext next) (a.setNext next) := by
  unfold Model.setNext
  split
  · exact ⟨h, rfl⟩
  · exact ⟨⟨congrArg (max · next) h.next, h.segments⟩, rfl⟩

theorem Refines.insert (slot segment offset : Nat) (fits : record.key.Fits)
    (checksum : record.checksum < 2 ^ 64) :
    Alike keyHash (m.insert (ops keyHash sorter) slot segment offset record)
      (a.insert ops slot segment offset record) := by
  have refines : ((m.segments[segment]?).getD (.empty (ops keyHash sorter) slot)).Refines
      keyHash ((a.segments[segment]?).getD (.empty ops slot)) := by
    have here := h.segments segment
    generalize m.segments[segment]? = mine at here ⊢
    generalize a.segments[segment]? = theirs at here ⊢
    cases here with
    | none => exact ⟨rfl, rfl, rfl, rfl, rfl, true, lists_empty keyHash, fun _ => rfl⟩
    | some refines => exact refines
  unfold Model.insert
  rw [h.next]
  split
  · exact ⟨h, rfl⟩
  · split
    · exact ⟨h, rfl⟩
    · obtain ⟨next, result⟩ := refines.insert slot offset fits checksum
      exact ⟨h.put segment _ next, result⟩

theorem Refines.sealSegment (id : Nat) (missing : String) :
    Alike keyHash (m.sealSegment (ops keyHash sorter) id missing)
      (a.sealSegment ops id missing) :=
  h.update id missing fun _ _ refines => ⟨refines.sealUp, rfl⟩

theorem Refines.replace (old : Nat) (new : Option Nat) :
    Alike keyHash (m.replace (ops keyHash sorter) old new) (a.replace ops old new) := by
  cases new with
  | none => exact ⟨h.erase old, rfl⟩
  | some new =>
    obtain ⟨refines, result⟩ := h.sealSegment new "replacement missing segment"
    simp only [Model.replace]
    split
    · exact ⟨h, rfl⟩
    · generalize m.sealSegment (ops keyHash sorter) new "replacement missing segment" = mine
        at refines result ⊢
      generalize a.sealSegment ops new "replacement missing segment" = theirs
        at refines result ⊢
      obtain ⟨_, r⟩ := mine
      obtain ⟨_, _⟩ := theirs
      cases result
      cases r with
      | error => exact ⟨refines, rfl⟩
      | ok => exact ⟨refines.erase old, rfl⟩

theorem Refines.apply {e : Event} (fits : e.Fits) :
    Alike keyHash (m.apply (ops keyHash sorter) e) (a.apply ops e) := by
  cases e with
  | setNext next => exact h.setNext next
  | insert slot segment offset =>
    obtain ⟨-, -, -, -, checksum, key⟩ := fits
    exact h.insert slot segment offset key checksum
  | delete segment offset =>
    exact h.update segment _ fun s t refines => refines.delete offset
  | sealSegment segment => exact h.sealSegment segment _
  | flush segment durableEnd =>
    exact h.update segment _ fun s t refines => refines.flush durableEnd
  | recover segment =>
    exact h.update segment _ fun s t refines => refines.recover
  | replace old new => exact h.replace old new

end

end Model

/-! ## The invariant of the segments -/

variable {slot : Nat} {es : List Entry} {t' : Segment}

namespace SegmentMeta

structure Wf (t : Segment) : Prop where
  slot : t.slot < 2 ^ 64
  bytes : t.bytes ≤ Records.maxOffset
  metadata : t.metadata < 2 ^ 64
  sorted : Sorted (fun e : Entry => e.1) t.records
  apart : Apart (fun e : Entry => e.1) (fun e => e.2.len) t.records
  valid : ∀ e ∈ t.records, e.2.Valid e.1
  inside : ∀ e ∈ t.records, e.1 + e.2.len ≤ t.bytes
  whole : ∀ e ∈ t.records, e.1 < t.durableEnd → e.1 + e.2.len ≤ t.durableEnd
  durable : t.durableEnd ≤ t.bytes
  full : t.sealed = true → t.durableEnd = t.bytes
  room : Entries.keyBytes t.records ≤ u32Max

theorem wf_empty (h : slot < 2 ^ 64) : Wf (.empty ops slot) where
  slot := h
  bytes := zero_le _
  metadata := (by decide : 8 < 2 ^ 64)
  sorted := .nil
  apart := .nil
  valid := forall_mem_nil _
  inside := forall_mem_nil _
  whole := forall_mem_nil _
  durable := le_refl _
  full := nofun
  room := zero_le _

variable {offset : Nat} {t : Segment}

theorem put_perm (es : List Entry) (offset : Nat) (record : Record) :
    (put es offset record).Perm ((offset, record) :: es) := by
  have both := filter_append_perm (fun e : Entry => decide (e.1 < offset)) es
  have other : es.filter (fun e => !decide (e.1 < offset)) = es.filter fun e => offset ≤ e.1 :=
    filter_congr fun e _ => by
      rw [Bool.eq_iff_iff]
      simp
  rw [other] at both
  exact perm_middle.trans (both.cons _)

theorem forall_mem_put {P : Entry → Prop} (new : P (offset, record)) (old : ∀ e ∈ es, P e) :
    ∀ e ∈ put es offset record, P e := by
  intro e mem
  rcases mem_cons.mp ((put_perm es offset record).mem_iff.mp mem) with rfl | there
  · exact new
  · exact old e there

variable (h : t.Wf)
include h

theorem Wf.put (valid : record.Valid offset)
    (free : overlaps t.records offset record.len = false) (durable : t.durableEnd ≤ offset)
    (isOpen : t.sealed = false) (metadata : Nat) (small : metadata < 2 ^ 64)
    (room : keyBytes t.records + (KeyCodec.encode record.key).length ≤ u32Max) :
    Wf { t with
      bytes := max t.bytes (offset + record.len), metadata
      records := put t.records offset record } := by
  obtain ⟨-, _, -, within⟩ := validExtent_bounds valid.extent
  have gap : ∀ e ∈ t.records, e.1 + e.2.len ≤ offset ∨ offset + record.len ≤ e.1 := by
    intro e mem
    rw [Entries.overlaps, any_eq_false] at free
    have clear := free e mem
    simp at clear
    omega
  have all := forall_mem_put valid h.valid
  have apart : Apart (fun e : Entry => e.1) (fun e => e.2.len)
      (Entries.put t.records offset record) := by
    unfold Entries.put
    rw [Apart, pairwise_append, pairwise_cons]
    refine ⟨h.apart.sublist filter_sublist, ⟨fun e mem => ?_,
      h.apart.sublist filter_sublist⟩, fun e memE => forall_mem_cons.mpr ⟨?_, fun f memF => ?_⟩⟩
    · obtain ⟨inside, above⟩ := mem_filter.mp mem
      have apartFrom := gap e inside
      have long := (validExtent_bounds (h.valid e inside).extent).2.1
      rw [decide_eq_true_eq] at above
      change offset + record.len ≤ e.1
      omega
    · obtain ⟨inside, below⟩ := mem_filter.mp memE
      have apartFrom := gap e inside
      rw [decide_eq_true_eq] at below
      omega
    · obtain ⟨inside, below⟩ := mem_filter.mp memE
      obtain ⟨-, above⟩ := mem_filter.mp memF
      have apartFrom := gap e inside
      rw [decide_eq_true_eq] at below above
      omega
  refine ⟨h.slot, Nat.max_le.mpr ⟨h.bytes, within⟩, small, ?_, apart, all, ?_, ?_, ?_, ?_, ?_⟩
  · refine apart.imp_of_mem fun {e f} mem _ order => ?_
    have long := (validExtent_bounds (all e mem).extent).2.1
    dsimp only at order ⊢
    omega
  · refine forall_mem_put (le_max_right _ _) fun e old => ?_
    exact le_trans (h.inside e old) (le_max_left _ _)
  · exact forall_mem_put (fun low => absurd low (not_lt.mpr durable)) h.whole
  · exact le_trans h.durable (le_max_left _ _)
  · intro sealed
    rw [isOpen] at sealed
    cases sealed
  · have sums :=
      ((put_perm t.records offset record).map fun e => (KeyCodec.encode e.2.key).length).sum_nat
    rw [map_cons, sum_cons, add_comm] at sums
    exact sums.trans_le room

theorem Wf.insert (fits : record.key.Fits) (checksum : record.checksum < 2 ^ 64)
    (ok : t.insert ops slot offset record = (t', .ok ())) : t'.Wf := by
  unfold SegmentMeta.insert at ok
  split at ok
  · cases ok
  · rename_i allowed
    split at ok
    · cases ok
    · split at ok
      · cases ok
      · rename_i free
        have free' : overlaps t.records offset record.len = false := Bool.not_eq_true _ ▸ free
        have isOpen : t.sealed = false := by
          cases sealed : t.sealed with
          | false => rfl
          | true => exact absurd (.inr (.inl sealed)) allowed
        change ({ t with
            bytes := max t.bytes (offset + record.len)
            metadata := addU64 t.metadata (37 + keyLen record.key)
            records := (Entries.insert t.records offset record).1 },
          (Entries.insert t.records offset record).2) = (t', .ok ()) at ok
        unfold Entries.insert at ok
        cases key : validateKey record.key with
        | error =>
          rw [key] at ok
          cases ok
        | ok =>
          rw [key] at ok
          by_cases extent : validExtent offset record = true
          · simp only [extent, Bool.not_true, Bool.false_eq_true, if_false] at ok
            split at ok
            · rename_i room
              cases ok
              exact h.put ⟨fits, checksum, key, extent⟩ free' (by omega) isOpen _
                (mod_lt _ (by decide)) room
            · cases ok
          · rw [Bool.not_eq_true] at extent
            simp only [extent, Bool.not_false, if_true] at ok
            cases ok

theorem Wf.fewer (part : es.Sublist t.records) {bytes durableEnd metadata : Nat}
    {sealed : Bool} (small : metadata < 2 ^ 64) (inside : ∀ e ∈ es, e.1 + e.2.len ≤ bytes)
    (whole : ∀ e ∈ es, e.1 < durableEnd → e.1 + e.2.len ≤ durableEnd) (durable : durableEnd ≤ bytes)
    (limit : bytes ≤ maxOffset) (full : sealed = true → durableEnd = bytes) :
    Wf { slot := t.slot, bytes, durableEnd, metadata, sealed, records := es } where
  slot := h.slot
  bytes := limit
  metadata := small
  sorted := h.sorted.sublist part
  apart := h.apart.sublist part
  valid := fun e mem => h.valid e (part.subset mem)
  inside := inside
  whole := whole
  durable := durable
  full := full
  room := by
    have lengths := (part.map fun e => KeyCodec.encode e.2.key).flatten.length_le
    rw [length_flatten, length_flatten, map_map, map_map] at lengths
    exact le_trans lengths h.room

theorem Wf.delete (ok : t.delete Entries.ops offset = (t', .ok ())) : t'.Wf := by
  have same : Entries.ops.remove t.records offset = Entries.remove t.records offset := rfl
  rw [SegmentMeta.delete, same, Entries.remove] at ok
  split at ok
  · cases ok
  · rename_i records found
    split at found
    · cases found
      cases ok
      exact h.fewer filter_sublist (mod_lt _ (by decide))
        (fun e mem => h.inside e (mem_of_mem_filter mem))
        (fun e mem => h.whole e (mem_of_mem_filter mem)) h.durable h.bytes h.full
    · cases found

theorem Wf.sealUp : (t.sealUp ops).Wf :=
  h.fewer (List.Sublist.refl _) h.metadata h.inside (fun e mem _ => h.inside e mem)
    (le_refl _) h.bytes fun _ => rfl

theorem Wf.flush {durableEnd : Nat} (ok : t.flush ops durableEnd = (t', .ok ())) : t'.Wf := by
  unfold SegmentMeta.flush at ok
  split at ok
  · cases ok
  · rename_i allowed
    simp only [not_or, Bool.not_eq_true] at allowed
    obtain ⟨isOpen, -, -, inside, crosses⟩ := allowed
    cases ok
    refine h.fewer (List.Sublist.refl _) h.metadata h.inside (fun e mem low => ?_) (by omega)
      h.bytes (fun sealed => by rw [isOpen] at sealed; cases sealed)
    change Entries.crosses t.records durableEnd = false at crosses
    rw [Entries.crosses, any_eq_false] at crosses
    have clear := crosses e mem
    simp only [Bool.and_eq_true, decide_eq_true_eq, not_and] at clear
    exact not_lt.mp (clear low)

omit h

theorem metadata_le (es : List Entry) (valid : ∀ e ∈ es, e.2.Valid e.1) :
    (es.map fun e => 37 + keyLen e.2.key).sum ≤ 65573 * (es.map fun e => e.2.len).sum := by
  induction es with
  | nil => exact zero_le _
  | cons e _ ih =>
    have rest := ih fun f mem => valid f (mem_cons_of_mem _ mem)
    have here := valid e mem_cons_self
    have positive := (validExtent_bounds here.extent).2.1
    have short := (validateKey_ok here.key).2
    unfold maxKey at short
    rw [map_cons, map_cons, sum_cons, sum_cons]
    omega

include h

theorem Wf.recovered_lt : t.recoveredMetadata ops < 2 ^ 64 := by
  unfold recoveredMetadata
  split
  · exact h.metadata
  · have part : (before t.records t.durableEnd).Sublist t.records := filter_sublist
    have lengths := sum_size_le (h.apart.sublist part) (zero_le maxOffset)
      (fun _ _ => zero_le _)
      fun e mem => le_trans (h.inside e (part.subset mem)) h.bytes
    have bound := metadata_le (before t.records t.durableEnd)
      fun e mem => h.valid e (part.subset mem)
    unfold maxOffset at lengths
    change 8 + ((before t.records t.durableEnd).map fun e => 37 + keyLen e.2.key).sum < _
    omega

theorem Wf.recover (ok : t.recover ops = (t', .ok ())) : t'.Wf := by
  unfold SegmentMeta.recover at ok
  split at ok
  · cases ok
  · cases ok
    have low : ∀ e ∈ before t.records t.durableEnd, e.1 + e.2.len ≤ t.durableEnd := by
      intro e mem
      obtain ⟨inside, below⟩ := mem_filter.mp mem
      exact h.whole e inside (decide_eq_true_eq.mp below)
    exact h.fewer filter_sublist h.recovered_lt low (fun e mem _ => low e mem)
      (le_refl _) (le_trans h.durable h.bytes) fun _ => rfl

omit h

end SegmentMeta

namespace Model

structure Wf (a : Segments) : Prop where
  next_pos : 0 < a.next
  next : a.next < 2 ^ 64
  segment : ∀ (id : Nat) (t : Segment), a.segments[id]? = some t → 0 < id ∧ id < a.next ∧ t.Wf

theorem wf_start : Wf Model.start where
  next_pos := one_pos
  next := by decide
  segment := fun id t found => by
    rw [Model.start, Std.ExtTreeMap.getElem?_empty] at found
    cases found

variable {a a' : Segments}

section

variable (h : a.Wf)
include h

variable {id : Nat}

theorem Wf.put {next : Nat} {t : Segment} (positive : 0 < id) (below : id < next)
    (grows : a.next ≤ next) (small : next < 2 ^ 64) (wf : t.Wf) :
    Wf { segments := a.segments.insert id t, next } where
  next_pos := lt_of_lt_of_le h.next_pos grows
  next := small
  segment := by
    intro other u found
    rw [getElem?_insert_nat] at found
    split at found
    · rename_i same
      cases found
      subst same
      exact ⟨positive, below, wf⟩
    · obtain ⟨pos, low, wf'⟩ := h.segment other u found
      exact ⟨pos, lt_of_lt_of_le low grows, wf'⟩

theorem Wf.erase (id : Nat) : Wf { a with segments := a.segments.erase id } where
  next_pos := h.next_pos
  next := h.next
  segment := by
    intro other u found
    rw [getElem?_erase_nat] at found
    split at found
    · cases found
    · exact h.segment other u found

variable {missing : String}

theorem Wf.update {g : Segment → Segment × Result Unit}
    (each : ∀ t t' : Segment, t.Wf → g t = (t', .ok ()) → t'.Wf)
    (ok : a.update id missing g = (a', .ok ())) : a'.Wf := by
  unfold Model.update at ok
  split at ok
  · cases ok
  · rename_i t found
    obtain ⟨positive, below, wf⟩ := h.segment id t found
    have result : (g t).2 = .ok () := congrArg Prod.snd ok
    have wf' := each t (g t).1 wf (by rw [← result])
    have put := h.put positive below (le_refl _) h.next wf'
    obtain ⟨rfl, -⟩ := Prod.mk.inj ok
    exact put

theorem Wf.insert {segment offset : Nat} (fits : (Event.insert slot segment offset record).Fits)
    (ok : a.insert ops slot segment offset record = (a', .ok ())) : a'.Wf := by
  obtain ⟨slotFits, -, -, -, checksum, key⟩ := fits
  unfold Model.insert at ok
  split at ok
  · cases ok
  · split at ok
    · cases ok
    · have wf : ((a.segments[segment]?).getD (.empty ops slot)).Wf := by
        cases found : a.segments[segment]? with
        | none => exact SegmentMeta.wf_empty slotFits
        | some t => exact (h.segment segment t found).2.2
      obtain ⟨rfl, result⟩ := Prod.mk.inj ok
      have wf' := wf.insert key checksum (Prod.ext rfl result)
      have limit := h.next
      exact h.put (by omega) (by omega) (le_max_left _ _) (by omega) wf'

theorem Wf.sealSegment (ok : a.sealSegment ops id missing = (a', .ok ())) : a'.Wf :=
  h.update (fun t t' wf same => by cases same; exact wf.sealUp) ok

theorem Wf.replace {old : Nat} {new : Option Nat}
    (ok : a.replace ops old new = (a', .ok ())) : a'.Wf := by
  cases new with
  | none =>
    cases ok
    exact h.erase old
  | some =>
    simp only [Model.replace] at ok
    split at ok
    · cases ok
    · split at ok
      · cases ok
      · rename_i sealed same
        cases ok
        exact (h.sealSegment same).erase old

theorem Wf.apply {e : Event} (fits : e.Fits) (ok : a.apply ops e = (a', .ok ())) : a'.Wf := by
  cases e with
  | setNext next =>
    simp only [Model.apply, Model.setNext] at ok
    split at ok
    · cases ok
    · cases ok
      have limit := h.next
      have positive := h.next_pos
      change next < 2 ^ 64 at fits
      refine ⟨?_, ?_, fun id t found => ?_⟩
      · change 0 < max a.next next
        omega
      · change max a.next next < 2 ^ 64
        omega
      · obtain ⟨pos, low, wf⟩ := h.segment id t found
        exact ⟨pos, lt_of_lt_of_le low (le_max_left _ _), wf⟩
  | insert => exact h.insert fits ok
  | delete => exact h.update (fun t t' wf same => wf.delete same) ok
  | sealSegment => exact h.sealSegment ok
  | flush => exact h.update (fun t t' wf same => wf.flush same) ok
  | recover => exact h.update (fun t t' wf same => wf.recover same) ok
  | replace => exact h.replace ok

end

end Model

end Talon.SmallStore
