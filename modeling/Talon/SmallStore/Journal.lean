import Talon.SmallStore.RecordsSpec

/-!
# The journal's model of the segments

`small_store/journal/model.rs`: the state that the journal's events build, the events and their
bytes, and the snapshot.  `apply` returns the state it leaves also when it rejects an event, because
the source has no transaction around it.

Everything is stated for any storage of a segment's records.  `Records.ops` is the source's;
`Entries.ops` is the plain list of entries that it stands for.
-/

set_option autoImplicit false

namespace Talon.SmallStore

open Wire

structure RecordOps (R : Type) where
  empty : R
  iter : R → List Entry
  before : R → Nat → List Entry
  overlaps : R → Nat → Nat → Bool
  crosses : R → Nat → Bool
  insert : R → Nat → Record → R × Result Unit
  remove : R → Nat → Option R
  retainBefore : R → Nat → R
  sealUp : R → R

def Records.ops (keyHash : SmallKey → Nat) (sorter : Keys.Sorter) : RecordOps Records where
  empty := {}
  iter := Records.iter
  before := Records.before
  overlaps := Records.overlaps
  crosses := Records.crosses
  insert := fun r offset record =>
    ((r.insert keyHash offset record).1, (r.insert keyHash offset record).2.map fun _ => ())
  remove := Records.remove
  retainBefore := Records.retainBefore
  sealUp := fun r => r.sealUp sorter

def Entries.ops : RecordOps (List Entry) where
  empty := []
  iter := id
  before := Entries.before
  overlaps := Entries.overlaps
  crosses := Entries.crosses
  insert := Entries.insert
  remove := Entries.remove
  retainBefore := Entries.before
  sealUp := id

structure SegmentMeta (R : Type) where
  slot : Nat
  bytes : Nat
  durableEnd : Nat
  metadata : Nat
  sealed : Bool
  records : R
deriving DecidableEq

structure Model (R : Type) where
  segments : Std.ExtTreeMap Nat (SegmentMeta R) := ∅
  next : Nat := 0

inductive Event
  | insert (slot segment offset : Nat) (record : Record)
  | delete (segment offset : Nat)
  | sealSegment (segment : Nat)
  | flush (segment durableEnd : Nat)
  | recover (segment : Nat)
  | setNext (next : Nat)
  | replace (old : Nat) (new : Option Nat)
deriving DecidableEq

section Apply

variable {R : Type} (ops : RecordOps R)

/-- `+=` on a `u64`. -/
def addU64 (a b : Nat) : Nat := (a + b) % 2 ^ 64

def SegmentMeta.recoveredMetadata (s : SegmentMeta R) : Nat :=
  if s.sealed then s.metadata
  else 8 + ((ops.before s.records s.durableEnd).map fun e => 37 + keyLen e.2.key).sum

def SegmentMeta.empty (slot : Nat) : SegmentMeta R := ⟨slot, 0, 0, 8, false, ops.empty⟩

/-- What `Seal` and the new segment of a `Replace` become. -/
def SegmentMeta.sealUp (s : SegmentMeta R) : SegmentMeta R :=
  { s with durableEnd := s.bytes, sealed := true, records := ops.sealUp s.records }

/-- `Insert` into a segment that exists. -/
def SegmentMeta.insert (s : SegmentMeta R) (slot offset : Nat) (record : Record) :
    SegmentMeta R × Result Unit :=
  if s.slot ≠ slot ∨ s.sealed ∨ offset < s.durableEnd then
    (s, .error "insert into sealed/wrong stream")
  else if offset + record.len ≥ 2 ^ 64 then (s, .error "extent overflow")
  else if ops.overlaps s.records offset record.len then (s, .error "overlapping journal extent")
  else
    let (records, result) := ops.insert s.records offset record
    ({ s with
        bytes := max s.bytes (offset + record.len)
        metadata := addU64 s.metadata (37 + keyLen record.key)
        records }, result)

def SegmentMeta.flush (s : SegmentMeta R) (durableEnd : Nat) : SegmentMeta R × Result Unit :=
  if s.sealed ∨ durableEnd = 0 ∨ durableEnd < s.durableEnd ∨ durableEnd > s.bytes ∨
      ops.crosses s.records durableEnd then
    (s, .error "invalid durable segment boundary")
  else ({ s with durableEnd }, .ok ())

def SegmentMeta.recover (s : SegmentMeta R) : SegmentMeta R × Result Unit :=
  if s.sealed ∨ s.durableEnd = 0 then (s, .error "invalid segment recovery")
  else
    ({ s with
        metadata := s.recoveredMetadata ops
        records := ops.sealUp (ops.retainBefore s.records s.durableEnd)
        bytes := s.durableEnd
        sealed := true }, .ok ())

def SegmentMeta.delete (s : SegmentMeta R) (offset : Nat) : SegmentMeta R × Result Unit :=
  match ops.remove s.records offset with
  | none => (s, .error "delete missing record")
  | some records => ({ s with records, metadata := addU64 s.metadata 21 }, .ok ())

namespace Model

def update (m : Model R) (segment : Nat) (missing : String)
    (f : SegmentMeta R → SegmentMeta R × Result Unit) : Model R × Result Unit :=
  match m.segments[segment]? with
  | none => (m, .error missing)
  | some s => ({ m with segments := m.segments.insert segment (f s).1 }, (f s).2)

def setNext (m : Model R) (next : Nat) : Model R × Result Unit :=
  if next = 0 then (m, .error "zero segment allocator")
  else ({ m with next := max m.next next }, .ok ())

def insert (m : Model R) (slot segment offset : Nat) (record : Record) : Model R × Result Unit :=
  if segment = 0 then (m, .error "zero segment id")
  else if segment + 1 ≥ 2 ^ 64 then (m, .error "segment id overflow")
  else
    let s := (m.segments[segment]?).getD (.empty ops slot)
    let (s, result) := s.insert ops slot offset record
    ({ segments := m.segments.insert segment s, next := max m.next (segment + 1) }, result)

def sealSegment (m : Model R) (segment : Nat) (missing : String) : Model R × Result Unit :=
  m.update segment missing fun s => (s.sealUp ops, .ok ())

def replace (m : Model R) (old : Nat) : Option Nat → Model R × Result Unit
  | none => ({ m with segments := m.segments.erase old }, .ok ())
  | some new =>
    if old = new then (m, .error "self relocation")
    else
      match m.sealSegment ops new "replacement missing segment" with
      | (m, .error e) => (m, .error e)
      -- an empty standby or active file has no `Insert` record, so `old` may be missing
      | (m, .ok ()) => ({ m with segments := m.segments.erase old }, .ok ())

def apply (m : Model R) : Event → Model R × Result Unit
  | .setNext next => m.setNext next
  | .insert slot segment offset record => m.insert ops slot segment offset record
  | .delete segment offset =>
    m.update segment "delete missing segment" fun s => s.delete ops offset
  | .sealSegment segment => m.sealSegment ops segment "seal missing segment"
  | .flush segment durableEnd =>
    m.update segment "flush missing segment" fun s => s.flush ops durableEnd
  | .recover segment =>
    m.update segment "recover missing segment" fun s => s.recover ops
  | .replace old new => m.replace ops old new

end Model

end Apply

/-! ## The bytes of an event -/

namespace Event

def u64s (ns : List Nat) : Bytes := ns.flatMap (leBytes 8)

def encode : Event → Result Bytes
  | .setNext next => .ok (5 :: u64s [next])
  | .insert slot segment offset record => do
    let key ← encodeKey record.key
    return 0 :: (u64s [slot, segment, offset, record.len, record.checksum] ++ key)
  | .delete segment offset => .ok (1 :: u64s [segment, offset])
  | .sealSegment segment => .ok (2 :: u64s [segment])
  | .flush segment durableEnd => .ok (6 :: u64s [segment, durableEnd])
  | .recover segment => .ok (7 :: u64s [segment])
  | .replace old new => .ok (3 :: u64s [old, new.getD 0])

def finish (e : Event) (b : Bytes) : Result Event :=
  if b.isEmpty then .ok e else .error "journal trailing bytes"

def decodeInsert (b : Bytes) : Result Event := do
  let (slot, b) ← u64 b
  let (segment, b) ← u64 b
  let (offset, b) ← u64 b
  let (len, b) ← u64 b
  let (checksum, b) ← u64 b
  let key ← view b
  if len > Records.maxLen ∨ ¬ key.validExtent len then .error "journal extent"
  else .ok (.insert slot segment offset ⟨key, len, checksum⟩)

def decode : Bytes → Result Event
  | [] => .error "missing operation"
  | kind :: b =>
    match kind with
    | 5 => do
      let (next, b) ← u64 b
      finish (.setNext next) b
    | 0 => decodeInsert b
    | 1 => do
      let (segment, b) ← u64 b
      let (offset, b) ← u64 b
      finish (.delete segment offset) b
    | 2 => do
      let (segment, b) ← u64 b
      finish (.sealSegment segment) b
    | 6 => do
      let (segment, b) ← u64 b
      let (durableEnd, b) ← u64 b
      finish (.flush segment durableEnd) b
    | 7 => do
      let (segment, b) ← u64 b
      finish (.recover segment) b
    | 3 => do
      let (old, b) ← u64 b
      let (new, b) ← u64 b
      finish (.replace old (if new ≠ 0 then some new else none)) b
    | _ => .error "journal operation"

end Event

/-! ## Snapshots -/

inductive SnapshotRecord (R : Type)
  | next (next : Nat)
  | segment (id : Nat) (s : SegmentMeta R)
  | insert (event : Event)

section Snapshot

variable {R : Type} (ops : RecordOps R)

namespace Model

def snapshotHeader (id : Nat) (s : SegmentMeta R) : Bytes :=
  8 :: (Event.u64s [id, s.slot, s.bytes, s.metadata] ++ (if s.sealed then 1 else 0) ::
    leBytes 8 s.durableEnd)

def snapshotSegment (p : Nat × SegmentMeta R) : List (Result Bytes) :=
  .ok (snapshotHeader p.1 p.2) :: (ops.iter p.2.records).map fun e =>
    (Event.insert p.2.slot p.1 e.1 e.2).encode

def snapshot (m : Model R) : List (Result Bytes) :=
  .ok (5 :: leBytes 8 m.next) :: m.segments.toList.flatMap (snapshotSegment ops)

def decodeSealed : Bytes → Result (Bool × Bytes)
  | [] => .error "missing operation"
  | b :: rest =>
    if b = 0 then .ok (false, rest) else if b = 1 then .ok (true, rest)
    else .error "snapshot seal"

def decodeHeader (kind : UInt8) (b : Bytes) : Result (SnapshotRecord R) := do
  let (id, b) ← u64 b
  let (slot, b) ← u64 b
  let (bytes, b) ← u64 b
  let (metadata, b) ← u64 b
  let (sealed, b) ← decodeSealed b
  let (durableEnd, b) ←
    if kind = 8 then u64 b else .ok (if sealed then bytes else 0, b)
  if ¬ b.isEmpty ∨ durableEnd > bytes ∨ (sealed ∧ durableEnd ≠ bytes) then
    .error "invalid snapshot segment header"
  else .ok (.segment id ⟨slot, bytes, durableEnd, metadata, sealed, ops.empty⟩)

def decodeSnapshot : Bytes → Result (SnapshotRecord R)
  | [] => .error "missing operation"
  | kind :: b =>
    match kind with
    | 5 => do
      let (next, b) ← u64 b
      if ¬ b.isEmpty ∨ next = 0 then .error "snapshot allocator" else .ok (.next next)
    | 4 => decodeHeader ops 4 b
    | 8 => decodeHeader ops 8 b
    | 0 => do
      let event ← Event.decode (0 :: b)
      return .insert event
    | _ => .error "snapshot operation"

/-- The snapshot has one segment after the other, so a new header ends the one before it. -/
def sealLast (m : Model R) : Model R :=
  match m.segments.maxKey? with
  | none => m
  | some id =>
    match m.segments[id]? with
    | none => m
    | some s =>
      if s.sealed then
        { m with segments := m.segments.insert id { s with records := ops.sealUp s.records } }
      else m

def restoreSegment (m : Model R) (id : Nat) (s : SegmentMeta R) : Model R × Result Unit :=
  let m := m.sealLast ops
  if id = 0 ∨ id ≥ m.next then (m, .error "snapshot segment")
  else
    let known := m.segments.contains id
    let m := { m with segments := m.segments.insert id s }
    if known then (m, .error "snapshot segment") else (m, .ok ())

def restoreInsert (s : SegmentMeta R) (slot offset : Nat) (record : Record) :
    SegmentMeta R × Result Unit :=
  if s.slot ≠ slot ∨ offset + record.len ≥ 2 ^ 64 ∨ offset + record.len > s.bytes ∨
      (offset < s.durableEnd ∧ offset + record.len > s.durableEnd) ∨
      ops.overlaps s.records offset record.len then (s, .error "snapshot extent")
  else
    let (records, result) := ops.insert s.records offset record
    ({ s with records }, result)

def restore (m : Model R) : SnapshotRecord R → Model R × Result Unit
  | .next next =>
    if ¬ m.segments.isEmpty then (m, .error "snapshot allocator order")
    else ({ m with next }, .ok ())
  | .segment id s => m.restoreSegment ops id s
  | .insert (.insert slot segment offset record) =>
    m.update segment "snapshot missing segment" fun s =>
      restoreInsert ops s slot offset record
  | .insert _ => (m, .error "snapshot insert")

def restoreAll (m : Model R) : List (Result Bytes) → Result (Model R)
  | [] => .ok m
  | record :: rest => do
    let bytes ← record
    let record ← decodeSnapshot ops bytes
    match m.restore ops record with
    | (_, .error e) => .error e
    | (m, .ok ()) => m.restoreAll rest

def start : Model R := { next := 1 }

end Model

end Snapshot

end Talon.SmallStore
