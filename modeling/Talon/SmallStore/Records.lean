import Talon.SmallStore.Keys

/-!
# The records of a segment

`small_store/records.rs`.  Rows are sorted by offset.  A deleted record stays as a row of length
zero until the rows are compacted, and an insertion at its offset takes that row again.
-/

set_option autoImplicit false

namespace Talon.SmallStore

open Wire

structure Record where
  key : SmallKey
  len : Nat
  checksum : Nat
deriving DecidableEq

/-- The fields of the 26 bytes of a row. -/
structure Row where
  offset : Nat
  len : Nat
  checksum : Nat
  hash : Nat
  keyLen : Nat
deriving DecidableEq

structure Metadata where
  offset : Nat
  len : Nat
  checksum : Nat
  hash : Nat
  charge : Nat
deriving DecidableEq

/-- `partition_point` of a sorted vector. -/
def partitionPoint {α : Type} (p : α → Bool) (l : List α) : Nat := (l.takeWhile p).length

def Row.live (w : Row) : Bool := w.len != 0

structure Records where
  rows : List Row := []
  keys : Keys := {}
  live : Nat := 0
deriving DecidableEq

namespace Records

def metadata (r : Records) (row : Nat) : Option Metadata :=
  match r.rows[row]? with
  | none => none
  | some w =>
    if w.len ≠ 0 then some ⟨w.offset, w.len, w.checksum, w.hash, w.len + w.keyLen + 25 + 37⟩
    else none

/-- A live row whose key cannot be read would be a panic of the source. -/
def get (r : Records) (row : Nat) : Option (Nat × Record) := do
  let m ← r.metadata row
  let (head, suffix) ← r.keys.get row
  let key ← KeyCodec.decode (head ++ suffix)
  return (m.offset, ⟨key, m.len, m.checksum⟩)

def slots (r : Records) : Nat := r.rows.length

def iter (r : Records) : List (Nat × Record) := (List.range r.slots).filterMap r.get

def before (r : Records) (stop : Nat) : List (Nat × Record) :=
  r.iter.takeWhile fun e => e.1 < stop

def position (r : Records) (offset : Nat) : Nat :=
  partitionPoint (fun w : Row => w.offset < offset) r.rows

def liveBefore (r : Records) (offset : Nat) : Option Row :=
  (r.rows.take (r.position offset)).reverse.find? Row.live

def overlaps (r : Records) (offset len : Nat) : Bool :=
  (r.liveBefore offset).any (fun w => w.offset + w.len > offset) ||
    ((r.rows.drop (r.position offset)).find? Row.live).any fun w => w.offset < offset + len

def crosses (r : Records) (stop : Nat) : Bool :=
  (r.liveBefore stop).any fun w => w.offset + w.len > stop

def compact (r : Records) : Records :=
  { r with
    keys := r.keys.retain fun row => (r.rows[row]?).any Row.live
    rows := r.rows.filter Row.live }

def maxOffset : Nat := 1 <<< 30

def maxLen : Nat := 128 <<< 20

def validExtent (offset : Nat) (record : Record) : Bool :=
  record.key.validExtent record.len && decide (offset < maxOffset ∧ record.len ≠ 0 ∧
    record.len ≤ maxLen ∧ offset + record.len ≤ maxOffset)

/-- The row of a record: offset and length are stored in 32 bits, the key length in 16. -/
def rowOf (keyHash : SmallKey → Nat) (offset : Nat) (record : Record) : Row :=
  ⟨offset % 2 ^ 32, record.len % 2 ^ 32, record.checksum, keyHash record.key,
    (keyLen record.key - 25) % 2 ^ 16⟩

def insert (keyHash : SmallKey → Nat) (r : Records) (offset : Nat) (record : Record) :
    Records × Result Nat :=
  match validateKey record.key with
  | .error e => (r, .error e)
  | .ok () =>
    if !validExtent offset record then (r, .error "invalid small-object record extent")
    else
      let row := rowOf keyHash offset record
      let key := KeyCodec.encode record.key
      let vacant := r.position offset
      if (r.rows[vacant]?).any fun w => w.offset == offset && w.len == 0 then
        match r.keys.insert vacant key true with
        | (keys, .error e) => ({ r with keys }, .error e)
        | (keys, .ok ()) =>
          ({ rows := r.rows.set vacant row, keys, live := r.live + 1 }, .ok vacant)
      else
        let index := partitionPoint (fun w : Row => w.offset ≤ offset) r.rows
        match r.keys.insert index key false with
        | (keys, .error e) => ({ r with keys }, .error e)
        | (keys, .ok ()) =>
          ({ rows := r.rows.insertIdx index row, keys, live := r.live + 1 }, .ok index)

def compactsAfterRemove (r : Records) : Bool :=
  decide ((r.rows.length - r.live + 1) * 100 ≥ r.rows.length)

def indexOf (r : Records) (offset : Nat) : Option Nat :=
  ((r.rows.drop (r.position offset)).takeWhile fun w => w.offset == offset).findIdx? Row.live
    |>.map (r.position offset + ·)

def clear (w : Row) : Row := { w with len := 0 }

def remove (r : Records) (offset : Nat) : Option Records :=
  match r.indexOf offset with
  | none => none
  | some index =>
    let r :=
      { rows := r.rows.modify index clear
        keys := r.keys.remove index
        live := r.live - 1 : Records }
    if (r.rows.length - r.live) * 100 ≥ r.rows.length then some r.compact else some r

def retainBefore (r : Records) (stop : Nat) : Records :=
  compact
    { r with
      rows := r.rows.map fun w => if w.offset ≥ stop ∧ w.len ≠ 0 then clear w else w
      live := r.live - (r.rows.filter fun w => w.offset ≥ stop ∧ w.len ≠ 0).length }

def sealUp (r : Records) (sorter : Keys.Sorter) : Records := { r with keys := r.keys.sealUp sorter }

end Records

end Talon.SmallStore
