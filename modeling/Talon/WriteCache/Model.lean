import Mathlib.Logic.Equiv.List
import Talon.Core.Key
import Talon.Lib.CrashProg
import Talon.Lib.PartialMap

/-!
# The write-back cache

Durable staging of object bodies and the queue of generations waiting to be flushed.  Every
function that touches the directory is a program over the crash-prone file system; the state under
the lock is passed explicitly.  A generation is a body file and, written after it, a sidecar that
marks it as committed.

Sequence numbers and stager ids are natural numbers: a run would need `2^64` stage calls to see the
counters wrap.  The checksum and the JSON encoding of the sidecar are external.
-/

set_option autoImplicit false

namespace Talon.WriteCache

open CrashFs Talon.Core PartialMap

structure Sidecar where
  path : Str
  seq : Nat
  len : Nat
  checksum : UInt64
deriving DecidableEq

/-- The functions taken from other crates. -/
structure Externals where
  xxh3 : Bytes → UInt64
  toVec : Sidecar → Bytes

/-- A constant checksum, and a sidecar as the number of zero bytes that encodes it. -/
def Externals.sample : Externals where
  xxh3 _ := 0
  toVec s := List.replicate (Encodable.encode
    (s.path.map Char.toNat, s.seq, s.len, s.checksum.toNat)) 0

structure Entry where
  seq : Nat
  len : Nat
  checksum : UInt64
deriving DecidableEq

structure FlushItem where
  object : ObjectId
  seq : Nat
  bytes : Bytes
deriving DecidableEq

structure Inner where
  pending : ObjectId → Option Entry
  inflight : ObjectId → Option Entry
  queue : List ObjectId
  failed : ObjectId → Option Entry

def Inner.default : Inner := ⟨empty, empty, [], empty⟩

structure Cache where
  nextSeq : Nat
  counter : Nat
  inner : Inner

/-- The common part of a generation's two file names, `<hash>-<seq>`. -/
structure Stem where
  hash : UInt64
  seq : Nat
deriving DecidableEq

/-- The files under the cache root: `staging/*.staged`, `*.data` and `*.meta`. -/
inductive Name
  | staged (id : Nat) (checksum : UInt64)
  | data (stem : Stem)
  | sidecar (stem : Stem)
deriving DecidableEq

def writebackDir : Name → Bool
  | .staged _ _ => false
  | _ => true

def stagingDir : Name → Bool
  | .staged _ _ => true
  | _ => false

variable (sys : Externals)

def asBytes (s : Str) : Bytes := (String.ofList s).toUTF8.toList

def fileStem (object : ObjectId) (seq : Nat) : Stem := ⟨sys.xxh3 (asBytes object.toPath), seq⟩

def dataPath (object : ObjectId) (seq : Nat) : Name := .data (fileStem sys object seq)

def metaPath (object : ObjectId) (seq : Nat) : Name := .sidecar (fileStem sys object seq)

/-- `Stager::commit` without an expected checksum: write a staged file, sync it, rename it. -/
def commit (id : Nat) (final : Name) (bytes : Bytes) : Prog Name (Option UInt64) :=
  .install (.staged id (sys.xxh3 bytes)) final bytes (.ret (some (sys.xxh3 bytes)))

def sidecarOf (object : ObjectId) (seq : Nat) (body : Bytes) : Sidecar :=
  ⟨object.toPath, seq, body.length, sys.xxh3 body⟩

def entryOf (seq : Nat) (body : Bytes) : Entry := ⟨seq, body.length, sys.xxh3 body⟩

/-- The commit marker of a body that is in place: the sidecar, then the directory. -/
def stageSidecar (id : Nat) (object : ObjectId) (entry : Entry) : Prog Name (Option Entry) :=
  (commit sys id (metaPath sys object entry.seq)
      (sys.toVec ⟨object.toPath, entry.seq, entry.len, entry.checksum⟩)).bind fun
    | none => .ret none
    | some _ => .ensure (.syncDir writebackDir) (.ret (some entry))

/-- The part of `stage` before the lock: the body, then its commit marker. -/
def stageFiles (id : Nat) (object : ObjectId) (seq : Nat) (body : Bytes) :
    Prog Name (Option Entry) :=
  (commit sys id (dataPath sys object seq) body).bind fun
    | none => .ret none
    | some checksum => stageSidecar sys (id + 1) object ⟨seq, body.length, checksum⟩

/-- The part of `stage` under the lock, with the generations it supersedes. -/
def Inner.insert (inner : Inner) (object : ObjectId) (entry : Entry) : Inner × List Entry :=
  ({ pending := PartialMap.insert inner.pending object entry
     inflight := inner.inflight
     queue := if inner.pending object = none then inner.queue ++ [object] else inner.queue
     failed := erase inner.failed object },
   (inner.pending object).toList ++ (inner.failed object).toList)

/-- Best-effort removal, the sidecar first. -/
def removeFiles (object : ObjectId) (seq : Nat) : Prog Name Unit :=
  .op (.remove (metaPath sys object seq)) fun _ =>
    .op (.remove (dataPath sys object seq)) fun _ => .ret ()

def removeAll : List (ObjectId × Nat) → Prog Name Unit
  | [] => .ret ()
  | (object, seq) :: rest => (removeFiles sys object seq).bind fun _ => removeAll rest

def stage (cache : Cache) (object : ObjectId) (body : Bytes) :
    Prog Name (Cache × Option Nat) :=
  let seq := cache.nextSeq
  let next : Cache := { cache with nextSeq := seq + 1, counter := cache.counter + 2 }
  (stageFiles sys cache.counter object seq body).bind fun
    | none => .ret (next, none)
    | some entry =>
      let (inner, superseded) := cache.inner.insert object entry
      (removeAll sys (superseded.map fun old => (object, old.seq))).bind fun _ =>
        .ret ({ next with inner := inner }, some seq)

/-- `max_by_key` over the sequence number: the last of the largest. -/
def maxBySeq : List Entry → Option Entry :=
  List.foldl (fun best e =>
    match best with
    | none => some e
    | some b => if b.seq ≤ e.seq then some e else some b) none

inductive ReadError
  | unreadable
  | length (object : ObjectId) (got want : Nat)
  | checksum (want got : UInt64)

def readVerified (object : ObjectId) (entry : Entry) : Prog Name (Except ReadError Bytes) :=
  .op (.read (dataPath sys object entry.seq)) fun
    | .bytes bytes =>
      if bytes.length ≠ entry.len then .ret (.error (.length object bytes.length entry.len))
      else if sys.xxh3 bytes = entry.checksum then .ret (.ok bytes)
      else .ret (.error (.checksum entry.checksum (sys.xxh3 bytes)))
    | _ => .ret (.error .unreadable)

def Inner.newest (inner : Inner) (object : ObjectId) : Option Entry :=
  maxBySeq [inner.pending object, inner.inflight object, inner.failed object].reduceOption

def stagedBytes (inner : Inner) (object : ObjectId) :
    Prog Name (Except ReadError (Option Bytes)) :=
  match inner.newest object with
  | none => .ret (.ok none)
  | some entry => (readVerified sys object entry).bind fun r => .ret (r.map some)

/-- The inner loop of `take_next`: the first queued object that is pending and not in flight, and
the queue that is left, with the skipped objects at its end. -/
def Inner.scan (inner : Inner) : List ObjectId → List ObjectId →
    Option (ObjectId × Entry) × List ObjectId
  | [], skipped => (none, skipped)
  | object :: rest, skipped =>
    match inner.pending object with
    | none => inner.scan rest skipped
    | some entry =>
      if (inner.inflight object).isSome then inner.scan rest (skipped ++ [object])
      else (some (object, entry), rest ++ skipped)

def Inner.start (inner : Inner) (object : ObjectId) (entry : Entry) (queue : List ObjectId) :
    Inner :=
  { inner with
    pending := erase inner.pending object
    inflight := PartialMap.insert inner.inflight object entry
    queue := queue }

def Inner.dropUnreadable (inner : Inner) (object : ObjectId) (seq : Nat) : Inner :=
  if (inner.inflight object).map Entry.seq = some seq then
    { inner with inflight := erase inner.inflight object }
  else inner

/-- The outer loop of `take_next`; each round takes at least one object off the queue. -/
def takeLoop : Nat → Inner → Prog Name (Inner × Option FlushItem)
  | 0, inner => .ret (inner, none)
  | fuel + 1, inner =>
    match inner.scan inner.queue [] with
    | (none, queue) => .ret ({ inner with queue := queue }, none)
    | (some (object, entry), queue) =>
      (readVerified sys object entry).bind fun
        | .ok bytes =>
          .ret (inner.start object entry queue, some ⟨object, entry.seq, bytes⟩)
        | .error _ =>
          (removeFiles sys object entry.seq).bind fun _ =>
            takeLoop fuel ((inner.start object entry queue).dropUnreadable object entry.seq)

def takeNext (inner : Inner) : Prog Name (Inner × Option FlushItem) :=
  takeLoop sys (inner.queue.length + 1) inner

def Inner.inflightAt (inner : Inner) (object : ObjectId) (seq : Nat) : Option Entry :=
  (inner.inflight object).filter fun entry => entry.seq == seq

def Inner.newerPending (inner : Inner) (object : ObjectId) (entry : Entry) : Bool :=
  (inner.pending object).any fun newer => entry.seq < newer.seq

def Inner.retire (inner : Inner) (object : ObjectId) : Inner :=
  { inner with inflight := erase inner.inflight object }

def Inner.enqueue (inner : Inner) (object : ObjectId) (entry : Entry) : Inner :=
  { inner with
    pending := PartialMap.insert inner.pending object entry
    queue := inner.queue ++ [object] }

def Inner.park (inner : Inner) (object : ObjectId) (entry : Entry) : Inner :=
  { inner with failed := PartialMap.insert inner.failed object entry }

def complete (inner : Inner) (object : ObjectId) (seq : Nat) : Prog Name Inner :=
  match inner.inflightAt object seq with
  | none => .ret inner
  | some _ => (removeFiles sys object seq).bind fun _ => .ret (inner.retire object)

def requeue (inner : Inner) (object : ObjectId) (seq : Nat) : Prog Name Inner :=
  match inner.inflightAt object seq with
  | none => .ret inner
  | some entry =>
    if inner.newerPending object entry then
      (removeFiles sys object seq).bind fun _ => .ret (inner.retire object)
    else .ret ((inner.retire object).enqueue object entry)

def parkFailed (inner : Inner) (object : ObjectId) (seq : Nat) : Prog Name Inner :=
  match inner.inflightAt object seq with
  | none => .ret inner
  | some entry =>
    if inner.newerPending object entry then
      (removeFiles sys object seq).bind fun _ => .ret (inner.retire object)
    else .ret ((inner.retire object).park object entry)

/-- The loop of `retry_failed` over the drained failures: the state, how many were requeued, and
the generations that a newer one supersedes. -/
def Inner.rearm : Inner → List (ObjectId × Entry) → Inner × Nat × List (ObjectId × Nat)
  | inner, [] => (inner, 0, [])
  | inner, (object, entry) :: rest =>
    if inner.newerPending object entry then
      let (inner', requeued, superseded) := inner.rearm rest
      (inner', requeued, (object, entry.seq) :: superseded)
    else
      let (inner', requeued, superseded) := (inner.enqueue object entry).rearm rest
      (inner', requeued + 1, superseded)

/-- `retry_failed`, given the order in which the failures are drained. -/
def retryFailed (inner : Inner) (parked : List (ObjectId × Entry)) : Prog Name (Inner × Nat) :=
  let (inner', requeued, superseded) := { inner with failed := empty }.rearm parked
  (removeAll sys superseded).bind fun _ => .ret (inner', requeued)

end Talon.WriteCache
