import Talon.Journal.Disk

/-!
# The writer of a journal stream

`writer.rs`.  The loop of `run` is cut where it waits: at its head, in the sync of a query, in a
rotation, in `select!` and in the publication of a snapshot.  The write in flight and the snapshot
task go on in all of these, because the kernel does not wait for the loop to look at them.

A caller of `Handle::checkpoint` is told apart by what it had seen: the LSNs whose replies had been
sent when it called.  A `watch::Sender` is the list of the callers that subscribed to it.

`Node` adds the directory and the history of the records that were given an LSN.  A crash may fall
between any two file-system operations and leaves only the directory.
-/

set_option autoImplicit false

namespace Talon.Journal

open Wire CrashFs CrashFs.Prog Relation

inductive Ack
  | written
  | durable
deriving DecidableEq

structure StreamOptions where
  checkpointBytes : Nat
  maxRecordBytes : Nat
  checkpointBytes_pos : 0 < checkpointBytes
  maxRecordBytes_pos : 0 < maxRecordBytes
  maxRecordBytes_le : maxRecordBytes ≤ maxRecord

inductive Command (M : Machine)
  | append (record : M.Record) (bytes : Bytes) (ack : Ack)
  | query
  | checkpoint (seen : List Nat)

/-- `Handle::append` up to the request it sends: the bytes of the record. -/
def appendBytes (M : Machine) (options : StreamOptions) (record : M.Record) : Result Bytes := do
  let limit ← M.encodedLen record
  if limit > options.maxRecordBytes then .error "journal record exceeds stream budget"
  else
    let bytes ← M.encode record
    if bytes.length > limit then .error "journal encoded_len underestimated record"
    else return bytes

/-- A request that a handle sends; `calls` are those of `Handle::checkpoint`. -/
def Command.Sent {M : Machine} (options : StreamOptions) (calls : List (List Nat)) :
    Command M → Prop
  | .append record bytes _ => appendBytes M options record = .ok bytes
  | .query => True
  | .checkpoint seen => seen ∈ calls

structure Pending (M : Machine) where
  record : M.Record
  bytes : Bytes
  ack : Ack
  lsn : Nat

structure WriteBatch (M : Machine) where
  pending : List (Pending M)
  start : Nat
  bytes : Bytes
  done : Nat

/-- A sync in flight: the appends it makes durable and the bytes that were in the log before. -/
structure SyncBatch where
  lsns : List Nat
  covers : Nat

/-- The variables of `run`, with those of the `Disk` it owns, the LSNs whose appends have their
reply and the callers that were told of a finished checkpoint. -/
structure Writer (M : Machine) where
  current : Current
  offset : Nat
  lsn : Nat
  machine : M.State
  nextLsn : Nat
  write : Option (WriteBatch M) := none
  sync : Option SyncBatch := none
  durable : List Nat := []
  barrier : Option (Command M) := none
  checkpoint : Option (Prog Name (Option Snapshot)) := none
  checkpointCompletion : Option (List (List Nat)) := none
  pendingCheckpoint : Option (List (List Nat)) := none
  closed : Bool := false
  replied : List Nat := []
  completed : List (List Nat) := []

inductive Point
  | head
  | query
  | rotate (items : List (Result Bytes)) (p : Prog Name (Option (Current × Nat)))
  | select
  | publish (p : Prog Name (Option Current))
  | stopped

namespace Writer

variable {M : Machine}

def start (r : Recovered M) : Writer M where
  current := r.current
  offset := r.offset
  lsn := r.lsn
  machine := r.machine
  nextLsn := r.lsn

def takeCheckpoint (w : Writer M) : Writer M :=
  match w.barrier with
  | some (.checkpoint seen) =>
    { w with barrier := none, pendingCheckpoint := some (seen :: w.pendingCheckpoint.getD []) }
  | _ => w

def written (w : Writer M) : Nat :=
  match w.write with
  | none => w.offset
  | some batch => batch.start

def startSync (w : Writer M) : Writer M :=
  if w.sync.isNone ∧ ¬ w.durable.isEmpty then
    { w with sync := some ⟨w.durable, w.written⟩, durable := [] }
  else w

/-- The end of the loop's head: return or wait in `select!`. -/
def settle (w : Writer M) : Point :=
  if w.closed ∧ w.write.isNone ∧ w.sync.isNone ∧ w.checkpoint.isNone ∧ w.barrier.isNone ∧
      w.pendingCheckpoint.isNone then .stopped
  else .select

def isQuery : Option (Command M) → Bool
  | some .query => true
  | _ => false

def head (xxh3 : Hash) (options : StreamOptions) (w : Writer M) : Writer M × Point :=
  let w := w.takeCheckpoint.startSync
  if w.write.isNone ∧ w.sync.isNone then
    if isQuery w.barrier then (w, .query)
    else if w.checkpoint.isNone ∧
        (w.pendingCheckpoint.isSome ∨ w.offset ≥ options.checkpointBytes) then
      match M.snapshot w.machine with
      | .error _ => (w, .stopped)
      | .ok items => (w, .rotate items (rotate xxh3 w.current))
    else (w, w.settle)
  else (w, w.settle)

def rotated (xxh3 : Hash) (w : Writer M) (items : List (Result Bytes)) (c : Current)
    (generation : Nat) : Writer M :=
  { w with
    current := c
    offset := 0
    checkpoint := some (writeSnapshot xxh3 generation w.lsn items)
    checkpointCompletion := w.pendingCheckpoint
    pendingCheckpoint := none }

/-- The branch of `select!` that receives requests is enabled. -/
def receives (options : StreamOptions) (w : Writer M) : Bool :=
  !w.closed && w.write.isNone && w.barrier.isNone &&
    (decide (w.offset < options.checkpointBytes) || w.checkpoint.isSome)

def applyAll (w : Writer M) : List (Pending M) → Writer M × Bool
  | [] => (w, true)
  | p :: rest =>
    match M.apply w.machine p.lsn p.record with
    | .error _ => (w, false)
    | .ok machine =>
      applyAll
        { w with
          machine, lsn := p.lsn
          durable := if p.ack = .durable then w.durable ++ [p.lsn] else w.durable
          replied := if p.ack = .durable then w.replied else p.lsn :: w.replied } rest

end Writer

structure Collected (M : Machine) where
  nextLsn : Nat
  bytes : Bytes
  pending : List (Pending M)
  barrier : Option (Command M)

/-- Collect appends from the queue until a batch is full, another request comes or none is left. -/
def collect {M : Machine} (xxh3 : Hash) (nextLsn : Nat) (bytes : Bytes)
    (pending : List (Pending M)) : List (Command M) → Result (Collected M)
  | [] => .ok ⟨nextLsn, bytes, pending, none⟩
  | .append record body ack :: queue =>
    if nextLsn + 1 ≥ 2 ^ 64 then .error "journal LSN overflow"
    else
      match encodeFrame xxh3 (nextLsn + 1) body with
      | .error e => .error e
      | .ok frame =>
        let pending := pending ++ [Pending.mk record body ack (nextLsn + 1)]
        if pending.length ≥ 256 ∨ (bytes ++ frame).length ≥ 256 <<< 10 then
          .ok ⟨nextLsn + 1, bytes ++ frame, pending, none⟩
        else collect xxh3 (nextLsn + 1) (bytes ++ frame) pending queue
  | request :: _ => .ok ⟨nextLsn, bytes, pending, some request⟩

namespace Writer

variable {M : Machine}

def startWrite (w : Writer M) (c : Collected M) : Result (Writer M) :=
  if w.offset + c.bytes.length ≥ 2 ^ 64 then .error "journal offset overflow"
  else
    .ok
      { w with
        nextLsn := c.nextLsn
        offset := w.offset + c.bytes.length
        write := some ⟨c.pending, w.offset, c.bytes, 0⟩
        barrier := c.barrier }

def receive (xxh3 : Hash) (w : Writer M) (queue : List (Command M)) :
    Result (Writer M × List (Pending M)) := do
  let c ← collect xxh3 w.nextLsn [] [] queue
  let w ← w.startWrite c
  return (w, c.pending)

end Writer

/-! ## The stream across crashes -/

structure Entry (M : Machine) where
  record : M.Record
  bytes : Bytes

def Pending.entry {M : Machine} (p : Pending M) : Entry M := ⟨p.record, p.bytes⟩

inductive Mode (M : Machine)
  | down
  | opening (p : Prog Name (Option (Recovered M)))
  | running (w : Writer M) (point : Point)

/-- A stream: its directory, what its process is doing, the records in the order of their LSNs
from 1 on, the LSNs that are promised to survive, and the calls of `Handle::checkpoint` that the
process has made. -/
structure Node (M : Machine) where
  fs : Fs Name
  mode : Mode M
  history : List (Entry M)
  promised : List Nat
  calls : List (List Nat)

def Node.fresh (M : Machine) : Node M := ⟨Fs.empty, .down, [], [], []⟩

section Step

variable (xxh3 : Hash) (M : Machine) (initial : M.State) (options : StreamOptions)

inductive Step : Node M → Node M → Prop
  | reopen (n : Node M) (down : n.mode = .down) :
      Step n { n with mode := .opening (recover xxh3 M initial) }
  | recover (n : Node M) (p p' : Prog Name (Option (Recovered M))) (fs' : Fs Name)
      (opening : n.mode = .opening p) (step : Prog.Step p n.fs p' fs') :
      Step n { n with fs := fs', mode := .opening p' }
  | opened (n : Node M) (r : Recovered M) (opening : n.mode = .opening (.ret (some r))) :
      Step n
        { n with mode := .running (.start r) .head, history := n.history.take r.lsn, calls := [] }
  | refused (n : Node M) (opening : n.mode = .opening (.ret none)) : Step n { n with mode := .down }
  | crash (n : Node M) (fs' : Fs Name) (lost : ∀ name, (n.fs name).Crash (fs' name)) :
      Step n { n with fs := fs', mode := .down }
  /-- The process is killed, and what it has not synced stays as it is. -/
  | kill (n : Node M) (up : n.mode ≠ .down) : Step n { n with mode := .down }
  | poison (n : Node M) (w : Writer M) (running : n.mode = .running w .head) :
      Step n { n with mode := .running w .stopped }
  | head (n : Node M) (w : Writer M) (running : n.mode = .running w .head) :
      Step n { n with mode := .running (w.head xxh3 options).1 (w.head xxh3 options).2 }
  | queried (n : Node M) (w : Writer M) (running : n.mode = .running w .query) :
      Step n
        { n with
          fs := n.fs.modify (.journal w.current.lastLog) File.sync
          mode := .running { w with barrier := none } (Writer.settle { w with barrier := none })
          promised := w.lsn :: n.promised }
  | rotate (n : Node M) (w : Writer M) (items : List (Result Bytes))
      (p p' : Prog Name (Option (Current × Nat))) (fs' : Fs Name)
      (running : n.mode = .running w (.rotate items p)) (step : Prog.Step p n.fs p' fs') :
      Step n { n with fs := fs', mode := .running w (.rotate items p') }
  | rotateFailed (n : Node M) (w : Writer M) (items : List (Result Bytes))
      (running : n.mode = .running w (.rotate items (.ret none))) :
      Step n { n with mode := .running w .stopped }
  | rotated (n : Node M) (w : Writer M) (items : List (Result Bytes)) (c : Current)
      (generation : Nat)
      (running : n.mode = .running w (.rotate items (.ret (some (c, generation))))) :
      Step n
        { n with
          mode := .running (w.rotated xxh3 items c generation)
            (w.rotated xxh3 items c generation).settle }
  | write (n : Node M) (w : Writer M) (point : Point) (batch : WriteBatch M) (k : Nat)
      (running : n.mode = .running w point) (writing : w.write = some batch)
      (progress : 0 < k) (most : batch.done + k ≤ batch.bytes.length) :
      Step n
        { n with
          fs := n.fs.modify (.journal w.current.lastLog)
            (File.writeAt (batch.start + batch.done) ((batch.bytes.drop batch.done).take k))
          mode := .running { w with write := some { batch with done := batch.done + k } } point }
  | written (n : Node M) (w : Writer M) (batch : WriteBatch M)
      (running : n.mode = .running w .select) (writing : w.write = some batch)
      (whole : batch.done = batch.bytes.length) :
      Step n
        { n with
          mode := .running (Writer.applyAll { w with write := none } batch.pending).1
            (if (Writer.applyAll { w with write := none } batch.pending).2 then .head
              else .stopped) }
  | synced (n : Node M) (w : Writer M) (batch : SyncBatch)
      (running : n.mode = .running w .select) (syncing : w.sync = some batch) :
      Step n
        { n with
          fs := n.fs.modify (.journal w.current.lastLog) (File.syncTo batch.covers)
          mode := .running { w with sync := none, replied := batch.lsns ++ w.replied } .head
          promised := batch.lsns ++ n.promised }
  | snapshot (n : Node M) (w : Writer M) (point : Point) (p p' : Prog Name (Option Snapshot))
      (fs' : Fs Name) (running : n.mode = .running w point) (task : w.checkpoint = some p)
      (step : Prog.Step p n.fs p' fs') :
      Step n { n with fs := fs', mode := .running { w with checkpoint := some p' } point }
  | snapshotFailed (n : Node M) (w : Writer M) (running : n.mode = .running w .select)
      (task : w.checkpoint = some (.ret none)) :
      Step n { n with mode := .running { w with checkpoint := none } .stopped }
  | snapshotDone (n : Node M) (w : Writer M) (s : Snapshot)
      (running : n.mode = .running w .select) (task : w.checkpoint = some (.ret (some s))) :
      Step n
        { n with
          mode := .running { w with checkpoint := none }
            (.publish (publishSnapshot xxh3 w.current s)) }
  | publish (n : Node M) (w : Writer M) (p p' : Prog Name (Option Current)) (fs' : Fs Name)
      (running : n.mode = .running w (.publish p)) (step : Prog.Step p n.fs p' fs') :
      Step n { n with fs := fs', mode := .running w (.publish p') }
  | publishFailed (n : Node M) (w : Writer M)
      (running : n.mode = .running w (.publish (.ret none))) :
      Step n { n with mode := .running w .stopped }
  | published (n : Node M) (w : Writer M) (c : Current)
      (running : n.mode = .running w (.publish (.ret (some c)))) :
      Step n
        { n with
          mode := .running
            { w with
              current := c
              checkpointCompletion := none
              completed := w.checkpointCompletion.getD [] ++ w.completed } .head }
  | call (n : Node M) (w : Writer M) (point : Point) (running : n.mode = .running w point) :
      Step n { n with calls := w.replied :: n.calls }
  | close (n : Node M) (w : Writer M) (running : n.mode = .running w .select)
      (receives : w.receives options = true) :
      Step n { n with mode := .running { w with closed := true } .head }
  | barrier (n : Node M) (w : Writer M) (request : Command M)
      (running : n.mode = .running w .select) (receives : w.receives options = true)
      (other : ∀ record bytes ack, request ≠ .append record bytes ack)
      (sent : request.Sent options n.calls) :
      Step n { n with mode := .running { w with barrier := some request } .head }
  | receive (n : Node M) (w w' : Writer M) (record : M.Record) (bytes : Bytes) (ack : Ack)
      (queue : List (Command M)) (batch : List (Pending M)) (running : n.mode = .running w .select)
      (receives : w.receives options = true)
      (sent : ∀ request ∈ Command.append record bytes ack :: queue, request.Sent options n.calls)
      (received : w.receive xxh3 (.append record bytes ack :: queue) = .ok (w', batch)) :
      Step n
        { n with
          mode := .running w' .head
          history := n.history ++ batch.map Pending.entry }
  | receiveFailed (n : Node M) (w : Writer M) (record : M.Record) (bytes : Bytes) (ack : Ack)
      (queue : List (Command M)) (e : String) (running : n.mode = .running w .select)
      (receives : w.receives options = true)
      (sent : ∀ request ∈ Command.append record bytes ack :: queue, request.Sent options n.calls)
      (received : w.receive xxh3 (.append record bytes ack :: queue) = .error e) :
      Step n { n with mode := .running w .stopped }
  | exit (n : Node M) (w : Writer M) (running : n.mode = .running w .stopped)
      (drained : ∀ batch, w.write = some batch → batch.done = batch.bytes.length)
      (ended : ∀ p, w.checkpoint = some p → ∃ r, p = .ret r) :
      Step n { n with mode := .down }

end Step

end Talon.Journal
