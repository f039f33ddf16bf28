import Talon.Lib.CrashProg
import Talon.Journal.Current

/-!
# The files of a journal

`disk.rs` as programs over the crash-prone file system: recovery, rotation of the log, writing a
snapshot and publishing it.  `none` is an error, after which the stream stops.  All files of a
stream are in one directory.  The accounting of allocated blocks and the pacing by the maintenance
policy are left out; neither reads or writes a file of the journal.
-/

set_option autoImplicit false

namespace Talon.Journal

open Wire CrashFs CrashFs.Prog

/-- The trait `Machine`.  A machine is dropped when one of its calls fails, so no state comes with
an error. -/
structure Machine where
  State : Type
  Record : Type
  SnapshotRecord : Type
  encodedLen : Record → Result Nat
  encode : Record → Result Bytes
  decode : Bytes → Result Record
  apply : State → Nat → Record → Result State
  snapshot : State → Result (List (Result Bytes))
  decodeSnapshot : Bytes → Result SnapshotRecord
  restore : State → SnapshotRecord → Result State

inductive Name
  | current
  | currentTmp
  | journalTmp
  | snapshotTmp
  | snapshot (generation : Nat)
  | journal (generation : Nat)
deriving DecidableEq

def path (snapshot : Bool) (generation : Nat) : Name :=
  if snapshot then .snapshot generation else .journal generation

def root : Name → Bool := fun _ => true

variable (xxh3 : Hash)

section Files

variable {α : Type}

def writeSync (n : Name) (b : Bytes) (next : Prog Name (Option α)) : Prog Name (Option α) :=
  ensure (.create n) <| ensureWrite n 0 b <| ensure (.sync n) next

def publishSync (c : Current) (next : Prog Name (Option α)) : Prog Name (Option α) :=
  match c.encode xxh3 with
  | .error _ => .ret none
  | .ok b =>
    writeSync .currentTmp b <| ensure (.rename .currentTmp .current) <|
      ensure (.syncDir root) next

def removeAll : List Name → Prog Name (Option α) → Prog Name (Option α)
  | [], next => next
  | n :: names, next => .op (.remove n) fun _ => removeAll names next

/-- `Disk::publish` -/
def publish (c : Current) (next : Prog Name (Option α)) : Prog Name (Option α) :=
  ensure (.create .currentTmp) <|
    match c.encode xxh3 with
    | .error _ => .ret none
    | .ok b =>
      ensureWrite .currentTmp 0 b <| ensure (.sync .currentTmp) <|
        ensure (.rename .currentTmp .current) <| ensure (.syncDir root) next

end Files

/-! ## Recovery -/

section Recovery

variable (M : Machine) (initial : M.State)

structure Recovered where
  current : Current
  offset : Nat
  lsn : Nat
  machine : M.State

def firstCurrent : Current := ⟨1, 0, 0, 0, [1], [], 0⟩

def visitSnapshot (s : Nat × M.State) (n : Nat) (r : M.SnapshotRecord) :
    Result (Nat × M.State) :=
  if n ≠ s.1 + 1 then .error "snapshot ordinal gap"
  else do
    let machine ← M.restore s.2 r
    return (s.1 + 1, machine)

def restoreSnapshot (c : Current) (file : Bytes) : Result M.State :=
  if file.length ≠ c.bytes then .error "snapshot length mismatch"
  else do
    let (_, ordinal, machine) ← read xxh3 false M.decodeSnapshot (visitSnapshot M) file (0, initial)
    if ordinal ≠ c.records then .error "snapshot record count mismatch" else return machine

def visitLog (s : Nat × M.State) (n : Nat) (r : M.Record) : Result (Nat × M.State) :=
  if s.1 + 1 ≥ 2 ^ 64 ∨ n ≠ s.1 + 1 then .error "journal LSN gap"
  else do
    let machine ← M.apply s.2 n r
    return (n, machine)

/-- Replay the logs in order; only the last may have a torn tail.  The result is the end of the
last log's complete frames, the LSN reached and the machine. -/
def replayLogs : List Nat → Nat → Nat × M.State → Prog Name (Option (Nat × Nat × M.State))
  | [], offset, s => .ret (some (offset, s))
  | g :: logs, _, s => .op (.read (.journal g)) fun
    | .bytes b =>
      match read xxh3 logs.isEmpty M.decode (visitLog M) b s with
      | .error _ => .ret none
      | .ok (offset, s) => replayLogs logs offset s
    | _ => .ret none

def truncateLog {α : Type} (g offset : Nat) (next : Prog Name (Option α)) :
    Prog Name (Option α) :=
  .op (.read (.journal g)) fun
    | .bytes b =>
      if b.length ≠ offset then
        ensure (.setLen (.journal g) offset) <| ensure (.sync (.journal g)) next
      else next
    | _ => .ret none

def leftovers (c : Current) : List Name :=
  c.garbage.map (fun f => path f.1 f.2) ++
    (if c.pending ≠ 0 then [path true c.pending] else []) ++
    [.currentTmp, .journalTmp, .snapshotTmp]

/-- `logs.last().unwrap()` -/
def Current.lastLog (c : Current) : Nat := c.logs.getLast?.getD 0

/-- The part of `recover` after the manifest is read. -/
def recoverFrom (c : Current) : Prog Name (Option (Recovered M)) :=
  .op (.read (path true c.snapshot)) fun
    | .bytes file =>
      match restoreSnapshot xxh3 M initial c file with
      | .error _ => .ret none
      | .ok machine =>
        (replayLogs xxh3 M c.logs 0 (c.lsn, machine)).bind fun
          | none => .ret none
          | some (offset, lsn, machine) =>
            truncateLog c.lastLog offset <| removeAll (leftovers c) <|
              ensure (.syncDir root) <|
                publishSync xxh3 { c with garbage := [], pending := 0 } <|
                  .ret (some ⟨{ c with garbage := [], pending := 0 }, offset, lsn, machine⟩)
    | _ => .ret none

def recover : Prog Name (Option (Recovered M)) :=
  .op (.read .current) fun
    | .bytes b =>
      if b.length > 65536 then .ret none
      else
        match Current.decode xxh3 b with
        | .error _ => .ret none
        | .ok c => recoverFrom xxh3 M initial c
    | _ =>
      writeSync (path true 1) [] <| writeSync (path false 1) [] <| ensure (.syncDir root) <|
        publishSync xxh3 firstCurrent <| recoverFrom xxh3 M initial firstCurrent

end Recovery

/-! ## Rotation and snapshots -/

def Current.withLog (c : Current) : Current :=
  { c with logs := c.logs ++ [c.lastLog + 1], pending := c.lastLog + 1 }

/-- `Disk::rotate`: the manifest with the new log, and its generation. -/
def rotate (c : Current) : Prog Name (Option (Current × Nat)) :=
  ensure (.sync (.journal c.lastLog)) <|
    if c.lastLog + 1 ≥ 2 ^ 64 then .ret none
    else
      ensure (.create .journalTmp) <| ensure (.sync .journalTmp) <|
        ensure (.rename .journalTmp (path false (c.lastLog + 1))) <| ensure (.syncDir root) <|
          publish xxh3 c.withLog <| .ret (some (c.withLog, c.lastLog + 1))

structure Snapshot where
  generation : Nat
  lsn : Nat
  bytes : Nat
  records : Nat
deriving DecidableEq

/-- What the encoder thread sends: chunks of whole frames, then an empty one, or an error. -/
def chunks : Bytes → Nat → List (Result Bytes) → List (Result Bytes)
  | buffer, _, [] => (if buffer.isEmpty then [] else [.ok buffer]) ++ [.ok []]
  | _, _, .error e :: _ => [.error e]
  | buffer, ordinal, .ok bytes :: items =>
    match encodeFrame xxh3 (ordinal + 1) bytes with
    | .error e => [.error e]
    | .ok encoded =>
      if ¬ buffer.isEmpty ∧ buffer.length + encoded.length > 256 <<< 10 then
        .ok buffer :: chunks encoded (ordinal + 1) items
      else chunks (buffer ++ encoded) (ordinal + 1) items

def countFrames (b : Bytes) : Nat :=
  if b.isEmpty then 0 else 1 + countFrames (b.drop (headerLen + numberAt b 8 4))
termination_by b.length
decreasing_by
  rename_i nonempty
  have some : b ≠ [] := fun nil => nonempty (List.isEmpty_iff.mpr nil)
  have positive := List.length_pos_iff.mpr some
  rw [List.length_drop]
  unfold headerLen
  omega

/-- The largest file size of the platform; a write beyond it fails. -/
def maxFile : Nat := 2 ^ 63

/-- Write the chunks one after the other; the result is their length and the number of frames. -/
def writeChunks : Nat → Nat → List (Result Bytes) → Prog Name (Option (Nat × Nat))
  | _, _, [] => .ret none
  | _, _, .error _ :: _ => .ret none
  | offset, records, .ok bytes :: rest =>
    if bytes.isEmpty then .ret (some (offset, records))
    else if offset + bytes.length ≥ maxFile then .ret none
    else
      ensureWrite .snapshotTmp offset bytes <|
        writeChunks (offset + bytes.length) (records + countFrames bytes) rest

/-- `Disk::snapshot` -/
def writeSnapshot (generation lsn : Nat) (items : List (Result Bytes)) :
    Prog Name (Option Snapshot) :=
  ensure (.create .snapshotTmp) <|
    (writeChunks 0 0 (chunks xxh3 [] 0 items)).bind fun
      | none => .ret none
      | some (bytes, records) =>
        place .snapshotTmp (path true generation) <| ensure (.syncDir root) <|
          .ret (some ⟨generation, lsn, bytes, records⟩)

def Current.withSnapshot (c : Current) (s : Snapshot) : Current where
  snapshot := s.generation
  lsn := s.lsn
  bytes := s.bytes
  records := s.records
  logs := c.logs.filter fun g => g ≥ s.generation
  garbage := c.garbage ++ (true, c.snapshot) ::
    (c.logs.filter fun g => g < s.generation).map fun g => (false, g)
  pending := 0

/-- `Disk::publish_snapshot` -/
def publishSnapshot (c : Current) (s : Snapshot) : Prog Name (Option Current) :=
  let named := c.withSnapshot s
  publish xxh3 named <| removeAll (named.garbage.map fun f => path f.1 f.2) <|
    ensure (.syncDir root) <|
      publish xxh3 { named with garbage := [] } <| .ret (some { named with garbage := [] })

end Talon.Journal
