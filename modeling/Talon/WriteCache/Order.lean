import Talon.WriteCache.Files

/-!
# The order of generations under concurrent staging

Any number of `stage` calls run together with one flusher.  A call allocates its sequence number,
makes its files durable and inserts its entry in three separate steps, so two calls for one object
may insert in the order opposite to their numbers.  `Step` is one step of such a run and
`GenerationOrder` what the cache promises about it.  The promise holds in every run in which each
object's entries are inserted in the order of their numbers, and fails in a run that inserts them in
the other order.
-/

set_option autoImplicit false

namespace Talon.WriteCache

open CrashFs Talon.Core PartialMap CrashFs.Prog Relation

/-- A `stage` call that has not returned, with its entry once its files are durable. -/
structure StageCall where
  object : ObjectId
  body : Bytes
  entry : Option Entry

/-- The cache while calls are running, with the history of what returned, completed and was taken.
Calls and returned generations are indexed by sequence number. -/
structure World where
  nextSeq : Nat
  counter : Nat
  inner : Inner
  fs : Fs Name
  calls : Nat → Option StageCall
  returned : Nat → Option (ObjectId × Bytes)
  completed : List (ObjectId × Nat)
  taken : List FlushItem

def World.opened : World :=
  { nextSeq := 1, counter := 0, inner := .default, fs := Fs.empty, calls := empty,
    returned := empty, completed := [], taken := [] }

def World.allocated (w : World) (object : ObjectId) (body : Bytes) : World :=
  { w with
    nextSeq := w.nextSeq + 1
    calls := PartialMap.insert w.calls w.nextSeq ⟨object, body, none⟩ }

def World.wrote (w : World) (seq : Nat) (object : ObjectId) (body : Bytes) (entry : Entry)
    (fs : Fs Name) : World :=
  { w with
    counter := w.counter + 2
    fs := fs
    calls := PartialMap.insert w.calls seq ⟨object, body, some entry⟩ }

def World.inserted (w : World) (seq : Nat) (object : ObjectId) (body : Bytes) (entry : Entry)
    (fs : Fs Name) : World :=
  { w with
    inner := (w.inner.insert object entry).1
    fs := fs
    calls := erase w.calls seq
    returned := PartialMap.insert w.returned seq (object, body) }

inductive Action
  | allocate (object : ObjectId) (body : Bytes)
  | writeFiles (seq : Nat)
  | insert (seq : Nat)
  | takeNext
  | complete (object : ObjectId) (seq : Nat)
  | requeue (object : ObjectId) (seq : Nat)
  | parkFailed (object : ObjectId) (seq : Nat)
  | retryFailed

variable (sys : Externals)

inductive Step : World → Action → World → Prop
  | allocate (w : World) (object : ObjectId) (body : Bytes) :
      Step w (.allocate object body) (w.allocated object body)
  | writeFiles (w : World) (seq : Nat) (object : ObjectId) (body : Bytes) (entry : Entry)
      (fs' : Fs Name) (running : w.calls seq = some ⟨object, body, none⟩)
      (run : Runs (stageFiles sys w.counter object seq body) w.fs (some entry) fs') :
      Step w (.writeFiles seq) (w.wrote seq object body entry fs')
  | insert (w : World) (seq : Nat) (object : ObjectId) (body : Bytes) (entry : Entry)
      (fs' : Fs Name) (running : w.calls seq = some ⟨object, body, some entry⟩)
      (run : Runs (removeAll sys ((w.inner.insert object entry).2.map fun old => (object, old.seq)))
        w.fs () fs') :
      Step w (.insert seq) (w.inserted seq object body entry fs')
  | takeNext (w : World) (inner : Inner) (item : Option FlushItem) (fs' : Fs Name)
      (run : Runs (takeNext sys w.inner) w.fs (inner, item) fs') :
      Step w .takeNext { w with inner := inner, fs := fs', taken := w.taken ++ item.toList }
  | complete (w : World) (object : ObjectId) (seq : Nat) (inner : Inner) (fs' : Fs Name)
      (run : Runs (complete sys w.inner object seq) w.fs inner fs') :
      Step w (.complete object seq)
        { w with
          inner := inner
          fs := fs'
          completed := if (w.inner.inflightAt object seq).isSome then
            (object, seq) :: w.completed else w.completed }
  | requeue (w : World) (object : ObjectId) (seq : Nat) (inner : Inner) (fs' : Fs Name)
      (run : Runs (requeue sys w.inner object seq) w.fs inner fs') :
      Step w (.requeue object seq) { w with inner := inner, fs := fs' }
  | parkFailed (w : World) (object : ObjectId) (seq : Nat) (inner : Inner) (fs' : Fs Name)
      (run : Runs (parkFailed sys w.inner object seq) w.fs inner fs') :
      Step w (.parkFailed object seq) { w with inner := inner, fs := fs' }
  | retryFailed (w : World) (parked : List (ObjectId × Entry)) (inner : Inner) (requeued : Nat)
      (fs' : Fs Name) (drained : Lists parked w.inner.failed)
      (run : Runs (retryFailed sys w.inner parked) w.fs (inner, requeued) fs') :
      Step w .retryFailed { w with inner := inner, fs := fs' }

/-- A step that inserts no entry below one already inserted for the same object. -/
def InOrder (w : World) : Action → Prop
  | .insert seq => ∀ call, w.calls seq = some call →
      ∀ s body, w.returned s = some (call.object, body) → s < seq
  | _ => True

def Run : World → Prop := ReflTransGen (fun w w' => ∃ a, Step sys w a w') World.opened

def OrderedRun : World → Prop :=
  ReflTransGen (fun w w' => ∃ a, Step sys w a w' ∧ InOrder w a) World.opened

def Inner.Holds (inner : Inner) (object : ObjectId) (seq : Nat) : Prop :=
  ∃ entry : Entry, entry.seq = seq ∧
    (inner.pending object = some entry ∨ inner.inflight object = some entry ∨
      inner.failed object = some entry)

/-- A generation whose files should be on the disk. -/
def World.Live (w : World) (seq : Nat) (object : ObjectId) (body : Bytes) : Prop :=
  (∃ entry, w.calls seq = some ⟨object, body, some entry⟩) ∨
    (w.returned seq = some (object, body) ∧ w.inner.Holds object seq)

/-- The directory holds the two files of each live generation and nothing else. -/
structure FilesOf (fs : Fs Name) (live : Nat → ObjectId → Bytes → Prop) : Prop where
  data : ∀ h seq b, fs.contents (.data ⟨h, seq⟩) = some b ↔
    ∃ object, live seq object b ∧ dataPath sys object seq = .data ⟨h, seq⟩
  sidecar : ∀ h seq raw, fs.contents (.sidecar ⟨h, seq⟩) = some raw ↔
    ∃ object b, live seq object b ∧ metaPath sys object seq = .sidecar ⟨h, seq⟩ ∧
      raw = sidecarBytes sys object seq b
  staged : ∀ id c, fs.contents (.staged id c) = none

/-- The newest returned generation of its object, with nothing as new completed. -/
structure IsNewest (returned : Nat → Option (ObjectId × Bytes)) (completed : List (ObjectId × Nat))
    (object : ObjectId) (seq : Nat) (body : Bytes) : Prop where
  found : returned seq = some (object, body)
  highest : ∀ s b, returned s = some (object, b) → s ≤ seq
  uncompleted : ∀ s, (object, s) ∈ completed → s < seq

def World.Newest (w : World) (object : ObjectId) (seq : Nat) (body : Bytes) : Prop :=
  IsNewest w.returned w.completed object seq body

structure GenerationOrder (w : World) : Prop where
  held : ∀ object seq body, w.Newest object seq body → w.inner.Holds object seq
  on_disk : ∀ object seq body, w.Newest object seq body →
    w.fs.contents (dataPath sys object seq) = some body ∧
      w.fs.contents (metaPath sys object seq) = some (sidecarBytes sys object seq body)
  readable : ∀ object seq body, w.Newest object seq body →
    (∀ s, w.inner.Holds object s → s ≤ seq) →
    Returns (stagedBytes sys w.inner object) w.fs (.ok (some body))
  queued : ∀ object, w.inner.pending object ≠ none → object ∈ w.inner.queue
  files : FilesOf sys w.fs w.Live
  increasing : w.taken.Pairwise fun a b => a.object = b.object → a.seq ≠ b.seq → a.seq < b.seq

end Talon.WriteCache
