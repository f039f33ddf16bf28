import Talon.Lib.ByteArea
import Talon.Lib.Fallible
import Talon.Lib.PartialMap
import Talon.Lib.Transition

/-!
# The working copy of a write handle

A handle opened for writing keeps the whole object: in memory while it is small, in a sparse
staging file once a write ends past `max_object_bytes`.  The staging file is modelled by its bytes
and its input and output succeed; access times and ownership of the inodes are left out.
-/

set_option autoImplicit false

namespace Talon.Fuse

open ByteArea Fallible Option List

inductive FsError where
  | notFound
  | unsupported
  | badHandle
  | tooLarge
  | isDir
  | invalid
  | loop
  | io
deriving DecidableEq

abbrev Result := Except FsError

inductive FileKind where
  | file
  | directory
  | symlink
  | namedPipe
  | blockDevice
  | charDevice
  | socket
deriving DecidableEq

structure Node where
  kind : FileKind
  size : Nat
  path : String
deriving DecidableEq

structure OpenOptions where
  read : Bool
  write : Bool
  append : Bool
deriving DecidableEq

structure Handle where
  ino : Nat
  read : Bool
  write : Bool
  append : Bool
deriving DecidableEq

/-- Staging keeps the logical length beside the file. -/
inductive DirtyContents where
  | memory (bytes : Bytes)
  | staged (file : Bytes) (len : Nat)
deriving DecidableEq

structure DirtyFile where
  ino : Nat
  contents : DirtyContents
deriving DecidableEq

inductive WritebackSource where
  | memory (bytes : Bytes)
  | file (file : Bytes) (len : Nat)
deriving DecidableEq

inductive ReadSource where
  | buffered (bytes : Bytes)
  | backend (path : String) (size : Nat)
deriving DecidableEq

/-- `u64::checked_add`, an overflow being too large a file. -/
def checkedAdd (a b : Nat) : Result Nat := if a + b < 2 ^ 64 then .ok (a + b) else .error .tooLarge

namespace DirtyContents

def len : DirtyContents → Nat
  | memory bytes => bytes.length
  | staged _ len => len

def promote (c : DirtyContents) (len : Nat) : DirtyContents :=
  match c with
  | memory bytes => staged (resize bytes len) len
  | staged file _ => staged (resize file len) len

def isMemory : DirtyContents → Bool
  | memory _ => true
  | staged _ _ => false

/-- The part of `write_at` after the choice of the representation. -/
def store (c : DirtyContents) (offset : Nat) (data : Bytes) : DirtyContents :=
  let stop := offset + data.length
  match c with
  | memory bytes =>
    let grown := if bytes.length < stop then resize bytes stop else bytes
    memory (copyInto grown offset data)
  | staged file len =>
    let file := CrashFs.File.overwrite file offset data
    if len < stop then staged (resize file stop) stop else staged file len

def writeAt (c : DirtyContents) (offset : Nat) (data : Bytes) (memoryLimit : Nat) :
    Result (Nat × DirtyContents) := do
  let stop ← checkedAdd offset data.length
  let c := if c.isMemory && decide (memoryLimit < stop) then c.promote stop else c
  .ok (stop, c.store offset data)

def readRange (c : DirtyContents) (offset size : Nat) : Result Bytes :=
  if c.len ≤ offset then .ok []
  else
    let count := min (c.len - offset) size
    match c with
    | memory bytes => .ok (slice bytes offset count)
    -- `read_exact` fails on a file that is too short.
    | staged file _ => if offset + count ≤ file.length then .ok (slice file offset count)
        else .error .io

def snapshot : DirtyContents → WritebackSource
  | memory bytes => .memory bytes
  | staged file len => .file file len

def toVec : DirtyContents → Bytes
  | memory bytes => bytes
  | staged file _ => file

end DirtyContents

def WritebackSource.streamed : WritebackSource → Bytes
  | memory bytes => bytes
  | file bytes len => bytes.take len

structure Limits where
  max_object_bytes : Nat
  max_logical_object_bytes : Nat

structure Inner where
  nodes : Nat → Option Node
  handles : Nat → Option Handle
  next_fh : Nat
  dirty : Nat → Option DirtyFile

namespace Inner

def get {α : Type} (m : Nat → Option α) (k : Nat) (e : FsError) : Result α :=
  match m k with
  | some a => .ok a
  | none => .error e

def setSize (g : Inner) (ino size : Nat) : Inner :=
  { g with nodes := fun i => if i = ino then (g.nodes i).map ({ · with size := size })
    else g.nodes i }

def openWithOptionsAndTruncate (g : Inner) (ino : Nat) (options : OpenOptions)
    (initial_contents : Option Bytes) : Result (Nat × Inner) :=
  if !options.read && !options.write then .error .invalid
  else do
    let node ← get g.nodes ino .notFound
    match node.kind with
    | .directory => .error .isDir
    | .symlink => .error .loop
    | .namedPipe | .blockDevice | .charDevice | .socket => .error .unsupported
    | .file =>
      if options.write && initial_contents.isNone then .error .invalid
      else
        let fh := g.next_fh
        let opened : Inner :=
          { g with
            next_fh := fh + 1
            handles := PartialMap.insert g.handles fh
              ⟨ino, options.read, options.write, options.append⟩ }
        match initial_contents with
        | none => .ok (fh, opened)
        | some buf =>
          .ok (fh, { opened with
            dirty := PartialMap.insert g.dirty fh ⟨ino, .memory buf⟩ }.setSize ino buf.length)

def readSource (g : Inner) (fh offset size : Nat) : Result ReadSource := do
  let handle ← get g.handles fh .badHandle
  if !handle.read then .error .badHandle
  else
    match g.dirty fh with
    | some dirty =>
      let bytes ← dirty.contents.readRange offset size
      let _ ← get g.nodes handle.ino .notFound
      .ok (.buffered bytes)
    | none =>
      let node ← get g.nodes handle.ino .notFound
      .ok (.backend node.path node.size)

def writeStart (g : Inner) (fh : Nat) (handle : Handle) (offset : Nat) : Result Nat :=
  if handle.append then (get g.dirty fh .badHandle).map fun dirty => dirty.contents.len
  else .ok offset

/-- The number of bytes is returned as a `u32`. -/
def write (limits : Limits) (g : Inner) (fh offset : Nat) (data : Bytes) :
    Result (Nat × Inner) := do
  let handle ← get g.handles fh .badHandle
  if !handle.write then .error .badHandle
  else
    let start ← g.writeStart fh handle offset
    let stop ← checkedAdd start data.length
    if limits.max_logical_object_bytes < stop then .error .tooLarge
    else
      let dirty ← get g.dirty fh .badHandle
      let (_, contents) ← dirty.contents.writeAt start data limits.max_object_bytes
      let g := { g with dirty := PartialMap.insert g.dirty fh { dirty with contents := contents } }
      .ok (data.length % 2 ^ 32, g.setSize dirty.ino contents.len)

def truncateHandlePlan (limits : Limits) (g : Inner) (fh size : Nat) : Result (String × Bytes) := do
  let handle ← get g.handles fh .badHandle
  if !handle.write then .error .badHandle
  else if limits.max_object_bytes < size then .error .tooLarge
  else
    let dirty ← get g.dirty fh .badHandle
    let node ← get g.nodes dirty.ino .notFound
    .ok (node.path, resize dirty.contents.toVec size)

def commitInodeContents (g : Inner) (ino : Nat) (contents : Bytes) : Result Inner := do
  let node ← get g.nodes ino .notFound
  if node.kind ≠ .file then .error .isDir
  else
    let g := g.setSize ino contents.length
    .ok { g with dirty := fun fh => (g.dirty fh).map fun dirty =>
      if dirty.ino = ino then { dirty with contents := .memory contents } else dirty }

def commitHandleContents (g : Inner) (fh : Nat) (contents : Bytes) : Result Inner := do
  let handle ← get g.handles fh .badHandle
  if !handle.write then .error .badHandle
  else g.commitInodeContents handle.ino contents

def truncate (limits : Limits) (g : Inner) (fh size : Nat) : Result Inner := do
  let (_, contents) ← g.truncateHandlePlan limits fh size
  g.commitHandleContents fh contents

def dirtyBytes (g : Inner) (fh : Nat) : Option Bytes :=
  (g.dirty fh).map fun dirty => dirty.contents.toVec

def dirtySource (g : Inner) (fh : Nat) : Option WritebackSource :=
  (g.dirty fh).map fun dirty => dirty.contents.snapshot

end Inner

variable {data : Bytes}

namespace DirtyContents

def Whole : DirtyContents → Prop
  | memory _ => True
  | staged file len => len = file.length

variable {c : DirtyContents}

theorem Whole.length (h : c.Whole) : c.toVec.length = c.len := by
  cases c with
  | memory => rfl
  | staged => exact h.symm

theorem Whole.streamed (h : c.Whole) : c.snapshot.streamed = c.toVec := by
  cases c with
  | memory => rfl
  | staged file len =>
    have same : len = file.length := h
    subst same
    exact take_length

theorem Whole.readRange (h : c.Whole) (offset size : Nat) :
    c.readRange offset size = .ok (slice c.toVec offset size) := by
  have length := h.length
  rw [DirtyContents.readRange]
  by_cases past : c.len ≤ offset
  · have nothing : c.toVec.drop offset = [] := drop_eq_nil_of_le (by omega)
    rw [if_pos past, slice, nothing, take_nil]
  · -- The count stops at the end of the contents, where a longer read stops too.
    have count : slice c.toVec offset (min (c.len - offset) size) = slice c.toVec offset size := by
      rw [slice, slice, ← length, ← length_drop, Nat.min_comm, ← take_take,
        take_length]
    rw [if_neg past]
    cases c with
    | memory => exact congrArg _ count
    | staged file len =>
      have same : len = file.length := h
      have inside : offset + min (len - offset) size ≤ file.length := by
        have before : ¬ len ≤ offset := past
        omega
      exact (if_pos inside).trans (congrArg _ count)

theorem written_of_resize {b : Bytes} {off : Nat} (h : b.length ≤ off + data.length) :
    written (resize b (off + data.length)) off data = written b off data := by
  apply ext_getD
  · simp only [length_written, length_resize]
    omega
  · intro i inside
    rw [length_written] at inside
    have within : i < off + data.length := by omega
    rw [getD_written, getD_written, getD_resize, if_pos within]

theorem Whole.store (h : c.Whole) (offset : Nat) (data : Bytes) :
    (c.store offset data).Whole ∧
      (c.store offset data).toVec = written c.toVec offset data := by
  cases c with
  | memory bytes =>
    refine ⟨trivial, ?_⟩
    have grown : (if bytes.length < offset + data.length then
        resize bytes (offset + data.length) else bytes) =
        resize bytes (max bytes.length (offset + data.length)) := by
      by_cases short : bytes.length < offset + data.length
      · rw [if_pos short, Nat.max_eq_right (Nat.le_of_lt short)]
      · have long : offset + data.length ≤ bytes.length := Nat.le_of_not_lt short
        rw [if_neg short, Nat.max_eq_left long, resize_eq_resized, resized_self rfl]
    rw [DirtyContents.store, toVec, grown]
    exact copyInto_resize bytes data offset
  | staged file len =>
    have same : len = file.length := h
    simp only [DirtyContents.store, overwrite_eq_copyInto, copyInto_resize]
    by_cases short : len < offset + data.length
    · have length : offset + data.length = (written file offset data).length := by
        rw [length_written]
        omega
      rw [if_pos short, resize_eq_resized, resized_self length]
      exact ⟨length, rfl⟩
    · rw [if_neg short]
      refine ⟨?_, rfl⟩
      rw [Whole, length_written]
      omega

/-- A write keeps the bytes outside its range, provided that it does not move to the staging file
a copy that reaches past the end of the write. -/
theorem Whole.writeAt {c' : DirtyContents} {offset stop limit : Nat} (h : c.Whole)
    (tail : c.isMemory = true → limit < offset + data.length → c.len ≤ offset + data.length)
    (done : c.writeAt offset data limit = .ok (stop, c')) :
    c'.Whole ∧ c'.toVec = written c.toVec offset data := by
  obtain ⟨stop', sum, rest⟩ := bind_ok done
  have stop_eq : stop' = offset + data.length := by
    unfold checkedAdd at sum
    split at sum
    · exact (Except.ok.inj sum).symm
    · cases sum
  subst stop_eq
  obtain rfl := (Prod.mk.inj (Except.ok.inj rest)).2
  cases c with
  | staged => exact h.store offset data
  | memory bytes =>
    by_cases large : limit < offset + data.length
    · have short := tail rfl large
      have moved : (promote (memory bytes) (offset + data.length)).Whole := by
        rw [promote, Whole, length_resize]
      obtain ⟨whole, bytes_eq⟩ := moved.store offset data
      rw [if_pos (by simp [isMemory, large])]
      refine ⟨whole, bytes_eq.trans ?_⟩
      exact written_of_resize short
    · rw [if_neg (by simp [isMemory, large])]
      exact h.store offset data

end DirtyContents

namespace Inner

theorem get_ok {α : Type} {m : Nat → Option α} {k : Nat} {e : FsError} {a : α}
    (h : get m k e = .ok a) : m k = some a := by
  unfold get at h
  split at h
  · rename_i found
    rw [found, Except.ok.inj h]
  · cases h

theorem get_some {α : Type} {m : Nat → Option α} {k : Nat} {e : FsError} {a : α}
    (h : m k = some a) : get m k e = .ok a := by
  rw [get, h]

theorem setSize_nodes {g : Inner} {ino size i : Nat} (h : ∃ node, g.nodes i = some node) :
    ∃ node, (g.setSize ino size).nodes i = some node := by
  obtain ⟨_, found⟩ := h
  simp only [setSize, found, map_some]
  split <;> exact ⟨_, rfl⟩

structure Holds (g : Inner) (fh : Nat) (options : OpenOptions) (ino : Nat)
    (contents : DirtyContents) : Prop where
  handle : g.handles fh = some ⟨ino, options.read, options.write, options.append⟩
  dirty : g.dirty fh = some ⟨ino, contents⟩
  node : ∃ node, g.nodes ino = some node
  whole : contents.Whole

/-- The write does not move to the staging file a working copy that reaches past its end. -/
def KeepsTail (limits : Limits) (g : Inner) (fh offset : Nat) (data : Bytes) : Prop :=
  ∀ handle dirty bytes, g.handles fh = some handle → g.dirty fh = some dirty →
    dirty.contents = .memory bytes → handle.append = false →
    limits.max_object_bytes < offset + data.length → bytes.length ≤ offset + data.length

def start (options : OpenOptions) (b : Bytes) (offset : Nat) : Nat :=
  if options.append then b.length else offset

variable {limits : Limits} {g g' : Inner} {fh ino : Nat} {options : OpenOptions} {b : Bytes}
  {c : DirtyContents}

theorem holds_open (done : g.openWithOptionsAndTruncate ino options (some b) = .ok (fh, g')) :
    g'.Holds fh options ino (.memory b) := by
  obtain ⟨_, looked⟩ := guard_ok done
  obtain ⟨node, found, rest⟩ := bind_ok looked
  cases kind : node.kind with
  | file =>
    rw [kind] at rest
    obtain ⟨_, opened⟩ := guard_ok rest
    obtain ⟨rfl, rfl⟩ := Prod.mk.inj (Except.ok.inj opened)
    exact {
      handle := PartialMap.insert_self ..
      dirty := PartialMap.insert_self ..
      node := setSize_nodes ⟨node, get_ok found⟩
      whole := trivial }
  | directory | symlink | namedPipe | blockDevice | charDevice | socket =>
    rw [kind] at rest
    cases rest

variable (h : g.Holds fh options ino c)
include h

theorem Holds.readSource (readable : options.read = true) (offset size : Nat) :
    g.readSource fh offset size = .ok (.buffered (slice c.toVec offset size)) := by
  obtain ⟨node, found⟩ := h.node
  simp [Inner.readSource, get, h.handle, h.dirty, readable, h.whole.readRange, found, bind,
    Except.bind]

theorem Holds.write {offset n : Nat} (tail : g.KeepsTail limits fh offset data)
    (done : g.write limits fh offset data = .ok (n, g')) :
    n = data.length % 2 ^ 32 ∧
      ∃ c', g'.Holds fh options ino c' ∧
        c'.toVec = written c.toVec (start options c.toVec offset) data := by
  obtain ⟨handle, handle_ok, rest⟩ := bind_ok done
  obtain rfl : _ = handle := some.inj (h.handle.symm.trans (get_ok handle_ok))
  obtain ⟨_, rest⟩ := guard_ok rest
  obtain ⟨from_, from_ok, rest⟩ := bind_ok rest
  have from_eq : from_ = start options c.toVec offset := by
    rw [writeStart, get_some h.dirty, Except.map] at from_ok
    unfold start
    by_cases append : options.append = true
    · rw [if_pos append] at from_ok ⊢
      rw [h.whole.length]
      exact (Except.ok.inj from_ok).symm
    · rw [if_neg append] at from_ok ⊢
      exact (Except.ok.inj from_ok).symm
  obtain ⟨_, _, rest⟩ := bind_ok rest
  obtain ⟨_, rest⟩ := guard_ok rest
  obtain ⟨dirty, dirty_ok, rest⟩ := bind_ok rest
  obtain rfl : _ = dirty := some.inj (h.dirty.symm.trans (get_ok dirty_ok))
  obtain ⟨⟨_, c'⟩, stored, rest⟩ := bind_ok rest
  obtain ⟨rfl, rfl⟩ := Prod.mk.inj (Except.ok.inj rest)
  -- An append ends past the contents; any other write meets the condition.
  have kept : c.isMemory = true → limits.max_object_bytes < from_ + data.length →
      c.len ≤ from_ + data.length := by
    intro memory large
    cases c with
    | staged => cases memory
    | memory bytes =>
      subst from_eq
      unfold start at large ⊢
      by_cases append : options.append = true
      · rw [if_pos append]
        exact Nat.le_add_right _ _
      · rw [if_neg append] at large ⊢
        exact tail _ _ bytes h.handle h.dirty rfl (by simpa using append) large
  obtain ⟨whole, bytes⟩ := h.whole.writeAt kept stored
  refine ⟨rfl, c', ?_, from_eq ▸ bytes⟩
  exact {
    handle := h.handle
    dirty := PartialMap.insert_self ..
    node := setSize_nodes h.node
    whole := whole }

theorem Holds.truncate {size : Nat} (done : g.truncate limits fh size = .ok g') :
    g'.Holds fh options ino (.memory (resized c.toVec size)) := by
  obtain ⟨⟨_, _⟩, plan, commit⟩ := bind_ok done
  obtain ⟨handle, _, plan⟩ := bind_ok plan
  obtain ⟨_, plan⟩ := guard_ok plan
  obtain ⟨_, plan⟩ := guard_ok plan
  obtain ⟨dirty, dirty_ok, plan⟩ := bind_ok plan
  obtain rfl : _ = dirty := some.inj (h.dirty.symm.trans (get_ok dirty_ok))
  obtain ⟨node, _, plan⟩ := bind_ok plan
  obtain ⟨_, rfl⟩ := Prod.mk.inj (Except.ok.inj plan)
  obtain ⟨handle', handle_ok', commit⟩ := bind_ok commit
  obtain rfl : _ = handle' := some.inj (h.handle.symm.trans (get_ok handle_ok'))
  obtain ⟨_, commit⟩ := guard_ok commit
  obtain ⟨_, _, commit⟩ := bind_ok commit
  obtain ⟨_, commit⟩ := guard_ok commit
  obtain rfl := Except.ok.inj commit
  exact {
    handle := h.handle
    dirty := by simp [setSize, h.dirty, resize_eq_resized]
    node := setSize_nodes h.node
    whole := trivial }

omit h

/-- An operation through the handle that succeeded, where `Allowed` restricts the writes.  A failed
operation changes nothing. -/
inductive Step (limits : Limits) (fh : Nat) (Allowed : Inner → Nat → Bytes → Prop) :
    Inner → Inner → Prop
  | write {g g' offset n data} (allowed : Allowed g offset data)
      (done : g.write limits fh offset data = .ok (n, g')) : Step limits fh Allowed g g'
  | truncate {g g' size} (done : g.truncate limits fh size = .ok g') :
      Step limits fh Allowed g g'
  | read {g offset size source}
      (done : g.readSource fh offset size = .ok source) : Step limits fh Allowed g g

/-- The handle behaves as the byte array `b`: every way to read it returns `b`, and the next
operation turns it into what that operation makes of `b`. -/
structure IsByteArray (limits : Limits) (fh : Nat) (options : OpenOptions)
    (Allowed : Inner → Nat → Bytes → Prop) (g : Inner) (b : Bytes) : Prop where
  dirty_bytes : g.dirtyBytes fh = some b
  snapshot : (g.dirtySource fh).map WritebackSource.streamed = some b
  read : options.read = true → ∀ offset size,
    g.readSource fh offset size = .ok (.buffered (slice b offset size))
  write : ∀ offset data n g', Allowed g offset data →
    g.write limits fh offset data = .ok (n, g') →
      n = data.length % 2 ^ 32 ∧ g'.dirtyBytes fh = some (written b (start options b offset) data)
  truncate : ∀ size g', g.truncate limits fh size = .ok g' →
    g'.dirtyBytes fh = some (resized b size)

include h

theorem Holds.dirtyBytes : g.dirtyBytes fh = some c.toVec := by
  rw [Inner.dirtyBytes, h.dirty]
  rfl

theorem Holds.isByteArray : IsByteArray limits fh options (KeepsTail limits · fh) g c.toVec where
  dirty_bytes := h.dirtyBytes
  snapshot := by
    rw [dirtySource, h.dirty]
    exact congrArg some h.whole.streamed
  read := fun readable offset size => h.readSource readable offset size
  write := by
    intro _ _ n g' tail done
    obtain ⟨count, _, held, bytes⟩ := h.write tail done
    exact ⟨count, bytes ▸ held.dirtyBytes⟩
  truncate := by
    intro _ _ done
    exact (h.truncate done).dirtyBytes

omit h

/-- Whatever a step does, the handle goes on holding all of its bytes. -/
theorem Holds.step (h : ∃ c, g.Holds fh options ino c)
    (step : Step limits fh (KeepsTail limits · fh) g g') : ∃ c, g'.Holds fh options ino c := by
  obtain ⟨c, held⟩ := h
  cases step with
  | write allowed done =>
    obtain ⟨_, c', held', _⟩ := held.write allowed done
    exact ⟨c', held'⟩
  | truncate done => exact ⟨_, held.truncate done⟩
  | read => exact ⟨c, held⟩

/-- An open file is one byte array, as long as no write cuts off the tail when it moves to staging.
-/
theorem isByteArray_of_run {g₀ : Inner}
    (opened : g₀.openWithOptionsAndTruncate ino options (some b) = .ok (fh, g))
    (run : Relation.ReflTransGen (Step limits fh (KeepsTail limits · fh)) g g') :
    g.dirtyBytes fh = some b ∧
      ∃ b', IsByteArray limits fh options (KeepsTail limits · fh) g' b' := by
  have first := holds_open opened
  have last : ∃ c, g'.Holds fh options ino c := by
    apply Transition.kept_by_run _ ⟨_, first⟩ run
    intro s t one held
    exact Holds.step held one
  obtain ⟨c, held⟩ := last
  exact ⟨first.dirtyBytes, c.toVec, held.isByteArray⟩

def oneFile : Inner where
  nodes := fun i => if i = 2 then some ⟨.file, 0, "/s3/bucket/key"⟩ else none
  handles := PartialMap.empty
  next_fh := 1
  dirty := PartialMap.empty

def oneOpen (b : Bytes) : Inner :=
  { oneFile with
    handles := PartialMap.insert PartialMap.empty 1 ⟨2, true, true, false⟩
    next_fh := 2
    dirty := PartialMap.insert PartialMap.empty 1 ⟨2, .memory b⟩ }.setSize 2 b.length

/-- A write past the threshold into contents that were longer already cuts them off at its end. -/
theorem byteArray_fails_above_threshold :
    oneFile.openWithOptionsAndTruncate 2 ⟨true, true, false⟩ (some [1, 2, 3, 4, 5, 6]) =
        .ok (1, oneOpen [1, 2, 3, 4, 5, 6]) ∧
      ∃ g, (oneOpen [1, 2, 3, 4, 5, 6]).write ⟨2, 100⟩ 1 3 [9] = .ok (1, g) ∧
        g.dirtyBytes 1 = some [1, 2, 3, 9] ∧
        written [1, 2, 3, 4, 5, 6] 3 [9] = [1, 2, 3, 9, 5, 6] :=
  ⟨rfl, _, rfl, rfl, rfl⟩

theorem isByteArray_of_staging_run :
    ∃ g, (oneOpen [1, 2]).write ⟨2, 100⟩ 1 3 [9] = .ok (1, g) ∧
      ∃ b, IsByteArray ⟨2, 100⟩ 1 ⟨true, true, false⟩ (KeepsTail ⟨2, 100⟩ · 1) g b := by
  refine ⟨_, rfl, ?_⟩
  have opened : oneFile.openWithOptionsAndTruncate 2 ⟨true, true, false⟩ (some [1, 2]) =
      .ok (1, oneOpen [1, 2]) := rfl
  have short : KeepsTail ⟨2, 100⟩ (oneOpen [1, 2]) 1 3 [9] := by
    intro _ _ _ _ found memory _ _
    obtain rfl := some.inj found
    obtain rfl := DirtyContents.memory.inj memory
    decide
  exact (isByteArray_of_run opened (.single (.write short rfl))).2

end Inner

end Talon.Fuse
