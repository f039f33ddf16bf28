import Talon.Lib.Transition
import Talon.Catalog.Model

/-!
# The stores at work on the catalog

The whole-block store and the paged store bracket every mutation of their files by `Catalog::begin`
and `Catalog::complete`.  Records are numbered and written before `apply_record` sees them, so that
they are accepted is up to the stores: a mutation runs under a gate, and one that fails after its
`Begin` poisons the journal.  The steps below are those of all mutations in progress, of the
journal's writer, of startup and of crashes; the log of records is what a restart replays.
-/

set_option autoImplicit false

namespace Talon.Catalog

open Relation SortedMap State
open Talon.Core (BlockId Str sampleBlock)
open Option

def State.replay (s : State) (lsn : Nat) : List Record → Except String State
  | [] => .ok s
  | record :: records => do
    let t ← s.applyRecord (lsn + 1) record
    t.replay (lsn + 1) records

/-- How a mutation holds the gate of its block: page fills share it, each as the owner of the
in-flight guard of its page (`lock_page_fill`); everything else excludes all others (`lock`). -/
inductive Lock
  | fill (page : Nat)
  | exclusive
deriving DecidableEq

def Lock.excludes : Lock → Lock → Bool
  | .fill p, .fill q => p = q
  | _, _ => true

inductive Mutation
  | putWhole (block : BlockId) (len : Nat)
  | deleteWhole (block : BlockId)
  | commitPage (block : BlockId) (page len : Nat) (warmOnly : Bool)
  | evictPage (block : BlockId) (page : Nat)
  | deletePaged (block : BlockId)
deriving DecidableEq

namespace Mutation

def intent : Mutation → Intent
  | .putWhole block len => ⟨wholePath, block, .putWhole len⟩
  | .deleteWhole block => ⟨wholePath, block, .deleteBlock⟩
  | .commitPage block page len _ => ⟨pagedPath, block, .put page len⟩
  | .evictPage block page => ⟨pagedPath, block, .deletePage page⟩
  | .deletePaged block => ⟨pagedPath, block, .deleteBlock⟩

def lock : Mutation → Lock
  | .commitPage _ page _ true => .fill page
  | _ => .exclusive

theorem operation_of_fill {m : Mutation} {page : Nat} (h : m.lock = .fill page) :
    ∃ len, m.intent.operation = .put page len := by
  cases m with
  | commitPage _ p len warmOnly =>
    cases warmOnly with
    | true =>
      cases h
      exact ⟨len, rfl⟩
    | false => cases h
  | _ => cases h

theorem apart {a b : Mutation}
    (free : a.intent.store = b.intent.store → a.intent.block = b.intent.block →
    a.lock.excludes b.lock = false) : a.intent.overlaps b.intent = false := by
  rw [Bool.eq_false_iff]
  intro overlap
  obtain ⟨store, block, conflict⟩ := of_decide_eq_true overlap
  have shared := free store block
  cases left : a.lock with
  | exclusive => rw [left] at shared; cases shared
  | fill =>
    cases right : b.lock with
    | exclusive => rw [left, right] at shared; cases shared
    | fill =>
      obtain ⟨_, putLeft⟩ := operation_of_fill left
      obtain ⟨_, putRight⟩ := operation_of_fill right
      rw [putLeft, putRight] at conflict
      rw [left, right] at shared
      exact of_decide_eq_false shared (of_decide_eq_true conflict)

end Mutation

/-- Where a mutation is between taking its gate and giving it back.  A request passes the check of
the `failed` flag first and is numbered by the writer later. -/
inductive Stage
  | locked
  | asked
  | begun (transaction : Nat)
  | working (transaction : Nat)
  | asking (transaction : Nat)
  | completed
deriving DecidableEq

/-- The transaction that has a `Begin` and no `Complete` in the log. -/
def Stage.transaction? : Stage → Option Nat
  | .begun t | .working t | .asking t => some t
  | .locked | .asked | .completed => none

structure Task where
  mutation : Mutation
  native : Bool
  stage : Stage
deriving DecidableEq

inductive Phase
  | closed
  | reconciling (pending : List (Nat × Intent))
  | serving

structure Runtime where
  /-- The numbered records, each at its position in the log. -/
  records : List Record := []
  phase : Phase := .closed
  /-- `Handle::poison` was called. -/
  failed : Bool := false
  /-- The writer has left its loop. -/
  halted : Bool := false
  tasks : Nat → Option Task := PartialMap.empty

/-- What a run of the stores depends on from outside: the arguments of a mutation, and whether a
native page task ends without a result. -/
inductive Call
  | mutate (m : Mutation)
  | stop

namespace Runtime

def append (r : Runtime) (record : Record) : Runtime := { r with records := r.records ++ [record] }

def put (r : Runtime) (id : Nat) (task : Task) : Runtime :=
  { r with tasks := PartialMap.insert r.tasks id task }

def drop (r : Runtime) (id : Nat) : Runtime := { r with tasks := PartialMap.erase r.tasks id }

def poison (r : Runtime) : Runtime := { r with failed := true }

inductive Step (met : Runtime → Call → Prop) : Runtime → Runtime → Prop
  /-- `open_stream` replays the log and `reconcile` asks for what is pending. -/
  | start {r s} (closed : r.phase = .closed) (replayed : State.replay {} 0 r.records = .ok s) :
      Step met r { r with phase := .reconciling s.pending.entries }
  | resolve {r transaction intent rest}
      (next : r.phase = .reconciling ((transaction, intent) :: rest)) (running : r.halted = false) :
      Step met r { r.append (.resolve transaction) with phase := .reconciling rest }
  | reconciled {r} (done : r.phase = .reconciling []) : Step met r { r with phase := .serving }
  /-- A store that `registered` does not find is registered: the whole-block store with page size
  zero, the paged store with the positive size of a validated configuration. -/
  | register {r s path pageSize} (serving : r.phase = .serving) (running : r.halted = false)
      (issued : path = wholePath ∧ pageSize = 0 ∨ path = pagedPath ∧ 0 < pageSize)
      (replayed : State.replay {} 0 r.records = .ok s) (fresh : s.stores.get? path = none) :
      Step met r (r.append (.store path pageSize))
  | lock {r s} (id : Nat) (m : Mutation) (native : Bool) (serving : r.phase = .serving)
      (replayed : State.replay {} 0 r.records = .ok s)
      (opened : (s.stores.get? m.intent.store).isSome = true) (idle : r.tasks id = none)
      (free : ∀ other task, r.tasks other = some task →
        task.mutation.intent.store = m.intent.store → task.mutation.intent.block = m.intent.block →
          task.mutation.lock.excludes m.lock = false)
      (call : met r (.mutate m)) : Step met r (r.put id ⟨m, native, .locked⟩)
  | leave {r i m native} (here : r.tasks i = some ⟨m, native, .locked⟩) : Step met r (r.drop i)
  | ask {r i m native} (here : r.tasks i = some ⟨m, native, .locked⟩) (alive : r.failed = false) :
      Step met r (r.put i ⟨m, native, .asked⟩)
  | begin {r i m native} (here : r.tasks i = some ⟨m, native, .asked⟩)
      (running : r.halted = false) :
      Step met r ((r.append (.begin m.intent)).put i ⟨m, native, .begun (r.records.length + 1)⟩)
  | reply {r i m native t} (here : r.tasks i = some ⟨m, native, .begun t⟩) :
      Step met r (r.put i ⟨m, native, .working t⟩)
  | ioFailed {r i m native t} (here : r.tasks i = some ⟨m, native, .working t⟩) :
      Step met r (r.poison.drop i)
  /-- `journaled page task stopped`: the error is returned at once. -/
  | stopped {r i block page len warmOnly t}
      (here : r.tasks i = some ⟨.commitPage block page len warmOnly, true, .working t⟩)
      (call : met r .stop) : Step met r (r.drop i)
  | ioDone {r i m native t} (here : r.tasks i = some ⟨m, native, .working t⟩)
      (alive : r.failed = false) :
      Step met r (r.put i ⟨m, native, .asking t⟩)
  | refused {r i m native t} (here : r.tasks i = some ⟨m, native, .working t⟩)
      (dead : r.failed = true ∨ r.halted = true) : Step met r (r.drop i)
  | complete {r i m native t} (here : r.tasks i = some ⟨m, native, .asking t⟩) (allocated : Nat)
      (running : r.halted = false) :
      Step met r ((r.append (.complete t allocated)).put i ⟨m, native, .completed⟩)
  | replied {r i m native} (here : r.tasks i = some ⟨m, native, .completed⟩) : Step met r (r.drop i)
  | lost {r i} (dead : r.halted = true) : Step met r (r.drop i)
  | halt {r} : Step met r { r with halted := true }
  /-- Records that were not yet synced may be lost, the last first. -/
  | crash {r} (n : Nat) : Step met r { records := r.records.take n }

end Runtime

/-! ## Replay -/

variable {record : Record} {intent : Intent}

variable {pageSize transaction : Nat} {task : Task}

section Replay

variable {s t : State}

theorem State.replay_append (lsn : Nat) (xs ys : List Record) :
    s.replay lsn (xs ++ ys) = s.replay lsn xs >>= fun t => t.replay (lsn + xs.length) ys := by
  induction xs generalizing s lsn with
  | nil => rfl
  | cons record xs ih =>
    change (s.applyRecord (lsn + 1) record >>= fun t => t.replay (lsn + 1) (xs ++ ys)) =
      (s.applyRecord (lsn + 1) record >>= fun t => t.replay (lsn + 1) xs) >>= _
    cases applied : s.applyRecord (lsn + 1) record with
    | error => rfl
    | ok u =>
      change u.replay (lsn + 1) (xs ++ ys) = u.replay (lsn + 1) xs >>= _
      rw [ih, List.length_cons, Nat.add_assoc, Nat.add_comm 1 xs.length]

variable {lsn : Nat} {records : List Record}

theorem State.replay_snoc (before : s.replay lsn records = .ok t) {u : State}
    (accepted : t.applyRecord (lsn + records.length + 1) record = .ok u) :
    s.replay lsn (records ++ [record]) = .ok u := by
  rw [replay_append, before]
  change (t.applyRecord (lsn + records.length + 1) record >>= fun v => .ok v) = _
  rw [accepted]
  rfl

theorem State.replay_take (all : s.replay lsn records = .ok t) (n : Nat) :
    ∃ u, s.replay lsn (records.take n) = .ok u := by
  rw [← List.take_append_drop n records, replay_append] at all
  obtain ⟨u, first, -⟩ := Fallible.bind_ok all
  exact ⟨u, first⟩

theorem State.Reached.replay (reached : s.Reached) (all : s.replay lsn records = .ok t) :
    t.Reached := by
  induction records generalizing s lsn with
  | nil =>
    cases all
    exact reached
  | cons record _ ih =>
    obtain ⟨u, first, rest⟩ := Fallible.bind_ok all
    exact ih (reached.record first) rest

theorem State.applyRecord_pending (done : s.applyRecord lsn record = .ok t) {u : Nat}
    (found : t.pending.get? u = some intent) : u = lsn ∨ s.pending.get? u = some intent := by
  cases record with
  | store =>
    obtain ⟨-, -, rfl, -⟩ := register_ok done
    exact .inr found
  | begin =>
    obtain ⟨-, -, rfl, -⟩ := openIntent_ok done
    rw [get?_insert] at found
    split at found
    · exact .inl ‹_›
    · exact .inr found
  | resolve transaction | complete transaction allocated =>
    obtain ⟨_, _, -, -, rfl⟩ := close_ok done
    exact .inr (get?_of_erase found)

theorem State.replay_pending (all : s.replay lsn records = .ok t)
    (below : ∀ u intent, s.pending.get? u = some intent → u ≤ lsn) {u : Nat}
    (found : t.pending.get? u = some intent) : u ≤ lsn + records.length := by
  induction records generalizing s lsn with
  | nil =>
    cases all
    exact below u intent found
  | cons _ _ ih =>
    obtain ⟨v, first, rest⟩ := Fallible.bind_ok all
    have bound := ih rest fun u' i found' => by
      rcases applyRecord_pending first found' with here | earlier
      · exact Nat.le_of_eq here
      · exact Nat.le_succ_of_le (below u' i earlier)
    rw [List.length_cons]
    omega

def State.geometry (s : State) (path : Str) : Option Nat := (s.stores.get? path).map Store.pageSize

theorem State.Ok.geometry (ok : s.Ok) (done : s.applyRecord lsn record = .ok t) {path : Str}
    (known : s.geometry path = some pageSize) : t.geometry path = some pageSize := by
  obtain ⟨store, at_, rfl⟩ := map_eq_some_iff.mp known
  have closed {transaction : Nat} {f : Store → Intent → Store}
      (keeps : ∀ store intent, store.Ok →
        intent.operation.validate intent.block store.pageSize = .ok () →
        (f store intent).Ok ∧ (f store intent).pageSize = store.pageSize)
      (done : s.close transaction f = .ok t) : t.geometry path = some store.pageSize := by
    obtain ⟨intent, _, pending, there, rfl⟩ := close_ok done
    obtain ⟨_, there', valid⟩ := ok.known transaction intent pending
    cases there.symm.trans there'
    unfold geometry
    rw [get?_insert]
    split
    · rename_i same
      rw [same, there] at at_
      cases at_
      exact congrArg some (keeps _ intent (ok.store _ _ there) valid).2
    · rw [at_]
      rfl
  cases record with
  | store =>
    obtain ⟨-, -, rfl, same⟩ := register_ok done
    unfold geometry
    rw [get?_insert]
    split
    · rename_i here
      rw [here] at at_
      exact congrArg some (same store at_).symm
    · rw [at_]
      rfl
  | begin =>
    obtain ⟨-, -, rfl, -⟩ := openIntent_ok done
    exact known
  | resolve => exact closed (fun _ _ ok valid => ok.resolve valid) done
  | complete _ allocated => exact closed (fun _ _ ok valid => ok.complete valid allocated) done

end Replay

/-! ## What every step keeps -/

theorem Intent.overlaps_self (i : Intent) : i.overlaps i = true := by
  refine decide_eq_true ⟨rfl, rfl, ?_⟩
  unfold Operation.conflicts
  cases i.operation.page? with
  | none => rfl
  | some => exact decide_eq_true rfl

/-- The log replays to `s`; the transactions of the tasks are pending in it, and while the journal
is alive they are all that is pending. -/
structure Runtime.Holds (r : Runtime) (s : State) : Prop where
  replayed : State.replay {} 0 r.records = .ok s
  pending : ∀ id task t, r.tasks id = some task → task.stage.transaction? = some t →
    s.pending.get? t = some task.mutation.intent
  apart : r.halted = false → ∀ id task t intent, r.tasks id = some task → task.stage = .asked →
    s.pending.get? t = some intent → intent.overlaps task.mutation.intent = false
  owned : r.phase = .serving → r.failed = false → r.halted = false → ∀ t intent,
    s.pending.get? t = some intent → ∃ id task, r.tasks id = some task ∧
      task.stage.transaction? = some t ∧ task.mutation.intent = intent
  gates : ∀ id other a b, id ≠ other → r.tasks id = some a → r.tasks other = some b →
    a.mutation.intent.overlaps b.mutation.intent = false
  valid : ∀ id task, r.tasks id = some task → ∃ pageSize,
    s.geometry task.mutation.intent.store = some pageSize ∧
      task.mutation.intent.operation.validate task.mutation.intent.block pageSize = .ok ()
  idle : r.phase ≠ .serving → ∀ id, r.tasks id = none
  left : ∀ entries, r.phase = .reconciling entries → s.pending.entries = entries

namespace Runtime

section Tasks

variable {r : Runtime} {s : State} {id : Nat} {m : Mutation} {native : Bool} {stage : Stage}

@[simp] theorem tasks_append : (r.append record).tasks = r.tasks := rfl

variable {other : Nat}

theorem tasks_put : (r.put id task).tasks other = if other = id then some task else r.tasks other :=
  PartialMap.insert_apply ..

theorem tasks_drop : (r.drop id).tasks other = if other = id then none else r.tasks other :=
  PartialMap.erase_apply ..

theorem task_of_drop (found : (r.drop id).tasks other = some task) : r.tasks other = some task := by
  rw [tasks_drop] at found
  split at found
  · cases found
  · exact found

theorem holds_idle (replayed : replay {} 0 r.records = .ok s) (none_ : ∀ id, r.tasks id = none)
    (closed : r.phase = .serving → ∀ t intent, s.pending.get? t ≠ some intent)
    (left : ∀ entries, r.phase = .reconciling entries → s.pending.entries = entries) :
    r.Holds s := by
  refine ⟨replayed, fun id task _ found => ?_, fun _ id task _ _ found => ?_,
    fun serving _ _ t intent found => absurd found (closed serving t intent),
    fun id _ a _ _ found => ?_, fun id task found => ?_, fun _ => none_, left⟩ <;>
    cases (none_ id).symm.trans found

theorem Holds.ok (h : r.Holds s) : s.Ok := (State.Reached.empty.replay h.replayed).ok

theorem Holds.below (h : r.Holds s) {t : Nat} (found : s.pending.get? t = some intent) :
    t ≤ r.records.length := by
  have bound := replay_pending h.replayed nofun found
  omega

theorem Holds.serving (h : r.Holds s) (here : r.tasks id = some task) : r.phase = .serving := by
  by_contra away
  rw [h.idle away id] at here
  cases here

theorem task_of_put {new : Task} (found : (r.put id new).tasks other = some task) :
    (other = id ∧ task = new) ∨ (other ≠ id ∧ r.tasks other = some task) := by
  rw [tasks_put] at found
  split at found
  · cases found
    exact .inl ⟨‹_›, rfl⟩
  · exact .inr ⟨‹_›, found⟩

section

variable (h : r.Holds s)
include h

/-- A task moves on and may append to the log: the other tasks keep their transactions, and what is
pending then is its own or was pending before and not its own. -/
theorem Holds.put {records : List Record} {t : State} {new : Task} (serving : r.phase = .serving)
    (replayed : replay {} 0 records = .ok t)
    (keeps : ∀ path pageSize, s.geometry path = some pageSize → t.geometry path = some pageSize)
    (own : ∀ u, new.stage.transaction? = some u → t.pending.get? u = some new.mutation.intent)
    (kept : ∀ other task u, other ≠ id → r.tasks other = some task →
      task.stage.transaction? = some u → t.pending.get? u = s.pending.get? u)
    (free : new.stage = .asked → r.halted = false → ∀ u intent, t.pending.get? u = some intent →
      intent.overlaps new.mutation.intent = false)
    (pending : ∀ u intent, t.pending.get? u = some intent →
      (new.stage.transaction? = some u ∧ new.mutation.intent = intent) ∨
        (s.pending.get? u = some intent ∧
          ∀ task, r.tasks id = some task → task.stage.transaction? ≠ some u))
    (gates : ∀ other task, other ≠ id → r.tasks other = some task →
      task.mutation.intent.overlaps new.mutation.intent = false)
    (valid : ∃ pageSize, s.geometry new.mutation.intent.store = some pageSize ∧
      new.mutation.intent.operation.validate new.mutation.intent.block pageSize = .ok ()) :
    (Runtime.put { r with records } id new).Holds t := by
  refine ⟨replayed, fun other task u found open_ => ?_,
    fun running other task u intent found asked left => ?_,
    fun _ alive running u intent found => ?_, fun one two a b ne left right => ?_,
    fun other task found => ?_, fun away => absurd serving away,
    fun entries away => by cases serving.symm.trans away⟩
  · rcases task_of_put found with ⟨rfl, rfl⟩ | ⟨ne, there⟩
    · exact own u open_
    · exact (kept other task u ne there open_).trans (h.pending other task u there open_)
  · rcases task_of_put found with ⟨rfl, rfl⟩ | ⟨ne, there⟩
    · exact free asked running u intent left
    · rcases pending u intent left with ⟨-, rfl⟩ | ⟨before, -⟩
      · rw [Intent.overlaps_comm]
        exact gates other task ne there
      · exact h.apart running other task u intent there asked before
  · rcases pending u intent found with ⟨open_, intent_⟩ | ⟨before, others⟩
    · exact ⟨id, new, by rw [tasks_put, if_pos rfl], open_, intent_⟩
    · obtain ⟨other, task, there, open_, intent_⟩ := h.owned serving alive running u intent before
      have ne : other ≠ id := by
        rintro rfl
        exact others task there open_
      exact ⟨other, task, by rw [tasks_put, if_neg ne]; exact there, open_, intent_⟩
  · rcases task_of_put left with ⟨rfl, rfl⟩ | ⟨apart, left'⟩ <;>
      rcases task_of_put right with ⟨rfl, rfl⟩ | ⟨apart', right'⟩
    · exact absurd rfl ne
    · rw [Intent.overlaps_comm]
      exact gates two b apart' right'
    · exact gates one a apart left'
    · exact h.gates one two a b ne left' right'
  · have known : ∃ pageSize, s.geometry task.mutation.intent.store = some pageSize ∧
        task.mutation.intent.operation.validate task.mutation.intent.block pageSize = .ok () := by
      rcases task_of_put found with ⟨rfl, rfl⟩ | ⟨-, there⟩
      · exact valid
      · exact h.valid other task there
    exact known.imp fun _ known => ⟨keeps _ _ known.1, known.2⟩

section

variable (here : r.tasks id = some ⟨m, native, stage⟩)
include here

theorem Holds.gates_of (other : Nat) (task : Task) (ne : other ≠ id)
    (there : r.tasks other = some task) : task.mutation.intent.overlaps m.intent = false :=
  h.gates other id task ⟨m, native, stage⟩ ne there here

theorem Holds.restage {next : Stage} (same : next.transaction? = stage.transaction?)
    (free : next = .asked → r.halted = false → ∀ t intent, s.pending.get? t = some intent →
      intent.overlaps m.intent = false) : (r.put id ⟨m, native, next⟩).Holds s := by
  have mine := fun t => h.pending id ⟨m, native, stage⟩ t here
  refine h.put (h.serving here) h.replayed (fun _ _ known => known)
    (fun t open_ => mine t (same.symm.trans open_)) (fun _ _ _ _ _ _ => rfl) free
    (fun t intent found => ?_) (h.gates_of here) (h.valid id ⟨m, native, stage⟩ here)
  by_cases open_ : stage.transaction? = some t
  · exact .inl ⟨same.trans open_, some.inj ((mine t open_).symm.trans found)⟩
  · exact .inr ⟨found, fun task there => by cases here.symm.trans there; exact open_⟩

end

/-- The writer numbers a `Begin`: its gate has kept everything that overlaps out of the log. -/
theorem Holds.begin (here : r.tasks id = some ⟨m, native, .asked⟩) (running : r.halted = false) :
    ((r.append (.begin m.intent)).put id ⟨m, native, .begun (r.records.length + 1)⟩).Holds
      { s with pending := s.pending.insert (r.records.length + 1) m.intent } := by
  have older {t : Nat} {intent : Intent} (found : s.pending.get? t = some intent) :
      t ≠ r.records.length + 1 := by
    have bound := h.below found
    omega
  have fresh : s.pending.get? (r.records.length + 1) = none := by
    by_contra some_
    obtain ⟨intent, found⟩ := ne_none_iff_exists'.mp some_
    exact older found rfl
  have free := fun t intent => h.apart running id ⟨m, native, .asked⟩ t intent here rfl
  obtain ⟨_, known, valid⟩ := h.valid id ⟨m, native, .asked⟩ here
  obtain ⟨_, at_, rfl⟩ := map_eq_some_iff.mp known
  have accepted := openIntent_of (Nat.succ_pos _) fresh at_ valid free
  refine h.put (h.serving here) (replay_snoc h.replayed (by rw [Nat.zero_add]; exact accepted))
    (fun _ _ known => known) (fun u open_ => ?_) (fun other task u ne there open_ => ?_) nofun
    (fun u intent found => ?_) (h.gates_of here) ⟨_, known, valid⟩
  · cases open_
    exact get?_insert_self
  · exact get?_insert_of_ne (older (h.pending other task u there open_))
  · rw [get?_insert] at found
    split at found
    · rename_i now
      exact .inl ⟨by rw [now]; rfl, some.inj found⟩
    · exact .inr ⟨found, fun task there => by cases here.symm.trans there; nofun⟩

theorem Holds.closes (open_ : s.pending.get? transaction = some intent) (record : Record)
    {f : Store → Intent → Store}
    (record_ : ∀ lsn, s.applyRecord lsn record = s.close transaction f) :
    ∃ t : State, replay {} 0 (r.records ++ [record]) = .ok t ∧
      t.pending = s.pending.erase transaction ∧
      ∀ path pageSize, s.geometry path = some pageSize → t.geometry path = some pageSize := by
  obtain ⟨store, known, -⟩ := h.ok.known transaction intent open_
  have accepted : s.close transaction f =
      .ok ⟨s.stores.insert intent.store (f store intent), s.pending.erase transaction⟩ := by
    unfold close
    rw [open_]
    dsimp only
    rw [known]
  exact ⟨_, replay_snoc h.replayed ((record_ _).trans accepted), rfl,
    fun path pageSize => h.ok.geometry ((record_ 0).trans accepted)⟩

theorem Holds.complete (here : r.tasks id = some ⟨m, native, .asking transaction⟩)
    (allocated : Nat) :
    ∃ t, ((r.append (.complete transaction allocated)).put id ⟨m, native, .completed⟩).Holds t := by
  have open_ := h.pending id ⟨m, native, .asking transaction⟩ transaction here rfl
  obtain ⟨t, replayed, erased, keeps⟩ := h.closes open_ (.complete transaction allocated)
    fun _ => rfl
  refine ⟨t, h.put (h.serving here) replayed keeps nofun (fun other task u ne there waits => ?_)
    nofun
    (fun u intent found => ?_) (h.gates_of here) (h.valid id ⟨m, native, .asking transaction⟩ here)⟩
  · have apart : u ≠ transaction := by
      rintro rfl
      have same := (h.pending other task u there waits).symm.trans open_
      have apart := h.gates other id task _ ne there here
      rw [some.inj same, Intent.overlaps_self] at apart
      cases apart
    rw [erased, get?_erase_of_ne apart]
  · rw [erased, get?_erase] at found
    split at found
    · cases found
    · rename_i ne
      refine .inr ⟨found, fun task there waits => ?_⟩
      cases here.symm.trans there
      exact ne (some.inj waits).symm

theorem Holds.drop (closed : r.phase = .serving → r.failed = false → r.halted = false →
    ∀ task, r.tasks id = some task → task.stage.transaction? = none) : (r.drop id).Holds s := by
  refine ⟨h.replayed, fun other task t found => h.pending other task t (task_of_drop found),
    fun running other task t intent found => h.apart running other task t intent
      (task_of_drop found),
    fun serving alive running t intent found => ?_,
    fun one two a b ne left right => h.gates one two a b ne (task_of_drop left)
      (task_of_drop right),
    fun other task found => h.valid other task (task_of_drop found), fun away other => ?_, h.left⟩
  · obtain ⟨other, task, there, open_, intent_⟩ := h.owned serving alive running t intent found
    have ne : other ≠ id := by
      rintro rfl
      rw [closed serving alive running task there] at open_
      cases open_
    exact ⟨other, task, by rw [tasks_drop, if_neg ne]; exact there, open_, intent_⟩
  · rw [tasks_drop, h.idle away]
    split <;> rfl

theorem Holds.poison : r.poison.Holds s :=
  ⟨h.replayed, h.pending, h.apart, nofun, h.gates, h.valid, h.idle, h.left⟩

theorem Holds.halt : Holds { r with halted := true } s :=
  ⟨h.replayed, h.pending, nofun, nofun, h.gates, h.valid, h.idle, h.left⟩

theorem Holds.lock (serving : r.phase = .serving) (idle : r.tasks id = none)
    (free : ∀ other task, r.tasks other = some task →
      task.mutation.intent.store = m.intent.store → task.mutation.intent.block = m.intent.block →
        task.mutation.lock.excludes m.lock = false)
    (known : s.geometry m.intent.store = some pageSize)
    (valid : m.intent.operation.validate m.intent.block pageSize = .ok ()) :
    (r.put id ⟨m, native, .locked⟩).Holds s := by
  refine h.put serving h.replayed (fun _ _ known => known) nofun (fun _ _ _ _ _ _ => rfl) nofun
    (fun u intent found => .inr ⟨found, fun task there => ?_⟩)
    (fun other task _ there => Mutation.apart (free other task there)) ⟨pageSize, known, valid⟩
  rw [idle] at there
  cases there

theorem Holds.register {path : Str} (serving : r.phase = .serving)
    (issued : path = wholePath ∧ pageSize = 0 ∨ path = pagedPath ∧ 0 < pageSize)
    (fresh : s.stores.get? path = none) :
    (r.append (.store path pageSize)).Holds
      { s with stores := s.stores.insert path { pageSize } } := by
  have geometry : validStore path = true ∧ (path = wholePath ↔ pageSize = 0) := by
    rcases issued with ⟨rfl, rfl⟩ | ⟨rfl, _⟩
    · exact ⟨rfl, fun _ => rfl, fun _ => rfl⟩
    · exact ⟨rfl, fun other => absurd other (by decide), fun zero => by omega⟩
  have accepted : s.register path pageSize =
      .ok { s with stores := s.stores.insert path { pageSize } } := by
    unfold State.register
    rw [if_neg (not_not.mpr geometry), fresh]
  exact ⟨replay_snoc h.replayed accepted, h.pending, h.apart, h.owned, h.gates,
    fun other task found => (h.valid other task found).imp fun _ known =>
      ⟨h.ok.geometry (show s.applyRecord 0 (.store path pageSize) = _ from accepted) known.1,
        known.2⟩,
    h.idle, fun entries away => by cases serving.symm.trans away⟩

theorem Holds.resolve {rest : List (Nat × Intent)}
    (next : r.phase = .reconciling ((transaction, intent) :: rest)) :
    ∃ t, Holds { r.append (.resolve transaction) with phase := .reconciling rest } t := by
  have left := h.left _ next
  have open_ := mem_entries_iff.mp (by rw [left]; exact List.mem_cons_self)
  obtain ⟨t, replayed, erased, -⟩ := h.closes open_ (.resolve transaction) fun _ => rfl
  refine ⟨t, holds_idle replayed (h.idle (by rw [next]; nofun)) nofun fun entries same => ?_⟩
  cases same
  rw [erased]
  exact entries_erase_head left

end

end Tasks

/-- Mutations stay inside the geometry of their store, and a native page task always ends with a
result. -/
def Orderly (r : Runtime) : Call → Prop
  | .mutate m => ∀ s pageSize, State.replay {} 0 r.records = .ok s →
      s.geometry m.intent.store = some pageSize →
        m.intent.operation.validate m.intent.block pageSize = .ok ()
  | .stop => False

def Safe (r : Runtime) : Prop := ∃ s, r.Holds s

theorem holds_closed {records : List Record} {s : State} (replayed : replay {} 0 records = .ok s) :
    Holds { records } s :=
  holds_idle replayed (fun _ => rfl) nofun nofun

/-- Every orderly step, a crash too, leaves a log that replays to the state. -/
theorem Safe.step {r r' : Runtime} (safe : r.Safe) (step : Step Orderly r r') : r'.Safe := by
  obtain ⟨s, h⟩ := safe
  cases step with
  | start closed replayed =>
    cases h.replayed.symm.trans replayed
    exact ⟨s, holds_idle h.replayed (h.idle (by rw [closed]; nofun)) nofun
      fun _ same => by cases same; rfl⟩
  | resolve next => exact h.resolve next
  | reconciled done =>
    have empty := h.left [] done
    refine ⟨s, holds_idle h.replayed (h.idle (by rw [done]; nofun))
      (fun _ t intent found => ?_) nofun⟩
    have mem := mem_entries_iff.mpr found
    rw [empty] at mem
    cases mem
  | register serving _ issued replayed fresh =>
    cases h.replayed.symm.trans replayed
    exact ⟨_, h.register serving issued fresh⟩
  | lock _ m _ serving replayed opened idle free call =>
    cases h.replayed.symm.trans replayed
    obtain ⟨store, known⟩ := isSome_iff_exists.mp opened
    have geometry : s.geometry m.intent.store = some store.pageSize := by
      unfold geometry
      rw [known]
      rfl
    exact ⟨s, h.lock serving idle free geometry (call s _ h.replayed geometry)⟩
  | leave here =>
    exact ⟨s, h.drop fun _ _ _ task there => by cases here.symm.trans there; rfl⟩
  | @ask id m native here alive =>
    refine ⟨s, h.restage here rfl fun _ running t intent found => ?_⟩
    obtain ⟨other, task, there, open_, rfl⟩ := h.owned (h.serving here) alive running t intent found
    have ne : other ≠ id := by
      rintro rfl
      cases here.symm.trans there
      cases open_
    exact h.gates other id task ⟨m, native, .locked⟩ ne there here
  | begin here running => exact ⟨_, h.begin here running⟩
  | reply here | ioDone here => exact ⟨s, h.restage here rfl nofun⟩
  | ioFailed => exact ⟨s, h.poison.drop nofun⟩
  | stopped _ call => exact call.elim
  | refused _ dead =>
    refine ⟨s, h.drop fun _ alive running => ?_⟩
    rcases dead with failed | halted
    · cases alive.symm.trans failed
    · cases running.symm.trans halted
  | complete here allocated => exact h.complete here allocated
  | replied here => exact ⟨s, h.drop fun _ _ _ task there => by cases here.symm.trans there; rfl⟩
  | lost dead => exact ⟨s, h.drop fun _ _ running => by cases running.symm.trans dead⟩
  | halt => exact ⟨s, h.halt⟩
  | crash n =>
    obtain ⟨u, replayed⟩ := replay_take h.replayed n
    exact ⟨u, holds_closed replayed⟩

end Runtime

/-- Whatever the mutations, their failures, the writer and crashes do, every record of the log is
accepted after the ones before it, and so is every log that a crash leaves. -/
theorem catalog_log_replays {r : Runtime} (run : ReflTransGen (Runtime.Step Runtime.Orderly) {} r)
    (n : Nat) : ∃ s, State.replay {} 0 (r.records.take n) = .ok s := by
  have start : Runtime.Safe {} := ⟨{}, Runtime.holds_closed rfl⟩
  have steps (a b : Runtime) (step : Runtime.Step Runtime.Orderly a b) (safe : a.Safe) : b.Safe :=
    safe.step step
  obtain ⟨s, h⟩ := Transition.kept_by_run steps start run
  exact State.replay_take h.replayed n

section Sample

def loadedPage : Mutation := .commitPage (sampleBlock 0 'v') 1 8 true

end Sample

/-- A page is committed. -/
theorem catalog_log_replays_commit :
    ∃ r, ReflTransGen (Runtime.Step Runtime.Orderly) {} r ∧
      r.records = [.store pagedPath 4, .begin loadedPage.intent, .complete 2 4096] ∧
      ∃ s, State.replay {} 0 (r.records.take 3) = .ok s := by
  have one : ReflTransGen (Runtime.Step Runtime.Orderly) {} _ := ReflTransGen.refl.tail
    (.start rfl rfl)
  have two := (one.tail (.reconciled rfl)).tail
    (.register rfl rfl (.inr ⟨rfl, show 0 < 4 by decide⟩) rfl rfl)
  have three :=
    two.tail (.lock 1 loadedPage false rfl rfl rfl rfl nofun fun s pageSize replayed known => by
    cases replayed
    cases known
    rfl)
  have four := ((three.tail (.ask (i := 1) rfl rfl)).tail (.begin (i := 1) rfl rfl)).tail
    (.reply (i := 1) rfl)
  have five := (four.tail (.ioDone (i := 1) rfl rfl)).tail (.complete (i := 1) rfl 4096 rfl)
  exact ⟨_, five, rfl, catalog_log_replays five 3⟩

/-- A native page task stops after its `Begin`: the page's next `Begin` is in the log and rejected.
So is the `Begin` of a value that is longer than its block. -/
theorem catalog_log_rejected :
    (∃ r, ReflTransGen (Runtime.Step fun _ _ => True) {} r ∧
      State.replay {} 0 r.records =
        .error "overlapping catalog mutation: caller must hold the page/block gate") ∧
    ∃ r, ReflTransGen (Runtime.Step fun _ _ => True) {} r ∧
      State.replay {} 0 r.records = .error "invalid whole block intent" := by
  have ready : ReflTransGen (Runtime.Step fun _ _ => True) {} _ :=
    (ReflTransGen.refl.tail (.start rfl rfl)).tail (.reconciled rfl)
  constructor
  · have locked := (ready.tail (.register rfl rfl (.inr ⟨rfl, show 0 < 4 by decide⟩) rfl rfl)).tail
      (.lock 1 loadedPage true rfl rfl rfl rfl nofun trivial)
    have begun := ((locked.tail (.ask (i := 1) rfl rfl)).tail (.begin (i := 1) rfl rfl)).tail
      (.reply (i := 1) rfl)
    have again := (begun.tail (.stopped (i := 1) rfl trivial)).tail
      (.lock 1 loadedPage true rfl rfl rfl rfl (fun other task found => by
        rcases eq_or_ne other 1 with rfl | ne
        · cases found
        · simp [Runtime.tasks_drop, Runtime.tasks_put, ne, PartialMap.empty] at found) trivial)
    exact ⟨_, (again.tail (.ask (i := 1) rfl rfl)).tail (.begin (i := 1) rfl rfl), rfl⟩
  · have locked := (ready.tail (.register rfl rfl (.inl ⟨rfl, rfl⟩) rfl rfl)).tail
      (.lock 1 (.putWhole (sampleBlock 0 'v') 9) false rfl rfl rfl rfl nofun trivial)
    exact ⟨_, (locked.tail (.ask (i := 1) rfl rfl)).tail (.begin (i := 1) rfl rfl), rfl⟩

end Talon.Catalog
