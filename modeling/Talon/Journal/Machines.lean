import Mathlib.Data.Nat.Digits.Lemmas
import Mathlib.Logic.Equiv.List
import Mathlib.Tactic.DeriveCountable
import Talon.Catalog.Snapshot
import Talon.Journal.Guarantees
import Talon.SmallStore.EventCodec

/-!
# The machines of the worker's streams

The model of the packed store and the residency catalog keep the contract of a journal's machine, so
what a stream recovers after a crash is the model or the catalog after the records that survived.
-/

set_option autoImplicit false

namespace Talon.Journal

open Wire CrashFs CrashFs.Prog Relation List Fallible

section PackedStore

open SmallStore SmallStore.Records

variable (keyHash : SmallKey → Nat) (sorter : Keys.Sorter)

/-- A machine is dropped with an error. -/
def settled {α : Type} (x : α × Result Unit) : Result α :=
  match x.2 with
  | .ok () => .ok x.1
  | .error e => .error e

theorem settled_ok {α : Type} {x : α × Result Unit} {a : α} :
    settled x = .ok a ↔ x.1 = a ∧ x.2 = .ok () := by
  rcases x with ⟨b, _ | _⟩
  · simp [settled]
  · simp [settled]

/-- `impl Machine for Model`.  The numbers of an event have the widths of its fields. -/
def modelMachine : Machine where
  State := Model Records
  Record := { e : Event // e.Fits }
  SnapshotRecord := SmallStore.SnapshotRecord Records
  encodedLen e := .ok e.1.encodedLen
  encode e := e.1.encode
  decode b :=
    match decoded : Event.decode b with
    | .ok e => .ok ⟨e, Event.decode_fits decoded⟩
    | .error e => .error e
  apply m _ e := settled (m.apply (ops keyHash sorter) e.1)
  snapshot m := .ok (m.snapshot (ops keyHash sorter))
  decodeSnapshot := Model.decodeSnapshot (ops keyHash sorter)
  restore m r := settled (m.restore (ops keyHash sorter) r)

theorem restoreAll_eq (m : Model Records) (items : List Bytes) :
    (modelMachine keyHash sorter).restoreAll m items = m.restoreAll (ops keyHash sorter)
      (items.map .ok) := by
  induction items generalizing m with
  | nil => rfl
  | cons b items ih =>
    rw [map_cons, Model.restoreAll, ok_bind]
    change ((Model.decodeSnapshot (ops keyHash sorter) b >>= fun r =>
      settled (m.restore (ops keyHash sorter) r)) >>= fun m =>
        (modelMachine keyHash sorter).restoreAll m items) = _
    cases Model.decodeSnapshot (ops keyHash sorter) b with
    | error => rfl
    | ok r =>
      simp only [ok_bind]
      rcases m.restore (ops keyHash sorter) r with ⟨m, _ | _⟩
      · rfl
      · exact ih m

theorem modelMachine_rebuilds : (modelMachine keyHash sorter).Rebuilds Model.start
    fun m m' => ∃ a : Segments, m.Refines keyHash a ∧ m'.Refines keyHash a ∧ a.Wf where
  start := ⟨Model.start, Model.refines_start keyHash, Model.refines_start keyHash, Model.wf_start⟩
  apply := by
    rintro m m' m₁ _ ⟨e, fits⟩ ⟨a, refines, refines', wf⟩ applied
    obtain ⟨next, verdict⟩ := refines.apply fits
    obtain ⟨next', verdict'⟩ := refines'.apply fits
    obtain ⟨rfl, accepted⟩ := settled_ok.mp applied
    rw [accepted] at verdict
    exact ⟨_, settled_ok.mpr ⟨rfl, verdict'.trans verdict.symm⟩, _, next, next',
      wf.apply fits (Prod.ext rfl verdict.symm)⟩
  restore := by
    rintro history m m' items - ⟨a, refines, refines', wf⟩ snapshot
    obtain ⟨u, restored, back⟩ := refines'.restore_snapshot wf
    refine ⟨u, ?_, a, refines, back, wf⟩
    rw [restoreAll_eq, ← Except.ok.inj snapshot]
    exact restored

variable {xxh3 : Hash} {options : StreamOptions}

/-- The same segments, and no later event tells the two apart. -/
def Alike (m m' : Model Records) : Prop :=
  m.Same m' ∧ ∀ events : List Event, (∀ e ∈ events, e.Fits) →
    (m.applyAll (ops keyHash sorter) events).2 = (m'.applyAll (ops keyHash sorter) events).2

/-- After any run and crash the packed store recovers the model of the records that survived. -/
theorem packed_store_recovered {n : Node (modelMachine keyHash sorter)} {fs' : Fs Name}
    (run : ReflTransGen (Guarded xxh3 (modelMachine keyHash sorter) Model.start options)
      (Node.fresh _) n)
    (accepted : (modelMachine keyHash sorter).Accepts Model.start n.history)
    (crash : Crash n.fs fs') (careful : fs' = n.fs → Resumable xxh3 n.fs) :
    Survives xxh3 (modelMachine keyHash sorter) Model.start (Alike keyHash sorter) n fs' := by
  obtain ⟨ends, result⟩ :=
    recover_after_crash (modelMachine_rebuilds keyHash sorter) run accepted crash careful
  refine ⟨ends, fun r fs'' runs => ?_⟩
  obtain ⟨opened, m, same, whole, ⟨a, refines, refines', -⟩, rest⟩ := result r fs'' runs
  refine ⟨opened, m, same, whole, ⟨refines.same refines', fun events fits => ?_⟩, rest⟩
  exact (refines.applyAll fits).2.trans (refines'.applyAll fits).2.symm

def allocated : Entry (modelMachine (fun _ => 0) .stable) :=
  ⟨⟨.setNext 5, show 5 < 2 ^ 64 by decide⟩, 5 :: leBytes 8 5⟩

/-- An allocation, a rotation of the log and a loss of power. -/
theorem packed_store_recovered_allocated :
    ∃ (n : Node (modelMachine (fun _ => 0) .stable))
      (w : Writer (modelMachine (fun _ => 0) .stable)),
      n.mode = .running w .select ∧ w.current = firstCurrent.withLog ∧
      n.history = [allocated] ∧ n.promised = [1] ∧
      Survives zeroHash (modelMachine (fun _ => 0) .stable) Model.start
        (Alike (fun _ => 0) .stable) n n.crashed.fs := by
  obtain ⟨n, w, run, running, current, history, promised⟩ := append_rotates zeroHash
    (modelMachine_rebuilds (fun _ => 0) .stable)
    (show appendBytes _ smallStream allocated.record = .ok allocated.bytes from rfl)
    (by decide) (by decide)
    (fun s _ => ⟨(s.apply (ops (fun _ => 0) .stable) (.setNext 5)).1, rfl⟩) fun s => ⟨_, rfl⟩
  have lost : ∀ name, (n.fs name).Crash (n.crashed.fs name) := fun name => (n.fs name).crash_flush
  refine ⟨n, w, running, current, history, promised,
    packed_store_recovered _ _ run ?_ (.loss _ _ lost) (resumable_of_crash lost)⟩
  rw [history]
  exact ⟨fun e mem => by rw [mem_singleton.mp mem]; rfl, _, rfl⟩

end PackedStore

section ResidencyCatalog

open Talon.Core Catalog

/-- `serde_json` on the records of the catalog. -/
structure Serde where
  encode : Record → Result Bytes
  decode : Bytes → Result Record
  encodeSnapshot : SnapshotRecord → Result Bytes
  decodeSnapshot : Bytes → Result SnapshotRecord
  snapshot_back : ∀ r b, encodeSnapshot r = .ok b → decodeSnapshot b = .ok r

/-- `impl Machine for State`; `order` is the order of the hash maps of blocks. -/
def catalogMachine (json : Serde) (order : State → Str → List Block) : Machine where
  State := State
  Record := Record
  SnapshotRecord := SnapshotRecord
  encodedLen r := (json.encode r).map length
  encode := json.encode
  decode := json.decode
  apply := State.applyRecord
  snapshot s := .ok (((s.snapshot (order s)).flatMap Frozen.records).map json.encodeSnapshot)
  decodeSnapshot := json.decodeSnapshot
  restore := State.restore

variable {json : Serde} {order : State → Str → List Block}

theorem reached_of_replay {s t : State} {first : Nat} {records : List Record} (reached : s.Reached)
    (run : (catalogMachine json order).replay first s records = .ok t) : t.Reached := by
  induction records generalizing s first with
  | nil =>
    cases run
    exact reached
  | cons r records ih =>
    obtain ⟨_, applied, rest⟩ := bind_ok run
    exact ih (reached.record applied) rest

theorem restoreAll_catalog {s : State} {items : List Bytes} {records : List SnapshotRecord}
    (written : records.map json.encodeSnapshot = items.map .ok) :
    (catalogMachine json order).restoreAll s items = s.restoreAll records := by
  induction records generalizing s items with
  | nil =>
    cases items with
    | nil => rfl
    | cons => cases written
  | cons r records ih =>
    cases items with
    | nil => cases written
    | cons b items =>
      obtain ⟨first, rest⟩ := cons.inj written
      change (json.decodeSnapshot b >>= s.restore) >>=
        (fun s => (catalogMachine json order).restoreAll s items) = _
      rw [json.snapshot_back r b first, ok_bind, State.restoreAll]
      exact congrArg _ (funext fun s => ih rest)

variable (orders : ∀ s : State, s.Reached → s.Orders (order s))
include orders

theorem catalogMachine_rebuilds : (catalogMachine json order).Rebuilds ({} : State) Eq where
  start := rfl
  apply := by
    rintro s _ t _ _ rfl applied
    exact ⟨t, applied, rfl⟩
  restore := by
    rintro history s _ items run rfl snapshot
    have reached := reached_of_replay .empty run
    refine ⟨s, (restoreAll_catalog (Except.ok.inj snapshot)).trans ?_, rfl⟩
    exact restore_snapshot reached.ok (orders s reached)

variable {xxh3 : Hash} {options : StreamOptions}

/-- After any run and crash the residency catalog is exactly the state after the records that
survived. -/
theorem residency_catalog_recovered {n : Node (catalogMachine json order)} {fs' : Fs Name}
    (run : ReflTransGen (Guarded xxh3 (catalogMachine json order) ({} : State) options)
      (Node.fresh _) n) (accepted : (catalogMachine json order).Accepts ({} : State) n.history)
    (crash : Crash n.fs fs') (careful : fs' = n.fs → Resumable xxh3 n.fs) :
    Survives xxh3 (catalogMachine json order) ({} : State)
      (fun s t => s = t ∧ State.Ok t) n fs' := by
  obtain ⟨ends, result⟩ := recover_after_crash (catalogMachine_rebuilds orders) run accepted
    crash careful
  refine ⟨ends, fun r fs'' runs => ?_⟩
  obtain ⟨opened, s, same, whole, alike, rest⟩ := result r fs'' runs
  exact ⟨opened, s, same, whole, ⟨alike, alike ▸ (reached_of_replay .empty whole).ok⟩, rest⟩

omit orders

instance countableChar : Countable Char :=
  Function.Injective.countable (f := Char.toNat) fun _ _ same => Char.ext (UInt32.toNat_inj.mp same)

instance : Countable (SortedMap Nat Nat) :=
  Function.Injective.countable (f := SortedMap.entries) fun ⟨_, _⟩ ⟨_, _⟩ same =>
    (SortedMap.mk.injEq ..).mpr same

deriving instance Countable for Backend
deriving instance Countable for ObjectId
deriving instance Countable for BlockId
deriving instance Countable for Operation
deriving instance Countable for Intent
deriving instance Countable for Record
deriving instance Countable for Block
deriving instance Countable for SnapshotRecord

def digits (n : Nat) : Bytes := (Nat.digits 256 n).map UInt8.ofNat

theorem digits_injective : Function.Injective digits := by
  intro n m same
  have back (k : Nat) : (digits k).map UInt8.toNat = Nat.digits 256 k := by
    have small : ∀ d ∈ Nat.digits 256 k, (UInt8.toNat ∘ UInt8.ofNat) d = id d := fun d mem =>
      Nat.mod_eq_of_lt (Nat.digits_lt_base (by decide) mem)
    rw [digits, List.map_map, map_congr_left small, map_id]
  have again := congrArg (map UInt8.toNat) same
  rw [back, back] at again
  exact Nat.digits_inj_iff.mp again

/-- Values that can be counted have a coding with one byte for a given value. -/
theorem exists_coding {α : Type} [Countable α] (first : α) :
    ∃ (encode : α → Bytes) (decode : Bytes → Result α),
      encode first = [7] ∧ ∀ a, decode (encode a) = .ok a := by
  obtain ⟨f, injective⟩ := Countable.exists_injective_nat α
  have code : Function.Injective fun a => digits (Equiv.swap (f first) 7 (f a)) :=
    digits_injective.comp ((Equiv.injective _).comp injective)
  have : Nonempty α := ⟨first⟩
  refine ⟨_, fun b => .ok (Function.invFun _ b), ?_, fun a =>
    congrArg Except.ok (Function.leftInverse_invFun code a)⟩
  rw [Equiv.swap_apply_left]
  simp [digits]

/-- A store, a rotation of the log and a loss of power. -/
theorem residency_catalog_recovered_store :
    ∃ (json : Serde) (order : State → Str → List Block) (n : Node (catalogMachine json order))
      (w : Writer (catalogMachine json order)),
      (∀ r, ∃ b, json.encode r = .ok b ∧ json.decode b = .ok r) ∧
      (∀ r, ∃ b, json.encodeSnapshot r = .ok b) ∧
      n.mode = .running w .select ∧ w.current = firstCurrent.withLog ∧
      n.history = [⟨(.store pagedPath 4 : Record), [7]⟩] ∧ n.promised = [1] ∧
      Survives zeroHash (catalogMachine json order) ({} : State) (fun s t => s = t ∧ State.Ok t) n
        n.crashed.fs := by
  obtain ⟨encode, decode, first, back⟩ := exists_coding (Record.store pagedPath 4)
  obtain ⟨encode', decode', -, back'⟩ := exists_coding (SnapshotRecord.store pagedPath 4)
  let json : Serde := ⟨fun r => .ok (encode r), decode, fun r => .ok (encode' r), decode',
    fun r b written => by cases written; exact back' r⟩
  have each : ∀ s : State, ∃ l, s.Reached → s.Orders l := by
    intro s
    by_cases reached : s.Reached
    · obtain ⟨l, orders⟩ := reached.orders
      exact ⟨l, fun _ => orders⟩
    · exact ⟨fun _ => [], fun now => absurd now reached⟩
  obtain ⟨order, orders⟩ := Classical.axiomOfChoice each
  have appended : appendBytes (catalogMachine json order) smallStream
    (.store pagedPath 4 : Record) =
      .ok [7] := by
    simp [appendBytes, catalogMachine, json, first, Except.map, smallStream]
    rfl
  obtain ⟨n, w, run, running, current, history, promised⟩ := append_rotates zeroHash
    (catalogMachine_rebuilds orders) appended (by decide) (by decide)
    (fun s alike => by subst alike; exact ⟨_, rfl⟩) fun s => ⟨_, rfl⟩
  have lost : ∀ name, (n.fs name).Crash (n.crashed.fs name) := fun name => (n.fs name).crash_flush
  refine ⟨json, order, n, w, fun r => ⟨_, rfl, back r⟩, fun r => ⟨_, rfl⟩, running, current,
    history, promised,
    residency_catalog_recovered orders run ?_ (.loss _ _ lost) (resumable_of_crash lost)⟩
  rw [history]
  refine ⟨fun e mem => ?_, _, rfl⟩
  rw [mem_singleton.mp mem]
  have decoded := back (.store pagedPath 4)
  rwa [first] at decoded

end ResidencyCatalog

end Talon.Journal
