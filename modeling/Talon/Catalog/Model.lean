import Mathlib.Data.Char
import Mathlib.Data.List.Lex
import Talon.Lib.Fallible
import Talon.Lib.PartialMap
import Talon.Lib.SortedMap
import Talon.Core.Key

/-!
# The residency catalog

`catalog/model.rs`: the state that the records of the catalog journal build, and what a record needs
to be accepted.  A mutation of cached data is bracketed by two records: `Begin` opens a transaction
named by its log position, `Complete` or `Resolve` closes it.  `State.Ok` is what every accepted
sequence of records establishes.
-/

set_option autoImplicit false

namespace Talon.Catalog

open Talon.Core (BlockId Str)
open SortedMap PartialMap

/-- The pages of a block with the bytes allocated for each; `PageMap` keeps them in order. -/
structure Block where
  id : BlockId
  len : Nat
  pages : SortedMap Nat Nat

inductive Operation
  | put (page len : Nat)
  | putWhole (len : Nat)
  | deletePage (page : Nat)
  | deleteBlock
deriving DecidableEq

structure Intent where
  store : Str
  block : BlockId
  operation : Operation
deriving DecidableEq

inductive Record
  | store (path : Str) (pageSize : Nat)
  | begin (intent : Intent)
  | complete (transaction allocated : Nat)
  | resolve (transaction : Nat)
deriving DecidableEq

/-- A page size of zero denotes whole blocks, which have one allocation at index zero. -/
structure Store where
  pageSize : Nat := 0
  blocks : BlockId → Option Block := PartialMap.empty

structure State where
  stores : SortedMap Str Store := .empty
  pending : SortedMap Nat Intent := .empty

def wholePath : Str := "whole".toList

def pagedPath : Str := "paged".toList

def validStore (path : Str) : Bool := path = pagedPath ∨ path = wholePath

def pageCount (block : BlockId) (pageSize : Nat) : Nat :=
  if pageSize = 0 then 0 else (block.blockSize + pageSize - 1) / pageSize

namespace Operation

/-- The page an operation is about, or none for one about the whole block. -/
def page? : Operation → Option Nat
  | .put page _ | .deletePage page => some page
  | .putWhole _ | .deleteBlock => none

def conflicts (a b : Operation) : Bool :=
  match a.page?, b.page? with
  | some p, some q => p = q
  | _, _ => true

def validate (o : Operation) (block : BlockId) (pageSize : Nat) : Except String Unit :=
  match o with
  | .put page len =>
    if 0 < pageSize ∧ page < pageCount block pageSize ∧ len ≤ block.blockSize then .ok ()
    else .error "invalid page intent"
  | .putWhole len =>
    if pageSize = 0 ∧ len ≤ block.blockSize then .ok () else .error "invalid whole block intent"
  | .deletePage page =>
    if 0 < pageSize ∧ page < pageCount block pageSize then .ok () else .error "invalid delete page"
  | .deleteBlock => .ok ()

theorem conflicts_comm (a b : Operation) : a.conflicts b = b.conflicts a := by
  unfold conflicts
  cases a.page? <;> cases b.page? <;> simp [eq_comm]

end Operation

def Intent.overlaps (other intent : Intent) : Bool :=
  other.store = intent.store ∧ other.block = intent.block ∧
    other.operation.conflicts intent.operation = true

theorem Intent.overlaps_comm (a b : Intent) : a.overlaps b = b.overlaps a := by
  unfold Intent.overlaps
  rw [Operation.conflicts_comm]
  simp only [eq_comm]

namespace Store

/-- A page is gone; with its last page the block is. -/
def dropPage (s : Store) (block : BlockId) (page : Nat) : Store :=
  match s.blocks block with
  | none => s
  | some b =>
    if (b.pages.erase page).isEmpty then { s with blocks := PartialMap.erase s.blocks block }
    else
      { s with blocks := PartialMap.insert s.blocks block { b with pages := b.pages.erase page } }

def dropBlock (s : Store) (block : BlockId) : Store :=
  { s with blocks := PartialMap.erase s.blocks block }

def putPage (s : Store) (block : BlockId) (page len allocated : Nat) : Store :=
  let old := ((s.blocks block).map Block.pages).getD .empty
  { s with blocks := PartialMap.insert s.blocks block ⟨block, len, old.insert page allocated⟩ }

def putWhole (s : Store) (block : BlockId) (len allocated : Nat) : Store :=
  { s with
    blocks := PartialMap.insert s.blocks block ⟨block, len, SortedMap.empty.insert 0 allocated⟩ }

/-- The intent of a transaction that cannot have taken place: what it names is gone. -/
def resolve (s : Store) (intent : Intent) : Store :=
  match intent.operation with
  | .put page _ | .deletePage page => s.dropPage intent.block page
  | .deleteBlock | .putWhole _ => s.dropBlock intent.block

def complete (s : Store) (intent : Intent) (allocated : Nat) : Store :=
  match intent.operation with
  | .putWhole len => s.putWhole intent.block len allocated
  | .put page len => s.putPage intent.block page len allocated
  | .deletePage page => s.dropPage intent.block page
  | .deleteBlock => s.dropBlock intent.block

end Store

namespace State

def register (s : State) (path : Str) (pageSize : Nat) : Except String State :=
  if ¬(validStore path = true ∧ (path = wholePath ↔ pageSize = 0)) then .error
    "invalid catalog store"
  else
    match s.stores.get? path with
    | some store =>
      if store.pageSize = pageSize then
        .ok { s with stores := s.stores.insert path { store with pageSize } }
      else .error "catalog geometry changed"
    | none => .ok { s with stores := s.stores.insert path { pageSize } }

def openIntent (s : State) (lsn : Nat) (intent : Intent) : Except String State :=
  if ¬(lsn > 0 ∧ s.pending.get? lsn = none) then .error "invalid catalog transaction"
  else
    match s.stores.get? intent.store with
    | none => .error "unknown catalog store"
    | some store => do
      intent.operation.validate intent.block store.pageSize
      if s.pending.entries.any fun other => other.2.overlaps intent then
        .error "overlapping catalog mutation: caller must hold the page/block gate"
      else .ok { s with pending := s.pending.insert lsn intent }

/-- Close a transaction; that its store is missing would be a panic. -/
def close (s : State) (transaction : Nat) (f : Store → Intent → Store) : Except String State :=
  match s.pending.get? transaction with
  | none => .error "unknown catalog transaction"
  | some intent =>
    match s.stores.get? intent.store with
    | none => .error "called unwrap on a None value"
    | some store => .ok ⟨s.stores.insert intent.store (f store intent), s.pending.erase transaction⟩

def applyRecord (s : State) (lsn : Nat) : Record → Except String State
  | .store path pageSize => s.register path pageSize
  | .begin intent => s.openIntent lsn intent
  | .resolve transaction => s.close transaction Store.resolve
  | .complete transaction allocated =>
    s.close transaction fun store intent => store.complete intent allocated

end State

/-! ## What accepted records establish -/

/-- A block of a store: not empty, no longer than its size, and made of pages that exist. -/
structure Block.Ok (pageSize : Nat) (block : BlockId) (b : Block) : Prop where
  id : b.id = block
  len : b.len ≤ block.blockSize
  resident : b.pages.isEmpty = false
  whole : pageSize = 0 → ∃ allocated, b.pages = SortedMap.empty.insert 0 allocated
  pages : 0 < pageSize → ∀ page allocated, b.pages.get? page = some allocated →
    page < pageCount block pageSize

def Store.Ok (s : Store) : Prop := ∀ id b, s.blocks id = some b → b.Ok s.pageSize id

structure State.Ok (s : State) : Prop where
  path : ∀ path store, s.stores.get? path = some store →
    validStore path = true ∧ (path = wholePath ↔ store.pageSize = 0)
  store : ∀ path store, s.stores.get? path = some store → store.Ok
  positive : s.pending.get? 0 = none
  known : ∀ t intent, s.pending.get? t = some intent → ∃ store,
    s.stores.get? intent.store = some store ∧
      intent.operation.validate intent.block store.pageSize = .ok ()
  apart : ∀ t u a b, t ≠ u → s.pending.get? t = some a → s.pending.get? u = some b →
    a.overlaps b = false

theorem State.ok_empty : State.Ok {} :=
  ⟨nofun, nofun, rfl, nofun, nofun⟩

variable {intent : Intent}

variable {pageSize : Nat}

section Blocks

variable {s : Store} {block : BlockId}

theorem Store.Ok.insert (h : s.Ok) {b : Block} (ok : b.Ok s.pageSize block) :
    Store.Ok { s with blocks := PartialMap.insert s.blocks block b } := by
  intro id other found
  change PartialMap.insert s.blocks block b id = some other at found
  rcases eq_or_ne id block with rfl | ne
  · rw [PartialMap.insert_self] at found
    cases found
    exact ok
  · rw [insert_of_ne ne] at found
    exact h id other found

theorem Store.Ok.dropBlock (h : s.Ok) : (s.dropBlock block).Ok := by
  intro id b found
  change erase s.blocks block id = some b at found
  rcases eq_or_ne id block with rfl | ne
  · rw [erase_self] at found
    cases found
  · rw [erase_of_ne ne] at found
    exact h id b found

theorem Store.Ok.dropPage (h : s.Ok) (paged : 0 < s.pageSize) (page : Nat) :
    (s.dropPage block page).Ok := by
  unfold Store.dropPage
  cases here : s.blocks block with
  | none => exact h
  | some b =>
    have ok := h block b here
    dsimp only
    split
    · exact h.dropBlock
    · rename_i some_
      refine h.insert
        ⟨ok.id, ok.len, Bool.eq_false_iff.mpr some_, fun zero => absurd zero paged.ne', ?_⟩
      intro paged p allocated found
      exact ok.pages paged p allocated (get?_of_erase found)

theorem Store.Ok.putPage (h : s.Ok) {page len : Nat} (paged : 0 < s.pageSize)
    (inside : page < pageCount block s.pageSize) (fits : len ≤ block.blockSize) (allocated : Nat) :
    (s.putPage block page len allocated).Ok := by
  refine h.insert ⟨rfl, fits, ?_, fun zero => absurd zero paged.ne', fun _ =>
    forall_insert inside fun p n found => ?_⟩
  · rw [Bool.eq_false_iff]
    intro none_
    have empty := isEmpty_iff.mp none_
    have here := congrArg (get? · page) empty
    simp at here
  · cases here : s.blocks block with
    | none =>
      rw [here] at found
      cases found
    | some b =>
      rw [here] at found
      exact (h block b here).pages paged p n found

theorem Store.Ok.putWhole (h : s.Ok) {len : Nat} (whole : s.pageSize = 0)
    (fits : len ≤ block.blockSize)
    (allocated : Nat) : (s.putWhole block len allocated).Ok :=
  h.insert ⟨rfl, fits, rfl, fun _ => ⟨allocated, rfl⟩, fun paged => absurd whole paged.ne'⟩

theorem validate_ok {o : Operation} (h : o.validate block pageSize = .ok ()) :
    match o with
    | .put page len => 0 < pageSize ∧ page < pageCount block pageSize ∧ len ≤ block.blockSize
    | .putWhole len => pageSize = 0 ∧ len ≤ block.blockSize
    | .deletePage page => 0 < pageSize ∧ page < pageCount block pageSize
    | .deleteBlock => True := by
  cases o with
  | put page len | putWhole len | deletePage page =>
    unfold Operation.validate at h
    dsimp only at h ⊢
    split at h
    · assumption
    · cases h
  | deleteBlock => trivial

theorem Store.pageSize_dropPage (page : Nat) : (s.dropPage block page).pageSize = s.pageSize := by
  unfold Store.dropPage
  split
  · rfl
  · split <;> rfl

theorem Store.Ok.complete (h : s.Ok)
    (valid : intent.operation.validate intent.block s.pageSize = .ok ()) (allocated : Nat) :
    (s.complete intent allocated).Ok ∧ (s.complete intent allocated).pageSize = s.pageSize := by
  obtain ⟨_, _, operation⟩ := intent
  cases operation with
  | put =>
    obtain ⟨paged, inside, fits⟩ := validate_ok valid
    exact ⟨h.putPage paged inside fits allocated, rfl⟩
  | putWhole =>
    obtain ⟨whole, fits⟩ := validate_ok valid
    exact ⟨h.putWhole whole fits allocated, rfl⟩
  | deletePage page =>
    exact ⟨h.dropPage (validate_ok valid).1 page, s.pageSize_dropPage page⟩
  | deleteBlock => exact ⟨h.dropBlock, rfl⟩

theorem Store.Ok.resolve (h : s.Ok)
    (valid : intent.operation.validate intent.block s.pageSize = .ok ()) :
    (s.resolve intent).Ok ∧ (s.resolve intent).pageSize = s.pageSize := by
  obtain ⟨_, _, operation⟩ := intent
  cases operation with
  | put page len | deletePage page =>
    exact ⟨h.dropPage (validate_ok valid).1 page, s.pageSize_dropPage page⟩
  | putWhole len | deleteBlock => exact ⟨h.dropBlock, rfl⟩

end Blocks

section Records

variable {s t : State} {lsn : Nat}

variable {path : Str}

theorem State.register_ok (h : s.register path pageSize = .ok t) :
    validStore path = true ∧ (path = wholePath ↔ pageSize = 0) ∧
      t = { s with
        stores := s.stores.insert path ⟨pageSize, ((s.stores.get? path).getD {}).blocks⟩ } ∧
      ∀ store, s.stores.get? path = some store → store.pageSize = pageSize := by
  unfold State.register at h
  split at h
  · cases h
  · rename_i valid
    rw [not_not] at valid
    cases known : s.stores.get? path with
    | none =>
      rw [known] at h
      cases h
      exact ⟨valid.1, valid.2, rfl, nofun⟩
    | some =>
      rw [known] at h
      dsimp only at h
      split at h
      · rename_i same
        cases h
        exact ⟨valid.1, valid.2, rfl, fun _ eq => by cases eq; exact same⟩
      · cases h

theorem State.openIntent_ok (h : s.openIntent lsn intent = .ok t) :
    0 < lsn ∧ s.pending.get? lsn = none ∧
      t = { s with pending := s.pending.insert lsn intent } ∧
      (∃ store, s.stores.get? intent.store = some store ∧
        intent.operation.validate intent.block store.pageSize = .ok ()) ∧
      ∀ u other, s.pending.get? u = some other → other.overlaps intent = false := by
  unfold State.openIntent at h
  split at h
  · cases h
  rename_i fresh
  rw [not_not] at fresh
  split at h
  · cases h
  rename_i store known
  obtain ⟨_, valid, h⟩ := Fallible.bind_ok h
  split at h
  · cases h
  rename_i apart
  cases h
  refine ⟨fresh.1, fresh.2, rfl, ⟨store, known, valid⟩, fun u other found => ?_⟩
  rw [Bool.eq_false_iff]
  intro overlap
  exact apart (List.any_eq_true.mpr ⟨(u, other), mem_entries_iff.mpr found, overlap⟩)

theorem State.openIntent_of {store : Store} (positive : 0 < lsn) (fresh : s.pending.get? lsn = none)
    (known : s.stores.get? intent.store = some store)
    (valid : intent.operation.validate intent.block store.pageSize = .ok ())
    (apart : ∀ u other, s.pending.get? u = some other → other.overlaps intent = false) :
    s.openIntent lsn intent = .ok { s with pending := s.pending.insert lsn intent } := by
  unfold State.openIntent
  rw [if_neg (not_not.mpr ⟨positive, fresh⟩), known]
  change (intent.operation.validate intent.block store.pageSize >>= fun _ => _) = _
  rw [valid]
  refine if_neg fun overlap => ?_
  obtain ⟨⟨u, other⟩, mem, overlaps⟩ := List.any_eq_true.mp overlap
  rw [apart u other (mem_entries_iff.mp mem)] at overlaps
  cases overlaps

variable {transaction : Nat} {f : Store → Intent → Store}

theorem State.close_ok
    (h : s.close transaction f = .ok t) :
    ∃ intent store, s.pending.get? transaction = some intent ∧
      s.stores.get? intent.store = some store ∧
      t = ⟨s.stores.insert intent.store (f store intent), s.pending.erase transaction⟩ := by
  unfold State.close at h
  split at h
  · cases h
  rename_i intent pending
  split at h
  · cases h
  rename_i store known
  cases h
  exact ⟨intent, store, pending, known, rfl⟩

theorem State.Ok.register (h : s.Ok) (done : s.register path pageSize = .ok t) : t.Ok := by
  obtain ⟨valid, whole, rfl, same⟩ := State.register_ok done
  refine ⟨forall_insert ⟨valid, whole⟩ h.path, forall_insert ?_ h.store, h.positive,
    fun u intent found => ?_, h.apart⟩
  · cases known : s.stores.get? path with
    | none => exact nofun
    | some store =>
      have ok := h.store path store known
      intro id b here
      rw [← same store known]
      exact ok id b here
  · obtain ⟨store, known, valid⟩ := h.known u intent found
    rw [get?_insert]
    split
    · rename_i at_
      rw [at_] at known
      exact ⟨_, rfl, by rw [← same store known]; exact valid⟩
    · exact ⟨store, known, valid⟩

theorem State.Ok.openIntent (h : s.Ok) (done : s.openIntent lsn intent = .ok t) : t.Ok := by
  obtain ⟨positive, _, rfl, known, apart⟩ := State.openIntent_ok done
  refine ⟨h.path, h.store, ?_, forall_insert known h.known, fun u v a b ne left right => ?_⟩
  · rw [get?_insert_of_ne (by omega)]
    exact h.positive
  · rw [get?_insert] at left right
    split at left
    · rename_i atLsn
      split at right
      · rename_i again
        exact absurd (atLsn.trans again.symm) ne
      · cases left
        rw [Intent.overlaps_comm]
        exact apart v b right
    · split at right
      · cases right
        exact apart u a left
      · exact h.apart u v a b ne left right

theorem State.Ok.close (h : s.Ok)
    (keeps : ∀ store intent, store.Ok →
      intent.operation.validate intent.block store.pageSize = .ok () →
      (f store intent).Ok ∧ (f store intent).pageSize = store.pageSize)
    (done : s.close transaction f = .ok t) : t.Ok := by
  obtain ⟨intent, store, pending, known, rfl⟩ := State.close_ok done
  obtain ⟨store', known', valid⟩ := h.known transaction intent pending
  cases known.symm.trans known'
  obtain ⟨ok, size⟩ := keeps store intent (h.store _ _ known) valid
  refine ⟨forall_insert ?_ h.path, forall_insert ok h.store, ?_, fun u other found => ?_,
    fun u v a b ne left right =>
      h.apart u v a b ne (get?_of_erase left) (get?_of_erase right)⟩
  · rw [size]
    exact h.path _ _ known
  · rw [get?_erase]
    split
    · rfl
    · exact h.positive
  · obtain ⟨store', known', valid'⟩ := h.known u other (get?_of_erase found)
    rw [get?_insert]
    split
    · rename_i at_
      rw [at_, known] at known'
      cases known'
      exact ⟨_, rfl, by rw [size]; exact valid'⟩
    · exact ⟨store', known', valid'⟩

theorem State.Ok.applyRecord (h : s.Ok) {record : Record}
    (done : s.applyRecord lsn record = .ok t) : t.Ok := by
  cases record with
  | store => exact h.register done
  | begin => exact h.openIntent done
  | resolve => exact h.close (fun _ _ ok valid => ok.resolve valid) done
  | complete _ allocated =>
    exact h.close (fun _ _ ok valid => ok.complete valid allocated) done

end Records

/-- States that a sequence of accepted records builds from the empty one. -/
inductive State.Reached : State → Prop
  | empty : Reached {}
  | record {s t} (reached : Reached s) {lsn record}
      (accepted : s.applyRecord lsn record = .ok t) : Reached t

theorem State.Reached.ok {s : State} (reached : s.Reached) : s.Ok := by
  induction reached with
  | empty => exact State.ok_empty
  | record _ accepted ih => exact ih.applyRecord accepted

end Talon.Catalog
