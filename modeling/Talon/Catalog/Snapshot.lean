import Talon.Catalog.Model

/-!
# Snapshots of the catalog

`catalog/model.rs`, from `Snapshot` on.  A snapshot lists each store, its blocks with their pages
cut into chunks, and the pending transactions; blocks come in the order of a hash map, which is any
order. Restoring the records one by one gives back the state, because every accepted record keeps it
in a form that the checks of `restore` accept.
-/

set_option autoImplicit false

namespace Talon.Catalog

open Talon.Core (BlockId Str sampleBlock)
open State SortedMap PartialMap List
open State (applyRecord)

inductive SnapshotRecord
  | store (path : Str) (pageSize : Nat)
  | block (store : Str) (block : Block) (continuation : Bool)
  | pending (transaction : Nat) (intent : Intent)

inductive Frozen
  | store (path : Str) (pageSize : Nat)
  | block (store : Str) (block : Block)
  | pending (transaction : Nat) (intent : Intent)

def snapshotPages : Nat := 1024

def blockRecords (path : Str) (b : Block) (after : Option Nat) : List SnapshotRecord :=
  match _chunk : ((b.pages.above after).take snapshotPages).getLast? with
  | none => []
  | some last =>
    .block path ⟨b.id, b.len, SortedMap.empty.insertAll ((b.pages.above after).take snapshotPages)⟩
      after.isSome :: blockRecords path b (some last.1)
termination_by (b.pages.above after).length
decreasing_by exact SortedMap.above_next_lt _chunk

def Frozen.records : Frozen → List SnapshotRecord
  | .store path pageSize => [.store path pageSize]
  | .block path b => blockRecords path b none
  | .pending transaction intent => [.pending transaction intent]

def Store.withBlock (s : Store) (id : BlockId) (b : Block) : Store :=
  { s with blocks := PartialMap.insert s.blocks id b }

namespace State

def withStore (s : State) (path : Str) (store : Store) : State :=
  { s with stores := s.stores.insert path store }

/-- What the snapshot freezes; `order` gives the blocks of a store in the order of its hash map. -/
def snapshot (s : State) (order : Str → List Block) : List Frozen :=
  s.stores.entries.flatMap (fun e => .store e.1 e.2.pageSize :: (order e.1).map (.block e.1)) ++
    s.pending.entries.map fun e => .pending e.1 e.2

def invalidBlock (store : Store) (block : Block) (continuation : Bool) : Bool :=
  decide (block.len > block.id.blockSize) || block.pages.isEmpty ||
    if store.pageSize = 0 then
      continuation || block.pages.entries.length != 1 || (block.pages.get? 0).isNone
    else block.pages.entries.any fun e => decide (e.1 ≥ pageCount block.id store.pageSize)

/-- A chunk goes on where the pages that are there end. -/
def continues (previous block : Block) : Bool :=
  match previous.pages.entries.getLast?, block.pages.entries.head? with
  | some last, some first => decide (previous.len = block.len ∧ last.1 < first.1)
  | _, _ => false

def restoreBlock (s : State) (path : Str) (store : Store) (block : Block) (continuation : Bool) :
    Except String State :=
  if invalidBlock store block continuation then .error "invalid snapshot block"
  else if continuation then
    match store.blocks block.id with
    | none => .error "snapshot continuation without block"
    | some previous =>
      if continues previous block then
        .ok (s.withStore path (store.withBlock block.id
          { previous with pages := previous.pages.insertAll block.pages.entries }))
      else .error "invalid/duplicate snapshot page chunk"
  else if (store.blocks block.id).isSome then .error "duplicate snapshot block"
  else .ok (s.withStore path (store.withBlock block.id block))

def restore (s : State) : SnapshotRecord → Except String State
  | .store path pageSize =>
    if (s.stores.get? path).isSome then .error "duplicate snapshot store"
    else s.applyRecord 0 (.store path pageSize)
  | .block path block continuation =>
    match s.stores.get? path with
    | none => .error "unknown snapshot store"
    | some store => s.restoreBlock path store block continuation
  | .pending transaction intent =>
    if transaction = 0 ∨ (s.pending.get? transaction).isSome then
      .error "invalid/duplicate snapshot transaction"
    else s.applyRecord transaction (.begin intent)

def restoreAll : State → List SnapshotRecord → Except String State
  | s, [] => .ok s
  | s, r :: rest => do
    let s ← s.restore r
    s.restoreAll rest

theorem restoreAll_append {s t : State} {l : List SnapshotRecord} (first : s.restoreAll l = .ok t)
    (rest : List SnapshotRecord) : s.restoreAll (l ++ rest) = t.restoreAll rest := by
  induction l generalizing s with
  | nil =>
    cases first
    rfl
  | cons r l ih =>
    obtain ⟨u, one, more⟩ := Fallible.bind_ok first
    change (s.restore r >>= fun u => u.restoreAll (l ++ rest)) = _
    rw [one]
    exact ih more

end State

section Blocks

variable {path : Str} {b : Block} {s : State} {store : Store}

theorem chunk_valid (ok : b.Ok store.pageSize b.id) {chunk : SortedMap Nat Nat}
    {continuation : Bool} (part : ∀ e ∈ chunk.entries, e ∈ b.pages.entries)
    (some_ : chunk.entries ≠ [])
    (whole : store.pageSize = 0 → continuation = false ∧ chunk = b.pages) :
    invalidBlock store ⟨b.id, b.len, chunk⟩ continuation = false := by
  have len : ¬ b.len > b.id.blockSize := Nat.not_lt.mpr ok.len
  have resident : chunk.isEmpty = false := by
    rw [Bool.eq_false_iff]
    exact fun none_ => some_ (isEmpty_iff.mp none_)
  unfold invalidBlock
  rw [decide_eq_false len, resident, Bool.or_self, Bool.false_or]
  split
  · rename_i zero
    obtain ⟨first, rfl⟩ := whole zero
    obtain ⟨_, same⟩ := ok.whole zero
    rw [first, same]
    rfl
  · rename_i paged
    rw [any_eq_false]
    intro e mem
    have inside := ok.pages (Nat.pos_of_ne_zero paged) e.1 e.2 (mem_entries_iff.mp (part e mem))
    simpa using inside

structure Written (b : Block) (after : Option Nat) (written : SortedMap Nat Nat) : Prop where
  split : b.pages.entries = written.entries ++ b.pages.above after
  last : ∀ k, after = some k → (written.entries.getLast?).map Prod.fst = some k
  first : after = none → written = .empty

theorem written_none (b : Block) : Written b none .empty :=
  ⟨by rw [above_none]; rfl, nofun, fun _ => rfl⟩

variable {after : Option Nat} {written : SortedMap Nat Nat}

theorem Written.next (h : Written b after written) {last : Nat × Nat} {n : Nat}
    (chunk : ((b.pages.above after).take n).getLast? = some last) :
    (written.insertAll ((b.pages.above after).take n)).entries =
        written.entries ++ (b.pages.above after).take n ∧
      Written b (some last.1) (written.insertAll ((b.pages.above after).take n)) := by
  have sorted := b.pages.sorted
  rw [h.split, ← take_append_drop n (b.pages.above after), ← append_assoc] at sorted
  have appended := entries_insertAll_above (m := written) (pairwise_append.mp sorted).1
  refine ⟨appended, ?_, fun k same => ?_, nofun⟩
  · rw [appended, above_next chunk, append_assoc, take_append_drop, h.split]
  · cases same
    rw [appended, getLast?_append, chunk]
    rfl

theorem insertAll_chunk {n : Nat} :
    (empty.insertAll ((b.pages.above after).take n) : SortedMap Nat Nat).entries =
      (b.pages.above after).take n :=
  entries_insertAll_above
    (above_sorted.sublist (take_sublist _ _))

section

variable (ok : b.Ok store.pageSize b.id)
include ok

theorem whole_single (zero : store.pageSize = 0) :
    ∃ allocated, b.pages.entries = [(0, allocated)] := by
  obtain ⟨allocated, same⟩ := ok.whole zero
  exact ⟨allocated, by rw [same]; rfl⟩

theorem restore_chunk (h : Written b after written) (known : s.stores.get? path = some store)
    (here : store.blocks b.id = if after.isSome then some ⟨b.id, b.len, written⟩ else none)
    {last : Nat × Nat} (chunk : ((b.pages.above after).take snapshotPages).getLast? = some last) :
    s.restore (.block path ⟨b.id, b.len,
        empty.insertAll ((b.pages.above after).take snapshotPages)⟩ after.isSome) =
      .ok (s.withStore path (store.withBlock b.id
        ⟨b.id, b.len, written.insertAll ((b.pages.above after).take snapshotPages)⟩)) := by
  have some_ : (b.pages.above after).take snapshotPages ≠ [] := by
    intro none_
    rw [none_] at chunk
    cases chunk
  have valid : invalidBlock store ⟨b.id, b.len,
      empty.insertAll ((b.pages.above after).take snapshotPages)⟩ after.isSome = false := by
    refine chunk_valid ok (fun e mem => ?_) (by rw [insertAll_chunk]; exact some_) fun zero => ?_
    · rw [insertAll_chunk] at mem
      exact (mem_filter.mp (mem_of_mem_take mem)).1
    · -- a whole block has one page, so its first chunk is all of it
      obtain ⟨_, single⟩ := whole_single ok zero
      cases after with
      | none =>
        refine ⟨rfl, ?_⟩
        have all : (b.pages.above none).take snapshotPages = b.pages.entries := by
          rw [above_none, single]
          rfl
        rw [all, insertAll_entries]
      | some k =>
        have before := h.last k rfl
        cases first : written.entries with
        | nil =>
          rw [first] at before
          cases before
        | cons =>
          have split := h.split
          rw [single, first, cons_append, cons.injEq] at split
          have rest := (append_eq_nil_iff.mp split.2.symm).2
          rw [rest] at some_
          exact absurd rfl some_
  change (match s.stores.get? path with | none => _ | some store => _) = _
  rw [known]
  dsimp only
  unfold restoreBlock
  rw [valid]
  cases after with
  | none =>
    rw [h.first rfl, here]
    rfl
  | some k =>
    have follows : continues ⟨b.id, b.len, written⟩ ⟨b.id, b.len,
        empty.insertAll ((b.pages.above (some k)).take snapshotPages)⟩ = true := by
      unfold continues
      rw [insertAll_chunk]
      obtain ⟨e, at_, rfl⟩ := Option.map_eq_some_iff.mp (h.last k rfl)
      obtain ⟨first, _, same⟩ := exists_cons_of_ne_nil some_
      have mem := mem_of_mem_take (by rw [same]; exact mem_cons_self)
      rw [at_, same]
      simpa using (mem_filter.mp mem).2
    rw [here, Option.isSome_some]
    change (if continues ⟨b.id, b.len, written⟩ _ = true then _ else _) = _
    rw [if_pos follows, insertAll_chunk]

theorem restore_chunks (h : Written b after written) (known : s.stores.get? path = some store)
    (here : store.blocks b.id = if after.isSome then some ⟨b.id, b.len, written⟩ else none)
    (more : after.isSome = true ∨ b.pages.above after ≠ []) :
    s.restoreAll (blockRecords path b after) = .ok (s.withStore path (store.withBlock b.id b)) := by
  induction left : (b.pages.above after).length using Nat.strong_induction_on
    generalizing after written s store with
  | _ n ih =>
    rw [blockRecords]
    split
    · rename_i finished
      have none_ : b.pages.above after = [] := by
        rw [getLast?_eq_none_iff, take_eq_nil_iff] at finished
        exact finished.resolve_left (Nat.succ_ne_zero 1023)
      have started := more.resolve_right (not_not.mpr none_)
      have whole : written = b.pages := by
        have split := h.split
        rw [none_, append_nil] at split
        ext1 k
        exact get?_eq_of_mem fun v => by rw [split]
      rw [started, if_pos rfl, whole] at here
      have same : store.withBlock b.id b = store := by
        rw [Store.withBlock, PartialMap.insert, ← here, Function.update_eq_self]
      change Except.ok s = _
      rw [same, withStore, insert_same known]
    · rename_i last chunk
      obtain ⟨-, next⟩ := h.next chunk
      have shorter := above_next_lt chunk
      rw [left] at shorter
      change (s.restore _ >>= fun t => t.restoreAll _) = _
      rw [restore_chunk ok h known here chunk]
      generalize written.insertAll ((b.pages.above after).take snapshotPages) = grown at next ⊢
      have rest := ih _ shorter (s := s.withStore path (store.withBlock b.id ⟨b.id, b.len, grown⟩))
        (show b.Ok (store.withBlock b.id ⟨b.id, b.len, grown⟩).pageSize b.id from ok) next
        get?_insert_self (insert_self ..) (.inl rfl) rfl
      have twice : (store.withBlock b.id ⟨b.id, b.len, grown⟩).withBlock b.id b =
          store.withBlock b.id b :=
        congrArg (Store.mk store.pageSize) (Function.update_idem ..)
      change restoreAll _ _ = _
      rw [rest, twice, withStore, withStore, insert_insert]
      rfl

theorem restore_block (known : s.stores.get? path = some store) (fresh : store.blocks b.id = none) :
    s.restoreAll (blockRecords path b none) = .ok (s.withStore path (store.withBlock b.id b)) := by
  refine restore_chunks ok (written_none b) known fresh (.inr ?_)
  rw [above_none]
  intro none_
  have resident := ok.resident
  rw [SortedMap.isEmpty, none_] at resident
  cases resident

end

end Blocks

/-- The list has the blocks of a hash map, each once. -/
structure Enumerates (l : List Block) (blocks : BlockId → Option Block) : Prop where
  nodup : (l.map Block.id).Nodup
  mem : ∀ id b, blocks id = some b ↔ b ∈ l ∧ b.id = id

section Enumerate

variable {l : List Block} {m m' : BlockId → Option Block}

theorem enumerates_nil : Enumerates [] empty :=
  ⟨nodup_nil, fun id b => by simp⟩

section

variable (h : Enumerates l m)
include h

theorem Enumerates.snoc {b : Block} (fresh : b.id ∉ l.map Block.id) :
    Enumerates (l ++ [b]) (insert m b.id b) := by
  refine ⟨?_, fun id other => ?_⟩
  · rw [map_append]
    refine nodup_append.mpr ⟨h.nodup, nodup_singleton _, fun i mem j last => ?_⟩
    rw [map_singleton, mem_singleton] at last
    rintro rfl
    exact fresh (last ▸ mem)
  · rcases eq_or_ne id b.id with rfl | ne
    · rw [insert_self]
      constructor
      · intro same
        cases same
        exact ⟨mem_append_right _ mem_cons_self, rfl⟩
      · rintro ⟨mem, same⟩
        rcases mem_append.mp mem with old | new
        · exact absurd (mem_map.mpr ⟨other, old, same⟩) fresh
        · rw [mem_singleton.mp new]
    · rw [insert_of_ne ne, h.mem]
      constructor
      · exact fun ⟨mem, same⟩ => ⟨mem_append_left _ mem, same⟩
      · rintro ⟨mem, same⟩
        rcases mem_append.mp mem with old | new
        · exact ⟨old, same⟩
        · rw [mem_singleton.mp new] at same
          exact absurd same.symm ne

theorem Enumerates.erase (id : BlockId) :
    Enumerates (l.filter fun b => b.id ≠ id) (erase m id) := by
  refine ⟨h.nodup.sublist (filter_sublist.map _), fun j b => ?_⟩
  rw [mem_filter]
  rcases eq_or_ne j id with rfl | ne
  · rw [erase_self]
    constructor
    · nofun
    · rintro ⟨⟨_, other⟩, same⟩
      simp [same] at other
  · rw [erase_of_ne ne, h.mem]
    constructor
    · rintro ⟨mem, rfl⟩
      exact ⟨⟨mem, by simpa using ne⟩, rfl⟩
    · exact fun ⟨⟨mem, _⟩, same⟩ => ⟨mem, same⟩

theorem Enumerates.insert (b : Block) :
    Enumerates (l.filter (fun other => other.id ≠ b.id) ++ [b]) (insert m b.id b) := by
  rw [← insert_erase]
  refine (h.erase b.id).snoc fun mem => ?_
  obtain ⟨_, there, same⟩ := mem_map.mp mem
  simpa [same] using (mem_filter.mp there).2

theorem Enumerates.unique (h' : Enumerates l m') : m = m' := by
  funext id
  apply Option.ext
  intro b
  rw [h.mem, h'.mem]

theorem Enumerates.fresh {id : BlockId} (absent : id ∉ l.map Block.id) : m id = none := by
  rw [Option.eq_none_iff_forall_ne_some]
  intro b found
  obtain ⟨mem, same⟩ := (h.mem id b).mp found
  exact absent (mem_map.mpr ⟨b, mem, same⟩)

end

end Enumerate

section Whole

variable {s target : State} {path : Str} {pageSize : Nat}

theorem restore_blocks (l done : List Block) {m : BlockId → Option Block} (h : Enumerates done m)
    (apart : ((done ++ l).map Block.id).Nodup) (ok : ∀ b ∈ l, b.Ok pageSize b.id)
    (known : s.stores.get? path = some ⟨pageSize, m⟩) :
    ∃ m', Enumerates (done ++ l) m' ∧
      s.restoreAll ((l.map (Frozen.block path)).flatMap Frozen.records) =
        .ok (s.withStore path ⟨pageSize, m'⟩) := by
  induction l generalizing done m s with
  | nil =>
    refine ⟨m, by rw [append_nil]; exact h, ?_⟩
    rw [withStore, insert_same known]
    rfl
  | cons b l ih =>
    have fresh : b.id ∉ done.map Block.id := by
      rw [map_append, map_cons] at apart
      intro mem
      exact (nodup_append.mp apart).2.2 b.id mem b.id mem_cons_self rfl
    have first :=
      restore_block (show b.Ok (Store.mk pageSize m).pageSize b.id from ok b mem_cons_self) known
      (h.fresh fresh)
    have regroup : done ++ b :: l = done ++ [b] ++ l := by rw [append_assoc]; rfl
    rw [regroup] at apart
    obtain ⟨m', enumerates, rest⟩ := ih (done ++ [b]) (h.snoc fresh) apart
      (fun b' mem => ok b' (mem_cons_of_mem _ mem))
      (s := s.withStore path (Store.withBlock ⟨pageSize, m⟩ b.id b)) get?_insert_self
    refine ⟨m', by rw [regroup]; exact enumerates, ?_⟩
    rw [map_cons, flatMap_cons, Frozen.records]
    rw [restoreAll_append first, rest, withStore, withStore, withStore,
      insert_insert]

theorem restore_store {order : List Block} {store : Store} (fresh : s.stores.get? path = none)
    (valid : validStore path = true ∧ (path = wholePath ↔ store.pageSize = 0)) (ok : store.Ok)
    (h : Enumerates order store.blocks) :
    s.restoreAll ((Frozen.store path store.pageSize :: order.map (Frozen.block path)).flatMap
      Frozen.records) = .ok (s.withStore path store) := by
  have registered : s.restore (.store path store.pageSize) =
      .ok (s.withStore path ⟨store.pageSize, empty⟩) := by
    change (if (s.stores.get? path).isSome = true then _ else s.register path store.pageSize) = _
    rw [fresh, if_neg (show ¬(none : Option Store).isSome = true from nofun)]
    unfold register
    rw [if_neg (not_not.mpr valid), fresh]
    rfl
  have each : ∀ b ∈ order, b.Ok store.pageSize b.id := fun b mem =>
    ok b.id b ((h.mem b.id b).mpr ⟨mem, rfl⟩)
  obtain ⟨_, enumerates, rest⟩ := restore_blocks order [] enumerates_nil
    (by rw [nil_append]; exact h.nodup) each
    (show (s.withStore path ⟨store.pageSize, empty⟩).stores.get? path = _ from
      get?_insert_self)
  rw [nil_append] at enumerates
  rw [flatMap_cons]
  change (s.restore (.store path store.pageSize) >>= fun t => t.restoreAll _) = _
  rw [registered]
  change restoreAll _ ((order.map (Frozen.block path)).flatMap Frozen.records) = _
  rw [rest, enumerates.unique h, withStore, withStore, withStore,
    insert_insert]

theorem restore_stores {order : Str → List Block} (okay : target.Ok) (l : List (Str × Store))
    (part : ∀ e ∈ l, target.stores.get? e.1 = some e.2) (apart : (l.map Prod.fst).Nodup)
    (orders : ∀ e ∈ l, Enumerates (order e.1) e.2.blocks)
    (fresh : ∀ e ∈ l, s.stores.get? e.1 = none) :
    s.restoreAll ((l.flatMap fun e => Frozen.store e.1 e.2.pageSize ::
        (order e.1).map (Frozen.block e.1)).flatMap Frozen.records) =
      .ok { s with stores := s.stores.insertAll l } := by
  induction l generalizing s with
  | nil => rfl
  | cons e l ih =>
    obtain ⟨path, store⟩ := e
    have known := part _ mem_cons_self
    have first := restore_store (s := s) (fresh _ mem_cons_self) (okay.path path store known)
      (okay.store path store known) (orders _ mem_cons_self)
    rw [map_cons, nodup_cons] at apart
    rw [flatMap_cons, flatMap_append, restoreAll_append first]
    refine ih (s := s.withStore path store) (fun e mem => part e (mem_cons_of_mem _ mem)) apart.2
      (fun e mem => orders e (mem_cons_of_mem _ mem)) fun e mem => ?_
    have ne : e.1 ≠ path := fun same => apart.1 (mem_map.mpr ⟨e, mem, same⟩)
    rw [withStore, get?_insert_of_ne ne]
    exact fresh e (mem_cons_of_mem _ mem)

theorem restore_pending (okay : target.Ok) (stores : s.stores = target.stores)
    (l : List (Nat × Intent)) (part : ∀ e ∈ l, target.pending.get? e.1 = some e.2)
    (apart : (l.map Prod.fst).Nodup) (fresh : ∀ e ∈ l, s.pending.get? e.1 = none)
    (sub : ∀ u other, s.pending.get? u = some other → target.pending.get? u = some other) :
    s.restoreAll ((l.map fun e => Frozen.pending e.1 e.2).flatMap Frozen.records) =
      .ok { s with pending := s.pending.insertAll l } := by
  induction l generalizing s with
  | nil => rfl
  | cons e l ih =>
    obtain ⟨u, intent⟩ := e
    have known := part _ mem_cons_self
    have unused := fresh _ mem_cons_self
    have positive : u ≠ 0 := by
      rintro rfl
      rw [okay.positive] at known
      cases known
    obtain ⟨_, registered, valid⟩ := okay.known u intent known
    have opened : s.openIntent u intent = .ok { s with pending := s.pending.insert u intent } := by
      refine openIntent_of (Nat.pos_of_ne_zero positive) unused (by rw [stores]; exact registered)
        valid fun v other there => ?_
      have ne : v ≠ u := by
        rintro rfl
        rw [unused] at there
        cases there
      exact okay.apart v u other intent ne (sub v other there) known
    have first :
        s.restore (.pending u intent) = .ok { s with pending := s.pending.insert u intent } := by
      change (if u = 0 ∨ (s.pending.get? u).isSome = true then _ else s.openIntent u intent) = _
      rw [if_neg (by simp [positive, unused]), opened]
    rw [map_cons, nodup_cons] at apart
    rw [map_cons, flatMap_cons]
    change (s.restore (.pending u intent) >>= fun t => t.restoreAll _) = _
    rw [first]
    refine ih (s := { s with pending := s.pending.insert u intent }) stores
      (fun e mem => part e (mem_cons_of_mem _ mem)) apart.2 (fun e mem => ?_)
      (forall_insert known sub)
    have ne : e.1 ≠ u := fun same => apart.1 (mem_map.mpr ⟨e, mem, same⟩)
    rw [get?_insert_of_ne ne]
    exact fresh e (mem_cons_of_mem _ mem)

end Whole

theorem restore_snapshot {s : State} (ok : s.Ok) {order : Str → List Block}
    (orders : ∀ path store, s.stores.get? path = some store →
      Enumerates (order path) store.blocks) :
    restoreAll {} ((s.snapshot order).flatMap Frozen.records) = .ok s := by
  have stored := restore_stores (s := {}) ok s.stores.entries
    (fun e mem => mem_entries_iff.mp mem) (nodup_keys _)
    (fun e mem => orders e.1 e.2 (mem_entries_iff.mp mem)) fun _ _ => rfl
  have pended := restore_pending (s := { stores := s.stores }) ok rfl s.pending.entries
    (fun e mem => mem_entries_iff.mp mem) (nodup_keys _) (fun _ _ => rfl) nofun
  rw [insertAll_entries] at stored
  rw [insertAll_entries] at pended
  rw [snapshot, flatMap_append, restoreAll_append stored]
  exact pended

section Finite

def Store.Finite (s : Store) : Prop := ∃ l, Enumerates l s.blocks

variable {s : Store} {block : BlockId}

theorem Store.Finite.dropBlock (h : s.Finite) : (s.dropBlock block).Finite :=
  h.elim fun _ enumerates => ⟨_, enumerates.erase block⟩

theorem Store.Finite.dropPage (h : s.Finite) (ok : s.Ok) (page : Nat) :
    (s.dropPage block page).Finite := by
  unfold Store.dropPage
  cases here : s.blocks block with
  | none => exact h
  | some b =>
    dsimp only
    split
    · exact h.dropBlock
    · obtain ⟨l, enumerates⟩ := h
      obtain rfl := (ok block b here).id
      exact ⟨_, enumerates.insert { b with pages := b.pages.erase page }⟩

theorem Store.Finite.complete (h : s.Finite) (ok : s.Ok) (intent : Intent) (allocated : Nat) :
    (s.complete intent allocated).Finite := by
  obtain ⟨_, block, operation⟩ := intent
  cases operation with
  | put _ len | putWhole len => exact h.elim fun _ enumerates =>
      ⟨_, enumerates.insert ⟨block, len, _⟩⟩
  | deletePage page => exact h.dropPage ok page
  | deleteBlock => exact h.dropBlock

theorem Store.Finite.resolve (h : s.Finite) (ok : s.Ok) (intent : Intent) :
    (s.resolve intent).Finite := by
  obtain ⟨_, _, operation⟩ := intent
  cases operation with
  | put page len | deletePage page => exact h.dropPage ok page
  | putWhole len | deleteBlock => exact h.dropBlock

theorem State.finite_close {s t : State} (ok : s.Ok) {transaction : Nat}
    {f : Store → Intent → Store}
    (finite : ∀ path store, s.stores.get? path = some store → store.Finite)
    (keeps : ∀ store intent, store.Finite → store.Ok → (f store intent).Finite)
    (done : s.close transaction f = .ok t) :
    ∀ path store, t.stores.get? path = some store → store.Finite := by
  obtain ⟨intent, store, -, known, rfl⟩ := close_ok done
  exact forall_insert (keeps store intent (finite _ _ known) (ok.store _ _ known)) finite

theorem State.Reached.finite {s : State} (reached : s.Reached) :
    ∀ path store, s.stores.get? path = some store → store.Finite := by
  induction reached with
  | empty => nofun
  | @record s t before _ record accepted ih =>
    cases record with
    | store path =>
      obtain ⟨-, -, rfl, -⟩ := register_ok accepted
      refine forall_insert ?_ ih
      cases known : s.stores.get? path with
      | none => exact ⟨[], enumerates_nil⟩
      | some store => exact ih path store known
    | begin =>
      obtain ⟨-, -, rfl, -⟩ := openIntent_ok accepted
      exact ih
    | resolve =>
      exact finite_close before.ok ih (fun _ intent h ok => h.resolve ok intent) accepted
    | complete _ allocated =>
      exact finite_close before.ok ih (fun _ intent h ok => h.complete ok intent allocated)
        accepted

end Finite

/-- An order in which the hash maps of a state give out their blocks. -/
def State.Orders (s : State) (order : Str → List Block) : Prop :=
  ∀ path store, s.stores.get? path = some store → Enumerates (order path) store.blocks

theorem State.Reached.orders {s : State} (reached : s.Reached) : ∃ order, s.Orders order := by
  have each : ∀ path, ∃ l, ∀ store, s.stores.get? path = some store →
      Enumerates l store.blocks := by
    intro path
    cases known : s.stores.get? path with
    | none => exact ⟨[], nofun⟩
    | some store =>
      obtain ⟨l, enumerates⟩ := reached.finite path store known
      exact ⟨l, fun _ same => by cases same; exact enumerates⟩
  obtain ⟨order, all⟩ := Classical.axiomOfChoice each
  exact ⟨order, fun path store => all path store⟩

/-- Whatever order the hash maps have, the records of a snapshot restore the state they were taken
from, and every further record has the same effect on both. -/
theorem catalog_snapshot_faithful {s : State} (reached : s.Reached) :
    (∃ order, s.Orders order) ∧ ∀ order, s.Orders order →
      ∃ t, State.restoreAll {} ((s.snapshot order).flatMap Frozen.records) = .ok t ∧ t = s ∧
        ∀ lsn record, t.applyRecord lsn record = s.applyRecord lsn record :=
  ⟨reached.orders, fun _ orders => ⟨s, restore_snapshot reached.ok orders, rfl, fun _ _ => rfl⟩⟩

/-- A page that is there, and a pending intent of each kind. -/
theorem catalog_snapshot_faithful_paged :
    ∃ s : State, s.pending.entries.map (fun e => (e.1, e.2.operation)) =
        [(4, .put 1 8), (5, .deletePage 0), (7, .putWhole 8), (8, .deleteBlock)] ∧
      ∃ order t, State.restoreAll {} ((s.snapshot order).flatMap Frozen.records) = .ok t ∧
        t = s := by
  have one := State.Reached.empty.record
    (show applyRecord {} 1 (.store pagedPath 4) = .ok _ from rfl)
  have two := one.record
    (show applyRecord _ 2 (.begin ⟨pagedPath, sampleBlock 0 'v', .put 0 8⟩) = .ok _ from rfl)
  have three := two.record (show applyRecord _ 3 (.complete 2 4096) = .ok _ from rfl)
  have four := three.record
    (show applyRecord _ 4 (.begin ⟨pagedPath, sampleBlock 0 'v', .put 1 8⟩) = .ok _ from rfl)
  have five := four.record
    (show applyRecord _ 5 (.begin ⟨pagedPath, sampleBlock 0 'v', .deletePage 0⟩) = .ok _ from rfl)
  have six := five.record (show applyRecord _ 6 (.store wholePath 0) = .ok _ from rfl)
  have seven := six.record
    (show applyRecord _ 7 (.begin ⟨wholePath, sampleBlock 0 'v', .putWhole 8⟩) = .ok _ from rfl)
  have eight := seven.record
    (show applyRecord _ 8 (.begin ⟨wholePath, sampleBlock 8 'v', .deleteBlock⟩) = .ok _ from rfl)
  obtain ⟨⟨order, orders⟩, restored⟩ := catalog_snapshot_faithful eight
  obtain ⟨t, done, same, -⟩ := restored order orders
  exact ⟨_, rfl, order, t, done, same⟩

end Talon.Catalog
