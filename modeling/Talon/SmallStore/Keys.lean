import Talon.Lib.SharedPrefix
import Talon.SmallStore.KeyCodec

/-!
# The key buffer of a segment

`small_store/keys.rs`.  The encoded keys of a segment's rows share one buffer.  While a segment is
open every row has a span; sealing takes common prefixes out of the keys and replaces the spans by
cumulative offsets.  `Keys.Holds` relates a buffer to the list of keys it stands for, and every
operation has one lemma that says what it does to that list.
-/

set_option autoImplicit false

namespace Talon.SmallStore

open Wire SharedPrefix List

def u32Max : Nat := 2 ^ 32 - 1

structure Span where
  offset : Nat
  len : Nat
deriving DecidableEq

namespace Span

def default : Span := ⟨0, 0⟩

def get (s : Span) (bytes : Bytes) : Bytes := (bytes.drop s.offset).take s.len

def push (bytes key : Bytes) : Bytes × Span := (bytes ++ key, ⟨bytes.length, key.length⟩)

def append (bytes key : Bytes) : Option (Bytes × Span) :=
  if bytes.length + key.length ≤ u32Max then some (push bytes key) else none

end Span

structure Keys where
  rows : List Span := []
  offsets : List Nat := []
  suffixes : Bytes := []
  prefixIds : List Nat := []
  prefixes : List Span := []
  prefixBytes : Bytes := []
  garbage : Nat := 0
deriving DecidableEq

structure Group where
  members : List Nat
  shared : Nat
deriving DecidableEq

namespace Keys

def span (k : Keys) (row : Nat) : Option Span :=
  if k.offsets.isEmpty then k.rows[row]?
  else
    match k.offsets[row]?, k.offsets[row + 1]? with
    | some offset, some stop => some ⟨offset, stop - offset⟩
    | _, _ => none

def prefixOf (k : Keys) (id : Nat) : Bytes :=
  match k.prefixes[id]? with
  | none => []
  | some p => p.get k.prefixBytes

def prefixAt (k : Keys) (row : Nat) : Bytes :=
  match k.prefixIds[row]? with
  | none => []
  | some id => k.prefixOf id

def get (k : Keys) (row : Nat) : Option (Bytes × Bytes) :=
  (k.span row).map fun s => (k.prefixAt row, s.get k.suffixes)

def count (k : Keys) : Nat :=
  if k.offsets.isEmpty then k.rows.length else k.offsets.length - 1

/-- The offsets of a sealed buffer turned back into spans. -/
def thaw (k : Keys) : Keys :=
  if k.offsets.isEmpty then k
  else
    { k with
      rows := k.offsets.zipWith (fun a b => ⟨a, b - a⟩) k.offsets.tail
      offsets := [] }

/-- `offsets`: where each piece starts when they are laid out from `start` on, and where the last
one ends. -/
def cumulative (start : Nat) : List Bytes → List Nat
  | [] => [start]
  | p :: ps => start :: cumulative (start + p.length) ps

def freeze (k : Keys) : Keys :=
  let pieces := k.rows.map fun s => s.get k.suffixes
  { k with rows := [], offsets := cumulative 0 pieces, suffixes := pieces.flatten, garbage := 0 }

section Retain

variable (k : Keys) (keep : Nat → Bool)

/-- The identifier a kept row's prefix gets: the one an earlier row got for it, or a new one. -/
def retainPrefix (next : Keys) (renamed : List Nat) (row : Nat) : Keys × List Nat :=
  let old := k.prefixIds[row]?.getD u32Max
  if old = u32Max then ({ next with prefixIds := next.prefixIds ++ [u32Max] }, renamed)
  else
    match renamed[old]? with
    | none => (next, renamed)
    | some id =>
      if id = u32Max then
        let (prefixBytes, span) := Span.push next.prefixBytes (k.prefixAt row)
        let id := next.prefixes.length
        ({ next with
            prefixes := next.prefixes ++ [span], prefixBytes
            prefixIds := next.prefixIds ++ [id] },
          renamed.set old id)
      else ({ next with prefixIds := next.prefixIds ++ [id] }, renamed)

def retainRow (state : Keys × List Nat) (row : Nat) : Keys × List Nat :=
  if keep row then
    let (next, renamed) := state
    let (suffixes, span) := Span.push next.suffixes (((k.span row).getD .default).get k.suffixes)
    let next := { next with rows := next.rows ++ [span], suffixes }
    if k.prefixIds.isEmpty then (next, renamed) else retainPrefix k next renamed row
  else state

def retainRows (n : Nat) : Keys × List Nat :=
  (List.range n).foldl (retainRow k keep) ({}, List.replicate k.prefixes.length u32Max)

def retain : Keys :=
  if k.offsets.isEmpty then (retainRows k keep k.count).1
  else (retainRows k keep k.count).1.freeze

end Retain

/-- A buffer that is mostly garbage, or too full for the key, is copied. -/
def makeRoom (k : Keys) (key : Bytes) : Keys :=
  if k.garbage > k.suffixes.length / 2 ∨ k.suffixes.length + key.length > u32Max then
    k.retain fun _ => true
  else k

def insert (k : Keys) (row : Nat) (key : Bytes) (replace : Bool) : Keys × Result Unit :=
  let k := k.thaw.makeRoom key
  match Span.append k.suffixes key with
  | none => (k, .error "small-object key buffer overflow")
  | some (suffixes, span) =>
    if replace then
      ({ k with
          suffixes
          garbage := k.garbage + (k.rows[row]?.getD .default).len
          rows := k.rows.set row span
          prefixIds := k.prefixIds.set row u32Max }, .ok ())
    else
      ({ k with
          suffixes
          rows := k.rows.insertIdx row span
          prefixIds := if k.prefixIds.isEmpty then [] else k.prefixIds.insertIdx row u32Max },
        .ok ())

def remove (k : Keys) (row : Nat) : Keys :=
  if k.offsets.isEmpty then
    { k with
      garbage := k.garbage + (k.rows[row]?.getD .default).len
      rows := k.rows.set row .default
      prefixIds := k.prefixIds.set row u32Max }
  else k

/-! ## Prefix compression -/

/-- `size_of::<Span>()`. -/
def spanSize : Nat := 8

/-- The runs of rows that go on with the same byte after `common` bytes. -/
def runs (key : Nat → Bytes) (common : Nat) (order : List Nat) : List (List Nat) :=
  order.splitBy fun a b => (key a)[common]? == (key b)[common]?

theorem length_lt_of_mem_runs {key : Nat → Bytes} {order run : List Nat}
    (leaf : ¬ (order.length ≤ 1 ∨ key (order.headD 0) = key (order.getLastD 0)))
    (mem : run ∈ runs key (commonLen (key (order.headD 0)) (key (order.getLastD 0))) order) :
    run.length < order.length := by
  obtain ⟨long, differ⟩ := not_or.mp leaf
  have ne : order ≠ [] := by
    intro empty
    rw [empty] at long
    exact long (Nat.zero_le 1)
  have head : order.headD 0 ∈ order := by
    rw [headD_eq_head?_getD, head?_eq_some_head ne]
    exact head_mem ne
  have tail : order.getLastD 0 ∈ order := by
    rw [getLastD_eq_getLast?, getLast?_eq_some_getLast ne]
    exact getLast_mem ne
  refine length_lt_of_mem_splitBy mem head tail ?_
  exact getElem?_commonLen_ne differ

/-- The groups of a run of the sorted order and what they cost.  The source walks the same tree
with an explicit stack, last child first. -/
def visit (key : Nat → Bytes) (order : List Nat) : List Group × Nat :=
  let first := key (order.headD 0)
  let last := key (order.getLastD 0)
  let common := commonLen first last
  let total := (order.map fun r => (key r).length).sum
  let shared := common + spanSize + total - order.length * common
  if _leaf : order.length ≤ 1 ∨ first = last then
    ([⟨order, if shared < total then common else 0⟩], min shared total)
  else
    let children := (runs key common order).attach.reverse.map fun run => visit key run.1
    let cost := (children.map Prod.snd).sum
    let whole := if common = 0 then total else shared
    if whole ≤ cost then ([⟨order, common⟩], min whole cost)
    else (children.flatMap Prod.fst, min whole cost)
termination_by order.length
decreasing_by exact length_lt_of_mem_runs _leaf run.2

def keyAt (k : Keys) (row : Nat) : Bytes := (k.rows[row]?.getD .default).get k.suffixes

/-- `sort_unstable_by` on the rows: the order of equal keys is left open. -/
structure Sorter where
  order : Keys → List Nat
  perm : ∀ k, (order k).Perm (List.range k.rows.length)
  sorted : ∀ k, (order k).Pairwise fun a b => k.keyAt a ≤ k.keyAt b

section Compress

variable (k : Keys)

def groups (sorter : Sorter) : List Group := (visit k.keyAt (sorter.order k)).1

def compressRow (shared id : Nat) (next : Keys) (row : Nat) : Keys :=
  let (suffixes, span) := Span.push next.suffixes ((k.keyAt row).drop shared)
  { next with
    suffixes
    rows := next.rows.set row span
    prefixIds := next.prefixIds.set row id }

def compressGroup (next : Keys) (g : Group) : Keys :=
  if g.shared = 0 then g.members.foldl (compressRow k g.shared u32Max) next
  else
    let (prefixBytes, span) :=
      Span.push next.prefixBytes ((k.keyAt (g.members.headD 0)).take g.shared)
    g.members.foldl (compressRow k g.shared next.prefixes.length)
      { next with prefixes := next.prefixes ++ [span], prefixBytes }

def compressedSize (groups : List Group) : Nat :=
  (groups.map Group.shared).sum +
    (groups.filter fun g => g.shared ≠ 0).length * spanSize +
    (groups.map fun g => (g.members.map fun r =>
      (k.rows[r]?.getD .default).len - g.shared).sum).sum + k.rows.length * 4

def compress (sorter : Sorter) : Keys :=
  if k.rows.isEmpty ∨ ¬ k.prefixIds.isEmpty then k
  else
    let k := if k.garbage ≠ 0 then k.retain fun _ => true else k
    if compressedSize k (k.groups sorter) ≥ k.suffixes.length then k
    else
      (k.groups sorter).foldl (compressGroup k)
        { rows := List.replicate k.rows.length .default
          prefixIds := List.replicate k.rows.length u32Max }

end Compress

def sealUp (k : Keys) (sorter : Sorter) : Keys :=
  if k.offsets.isEmpty then (k.compress sorter).freeze else k

end Keys

end Talon.SmallStore
