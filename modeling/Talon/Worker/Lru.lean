import Mathlib.Data.List.Sort
import Talon.Lib.Counter
import Talon.Lib.PartialMap
import Talon.Lib.SortedMap
import Talon.Worker.VersionIndex

/-!
# The eviction policy

`eviction.rs` with the policy records of `index.rs`: the second-chance queue of cache units, the
block records with their two queues, the version index and the checks of objects, for a policy whose
index has no small-object directory.  `none` is a panic: a failed `expect` or assertion, or an
overflow of checked arithmetic.  Reads of the access clock are arguments.
-/

set_option autoImplicit false

namespace Talon.Worker

open Talon.Core

inductive UnitKind
  | whole
  | exactRange
  | page (index : Nat)
deriving DecidableEq

def UnitKind.isPage : UnitKind → Bool
  | page _ => true
  | _ => false

structure CacheUnit where
  block : BlockId
  kind : UnitKind
deriving DecidableEq

structure PolicyState where
  independent : Bool
  bytes : Nat
  position : Nat
  revision : Nat
  pins : Nat
deriving DecidableEq

/-- `referenced` is the reference bit behind the access token of this admission. -/
structure PolicyEntry extends PolicyState where
  referenced : Bool
deriving DecidableEq

/-- `access` is the idle clock that the access tokens of all units of the block share. -/
structure BlockPolicy where
  pins : Nat
  position : Nat
  revision : Nat
  ownershipPosition : Nat
  ownershipPending : Bool
  access : Nat
deriving DecidableEq

structure EvictionCandidate where
  unit : CacheUnit
  revision : Nat
deriving DecidableEq

structure StaleBlockCandidate where
  block : BlockId
  units : Nat
  revision : Nat
  lastAccess : Nat
deriving DecidableEq

/-- `lens` are the `len` fields of the index's `PolicyUnits`. -/
structure Lru where
  units : Table CacheUnit PolicyEntry
  lens : BlockId → Nat
  activity : BlockId → Option BlockPolicy
  queue : SortedMap Nat CacheUnit
  versions : VersionIndex
  blockQueue : SortedMap Nat BlockId
  ownershipQueue : SortedMap Nat BlockId
  objectChecks : ObjectId → Option (Nat × Option Nat)
  trackChecks : Bool
  trackBlocks : Bool
  totalBytes : Counter 64
  clock : Nat
  admissionCeiling : Nat

namespace Lru

def withTracking (digest : BlockId → Nat) (trackChecks trackBlocks : Bool) : Lru where
  units := .empty
  lens _ := 0
  activity _ := none
  queue := .empty
  versions := .new digest
  blockQueue := .empty
  ownershipQueue := .empty
  objectChecks _ := none
  trackChecks := trackChecks
  trackBlocks := trackBlocks
  totalBytes := .holding 0
  clock := 0
  admissionCeiling := 0

/-- The clock counts with a checked 64-bit addition. -/
def ticks (s : Lru) : Bool := s.clock + 1 < 2 ^ 64

def updateBlock (s : Lru) (block : BlockId) (f : BlockPolicy → BlockPolicy) : Lru :=
  { s with activity := Function.update s.activity block ((s.activity block).map f) }

/-- `policy_has_versioned_units`. -/
def hasVersionedUnits (s : Lru) (block : BlockId) : Bool :=
  let independentWhole := (s.units.get? ⟨block, .whole⟩).any (·.independent)
  let exact := (s.units.get? ⟨block, .exactRange⟩).isSome
  decide (independentWhole.toNat + exact.toNat < s.lens block)

def removeVersion (s : Lru) (block : BlockId) : Lru :=
  if s.hasVersionedUnits block then s else { s with versions := s.versions.remove block }

/-- One notification stands for all admissions until ownership observes the block; an observed block
is queued again. -/
def requeue (s : Lru) (block : BlockId) (position : Nat) : Option Lru :=
  match s.activity block with
  | none => some s
  | some a =>
    if a.ownershipPending then some s
    else
      (s.ownershipQueue.get? a.ownershipPosition).map fun queued =>
        { s.updateBlock block fun a =>
            { a with ownershipPosition := position, ownershipPending := true } with
          ownershipQueue := (s.ownershipQueue.erase a.ownershipPosition).insert position queued }

/-- The admission of a tracked unit keeps its pins, its place in the queue and its token, which is
touched. -/
def insertAgain (s : Lru) (unit : CacheUnit) (e : PolicyEntry) (bytes : Nat) (independent : Bool)
    (position now : Nat) : Lru :=
  let s := { s with
    units := s.units.insert unit
      { e with independent := independent, bytes := bytes, referenced := true } }
  let s :=
    if e.independent = independent then s
    else if independent then s.removeVersion unit.block
    else { s with versions := s.versions.insert unit.block }
  { s.updateBlock unit.block fun a =>
    { a with revision := position, access := max a.access now } with
    totalBytes := s.totalBytes.replace e.bytes bytes }

/-- The first unit of a block brings the block's record and its place in both queues. -/
def ensureBlock (s : Lru) (block : BlockId) (position now : Nat) : Lru :=
  if s.trackBlocks && (s.activity block).isNone then
    { s with
      activity := Function.update s.activity block (some ⟨0, position, position, position, true, now⟩)
      blockQueue := s.blockQueue.insert position block
      ownershipQueue := s.ownershipQueue.insert position block }
  else s

def countCheck (s : Lru) (object : ObjectId) : Lru :=
  if s.trackChecks then
    let (n, verified) := (s.objectChecks object).getD (0, none)
    { s with objectChecks := Function.update s.objectChecks object (some (n + 1, verified)) }
  else s

def insertNew (s : Lru) (unit : CacheUnit) (bytes : Nat) (independent : Bool) (position now : Nat) :
    Lru :=
  let s := { s with totalBytes := s.totalBytes.replace 0 bytes }
  let s := (s.ensureBlock unit.block position now).updateBlock unit.block fun a =>
    { a with revision := position, access := max a.access now }
  let s := s.countCheck unit.block.object
  let s := if independent then s else { s with versions := s.versions.insert unit.block }
  { s with
    queue := s.queue.insert position unit
    units := s.units.insert unit ⟨⟨independent, bytes, position, position, 0⟩, false⟩
    lens := Function.update s.lens unit.block (s.lens unit.block + 1) }

/-- `insert_locked`. -/
def insert (s : Lru) (unit : CacheUnit) (bytes : Nat) (independent : Bool) (now : Nat) :
    Option Lru :=
  let independent := independent || unit.kind == .exactRange
  if independent && unit.kind.isPage then none
  else if s.ticks then
    let position := s.clock
    let s : Lru := { s with clock := s.clock + 1, admissionCeiling := s.clock + 1 }
    (s.requeue unit.block position).map fun s =>
      match s.units.get? unit with
      | some e => s.insertAgain unit e bytes independent position now
      | none => s.insertNew unit bytes independent position now
  else none

/-- A touch through the token of the unit's current admission. -/
def touch (s : Lru) (unit : CacheUnit) (now : Nat) : Lru :=
  match s.units.get? unit with
  | none => s
  | some e =>
    { s.updateBlock unit.block fun a => { a with access := max a.access now } with
      units := s.units.insert unit { e with referenced := true } }

def pin (s : Lru) (unit : CacheUnit) : Option (Bool × Lru) :=
  match s.units.get? unit with
  | none => some (false, s)
  | some e =>
    if e.pins + 1 < 2 ^ 32 then
      some (true,
        { s.updateBlock unit.block fun a => { a with pins := a.pins + 1 } with
          units := s.units.insert unit { e with pins := e.pins + 1 } })
    else none

/-- A unit without pins is left alone. -/
def unpin (s : Lru) (unit : CacheUnit) : Option Lru :=
  match s.units.get? unit with
  | none => some s
  | some e =>
    if e.pins = 0 then some s
    else if (s.activity unit.block).any fun a => a.pins == 0 then none
    else some
      { s.updateBlock unit.block fun a => { a with pins := a.pins - 1 } with
        units := s.units.insert unit { e with pins := e.pins - 1 } }

/-- `policy_remove`: the records of a block without units are dropped with the last one. -/
def policyRemove (s : Lru) (unit : CacheUnit) : Option Lru :=
  let len := s.lens unit.block
  if len = 0 then none
  else
    let units := s.units.erase unit
    some { s with
      units :=
        if len = 1 then ⟨units.entries.filter fun e => e.1.block ≠ unit.block, units.nodup_filter _⟩
        else units
      lens := Function.update s.lens unit.block (len - 1) }

/-- The block's part of a removal; the record goes with the last unit. -/
def removeFromBlock (s : Lru) (block : BlockId) (pins : Nat) : Option Lru :=
  if s.trackBlocks then
    match s.activity block with
    | none => none
    | some a =>
      if a.pins < pins then none
      else if s.lens block = 0 then
        some { s with
          activity := Function.update s.activity block none
          ownershipQueue := s.ownershipQueue.erase a.ownershipPosition
          blockQueue := s.blockQueue.erase a.position }
      else some (s.updateBlock block fun a => { a with pins := a.pins - pins })
  else some s

def uncountCheck (s : Lru) (object : ObjectId) : Option Lru :=
  match s.objectChecks object with
  | none => some s
  | some (n, verified) =>
    if n = 0 then none
    else some { s with
      objectChecks := Function.update s.objectChecks object
        (if n = 1 then none else some (n - 1, verified)) }

/-- `Inner::remove`: the bytes of the unit, if it is tracked. -/
def remove (s : Lru) (unit : CacheUnit) : Option (Option Nat × Lru) :=
  match s.units.get? unit with
  | none => some (none, s)
  | some e => do
    let s ← s.policyRemove unit
    let s := { s with queue := s.queue.erase e.position }
    let s ← s.removeFromBlock unit.block e.pins
    let s ← s.uncountCheck unit.block.object
    let s := if e.independent then s else s.removeVersion unit.block
    some (some e.bytes, { s with totalBytes := s.totalBytes.replace e.bytes 0 })

def pageNumbers (s : Lru) (block : BlockId) : List Nat :=
  (s.units.entries.filterMap fun e =>
    match e.1 with
    | ⟨b, .page n⟩ => if b = block then some n else none
    | _ => none).insertionSort (· ≤ ·)

/-- `policy_units`: the exact range, the whole block, the pages. -/
def policyUnits (s : Lru) (block : BlockId) : List CacheUnit :=
  let kinds := [.exactRange, .whole] ++ (s.pageNumbers block).map UnitKind.page
  (kinds.map (CacheUnit.mk block)).filter fun unit => (s.units.get? unit).isSome

def removeAll (s : Lru) (units : List CacheUnit) : Option Lru :=
  units.foldlM (fun s unit => (s.remove unit).map Prod.snd) s

def removeBlock (s : Lru) (block : BlockId) : Option Lru := s.removeAll (s.policyUnits block)

def isIndependentWhole (s : Lru) (block : BlockId) : Bool :=
  (s.units.get? ⟨block, .whole⟩).any (·.independent)

def supersededUnits (s : Lru) (keep : BlockId) : List CacheUnit :=
  ((s.versions.blocks keep).filter fun block => block.version ≠ keep.version).flatMap fun block =>
    (s.policyUnits block).filter fun unit =>
      (s.units.get? unit).any fun e => !e.independent && e.pins == 0

def evictSuperseded (s : Lru) (keep : BlockId) : Option (List CacheUnit × Lru) :=
  if s.isIndependentWhole keep then some ([], s)
  else (s.removeAll (s.supersededUnits keep)).map fun t => (s.supersededUnits keep, t)

def rotate (s : Lru) (unit : CacheUnit) : Option (Nat × Lru) := do
  let e ← s.units.get? unit
  let queued ← s.queue.get? e.position
  if s.ticks then
    some (s.clock, { s with
      units := s.units.insert unit { e with position := s.clock }
      queue := (s.queue.erase e.position).insert s.clock queued
      clock := s.clock + 1 })
  else none

def updateUnit (s : Lru) (unit : CacheUnit) (f : PolicyEntry → PolicyEntry) : Lru :=
  match s.units.get? unit with
  | none => s
  | some e => { s with units := s.units.insert unit (f e) }

/-- A candidate spends the unit's reference and gives it a new revision. -/
def snapshot (s : Lru) (unit : CacheUnit) : Option (EvictionCandidate × Lru) := do
  let _ ← s.units.get? unit
  let (revision, s) ← (s.updateUnit unit fun e => { e with referenced := false }).rotate unit
  some (⟨unit, revision⟩, s.updateUnit unit fun e => { e with revision := revision })

def snapshots (s : Lru) : List CacheUnit → Option (List EvictionCandidate × Lru)
  | [] => some ([], s)
  | unit :: units => do
    let (c, s) ← s.snapshot unit
    let (cs, s) ← s.snapshots units
    some (c :: cs, s)

def supersededCandidates (s : Lru) (keep : BlockId) : Option (List EvictionCandidate × Lru) :=
  if s.isIndependentWhole keep then some ([], s) else s.snapshots (s.supersededUnits keep)

def blockCandidates (s : Lru) (block : BlockId) : Option (List EvictionCandidate × Lru) :=
  s.snapshots (s.policyUnits block)

/-- What a capacity walk has found so far and may still look at. -/
structure Walk where
  out : List EvictionCandidate
  selected : List CacheUnit
  selectedBytes : Nat
  scanBudget : Nat

def satAdd (a b : Nat) : Nat := min (a + b) (2 ^ 64 - 1)

/-- One turn of the walk over the queue: the unit in front is rotated, and selected if it is
eligible and not protected by a reference. -/
def examine (s : Lru) (w : Walk) (excluded : List CacheUnit) (secondPass : Bool) :
    Option (Walk × Lru) := do
  let w := { w with scanBudget := w.scanBudget - 1 }
  match s.queue.entries.head? with
  | none => some (w, s)
  | some (_, unit) =>
    let e ← s.units.get? unit
    let eligible := e.pins == 0 && !w.selected.contains unit && !excluded.contains unit
    let referenced := eligible && e.referenced
    let victim := eligible && (secondPass || !referenced)
    let s := if eligible then s.updateUnit unit fun e => { e with referenced := false } else s
    let (revision, s) ← s.rotate unit
    let s := if eligible then s.updateUnit unit fun e => { e with revision := revision } else s
    some (if victim
      then { w with
        selectedBytes := satAdd w.selectedBytes e.bytes
        selected := w.selected ++ [unit]
        out := w.out ++ [⟨unit, revision⟩] }
      else w, s)

/-- The walk ends early when a budget is spent or enough is selected. -/
def stops (s : Lru) (w : Walk) (capacity deleteBudget : Nat) : Bool :=
  w.scanBudget == 0 || w.out.length == deleteBudget ||
    decide (s.totalBytes.value - w.selectedBytes ≤ capacity)

/-- At most `n` turns; the flag says whether the walk ended early. -/
def walkQueue (capacity deleteBudget : Nat) (excluded : List CacheUnit) (secondPass : Bool) :
    Nat → Lru → Walk → Option (Bool × Walk × Lru)
  | 0, s, w => some (false, w, s)
  | n + 1, s, w =>
    if s.stops w capacity deleteBudget then some (true, w, s)
    else do
      let (w, s) ← s.examine w excluded secondPass
      walkQueue capacity deleteBudget excluded secondPass n s w

def candidatesToFitBounded (s : Lru) (capacity : Nat) (excluded : List CacheUnit)
    (scanBudget deleteBudget : Nat) : Option (List EvictionCandidate × Lru) :=
  if s.totalBytes.value ≤ capacity then some ([], s)
  else do
    let count := s.queue.entries.length
    let (ended, w, s) ← walkQueue capacity deleteBudget excluded false count s
      ⟨[], [], 0, scanBudget⟩
    if ended then some (w.out, s)
    else do
      let (_, w, s) ← walkQueue capacity deleteBudget excluded true count s w
      some (w.out, s)

/-- `usize::MAX` for both budgets. -/
def candidatesToFit (s : Lru) (capacity : Nat) (excluded : List CacheUnit) :
    Option (List EvictionCandidate × Lru) :=
  s.candidatesToFitBounded capacity excluded (2 ^ 64 - 1) (2 ^ 64 - 1)

def candidateIsCurrent (s : Lru) (c : EvictionCandidate) : Bool :=
  (s.units.get? c.unit).any fun e => e.pins == 0 && e.revision == c.revision && !e.referenced

/-- The removal loop of `evict_to_fit`. -/
def evictCandidates (capacity : Nat) : List EvictionCandidate → Lru → Option (List CacheUnit × Lru)
  | [], s => some ([], s)
  | c :: cs, s =>
    if s.totalBytes.value ≤ capacity then some ([], s)
    else if (s.units.get? c.unit).any fun e => e.pins == 0 && e.revision == c.revision then do
      let (_, s) ← s.remove c.unit
      let (out, s) ← evictCandidates capacity cs s
      some (c.unit :: out, s)
    else evictCandidates capacity cs s

def evictToFit (s : Lru) (capacity : Nat) : Option (List CacheUnit × Lru) := do
  let (cs, s) ← s.candidatesToFit capacity []
  evictCandidates capacity cs s

def nextQueued (queue : SortedMap Nat BlockId) (lo hi : Nat) : Option (Nat × BlockId) :=
  queue.entries.find? fun e => lo ≤ e.1 && e.1 < hi

/-- `next_ownership_block` with the cursor it advances; a range that starts after its end panics.  A
block filled at or after the limit moves to its latest revision and stays pending. -/
def nextOwnershipBlock (s : Lru) (lo hi limit : Nat) :
    Option (Option (Nat × StaleBlockCandidate) × Nat × Lru) :=
  if hi < lo then none
  else
    match nextQueued s.ownershipQueue lo hi with
    | none => some (none, lo, s)
    | some (position, block) => do
      let a ← s.activity block
      let t := s.updateBlock block fun a =>
        { a with
          ownershipPosition := if limit ≤ a.revision then a.revision else a.ownershipPosition
          ownershipPending := limit ≤ a.revision }
      let t := if limit ≤ a.revision ∧ position ≠ a.revision
        then { t with ownershipQueue := (t.ownershipQueue.erase position).insert a.revision block }
        else t
      some (some (position, ⟨block, s.lens block, a.revision, a.access⟩), position + 1, t)

/-- The verification of the block's object is younger than the age. -/
def recentlyVerified (s : Lru) (block : BlockId) (now age : Nat) : Bool :=
  ((s.objectChecks block.object).bind Prod.snd).any fun at_ => now - at_ < age

/-- The loop of `age_candidates`: what it found and where the cursor stands. -/
def ageWalk (s : Lru) (now age deleteBudget : Nat) (considerVerified : Bool) (hi : Nat) :
    Nat → Nat → List StaleBlockCandidate → Option (List StaleBlockCandidate × Nat)
  | 0, lo, out => some (out, lo)
  | n + 1, lo, out =>
    match nextQueued s.blockQueue lo hi with
    | none => some (out, hi)
    | some (position, block) => do
      let a ← s.activity block
      if a.pins ≠ 0 ∨ now - a.access ≤ age then
        ageWalk s now age deleteBudget considerVerified hi n (position + 1) out
      else if considerVerified && s.recentlyVerified block now age then
        ageWalk s now age deleteBudget considerVerified hi n (position + 1) out
      else
        let out := out ++ [⟨block, s.lens block, a.revision, a.access⟩]
        if deleteBudget ≤ out.length then some (out, position + 1)
        else ageWalk s now age deleteBudget considerVerified hi n (position + 1) out

/-- A cursor at its end starts over with the present clock. -/
def ageCandidates (s : Lru) (cursor : Nat × Nat) (now age scanBudget deleteBudget : Nat)
    (considerVerified : Bool) : Option (List StaleBlockCandidate × Nat × Nat) :=
  let (lo, hi) := if cursor.2 ≤ cursor.1 then (0, s.clock) else cursor
  (s.ageWalk now age deleteBudget considerVerified hi scanBudget lo []).map fun (out, lo) =>
    (out, lo, hi)

def staleVerified (s : Lru) (object : ObjectId) (now : Nat) : Lru :=
  { s with objectChecks :=
    Function.update s.objectChecks object ((s.objectChecks object).map fun check =>
      (check.1, some now)) }

end Lru

end Talon.Worker
