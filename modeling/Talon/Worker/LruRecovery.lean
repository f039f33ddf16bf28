import Talon.Worker.LruRuns

/-!
# Recovery of the eviction policy

`eviction/recovery.rs` builds the policy of a restarted worker in separate passes over the recovered
units: membership and queue, versions and checks, block records and their queues.  Every pass over
one more unit does to its part of the policy what the admission of that unit does to it.
-/

set_option autoImplicit false

namespace Talon.Worker

open Talon.Core List

/-- `access` is the time on the idle clock behind the unit's access handle. -/
structure RecoveredUnit where
  independent : Bool
  unit : CacheUnit
  bytes : Nat
  access : Nat
deriving DecidableEq

namespace Lru

/-- `policy_insert` on the units of the index and the number of them in each block. -/
def policyInsert (index : Table CacheUnit PolicyEntry × (BlockId → Nat)) (unit : CacheUnit)
    (e : PolicyEntry) :
    Table CacheUnit PolicyEntry × (BlockId → Nat) :=
  (index.1.insert unit e,
    if (index.1.get? unit).isSome then index.2
    else Function.update index.2 unit.block (index.2 unit.block + 1))

def unitIndex (units : List RecoveredUnit) : Table CacheUnit PolicyEntry × (BlockId → Nat) :=
  units.zipIdx.foldl
    (fun index (u, position) =>
      policyInsert index u.unit ⟨⟨u.independent, u.bytes, position, position, 0⟩, false⟩)
    (.empty, fun _ => 0)

def recoveredQueue (units : List RecoveredUnit) : SortedMap Nat CacheUnit :=
  SortedMap.empty.insertAll (units.zipIdx.map fun (u, position) => (position, u.unit))

/-- The pass that `recover` hands to a second worker if it has one. -/
def versionIndex (digest : BlockId → Nat) (trackChecks : Bool) (units : List RecoveredUnit) :
    VersionIndex × (ObjectId → Option (Nat × Option Nat)) :=
  units.foldl
    (fun (versions, checks) u =>
      (if u.independent then versions else versions.insert u.unit.block,
        if trackChecks then
          let (n, verified) := (checks u.unit.block.object).getD (0, none)
          Function.update checks u.unit.block.object (some (n + 1, verified))
        else checks))
    (.new digest, fun _ => none)

/-- The block records and, in order, the first position of each block. -/
def blockIndex (trackBlocks : Bool) (units : List RecoveredUnit) :
    (BlockId → Option BlockPolicy) × List (Nat × BlockId) :=
  if trackBlocks then
    units.zipIdx.foldl
      (fun (activity, queue) (u, position) =>
        match activity u.unit.block with
        | some a =>
            (Function.update activity u.unit.block (some { a with revision := position }), queue)
        | none =>
          (Function.update activity u.unit.block
            (some ⟨0, position, position, position, true, u.access⟩),
            queue ++ [(position, u.unit.block)]))
      (fun _ => none, [])
  else (fun _ => none, [])

def recover (digest : BlockId → Nat) (trackChecks trackBlocks : Bool) (units : List RecoveredUnit) :
    Lru where
  units := (unitIndex units).1
  lens := (unitIndex units).2
  activity := (blockIndex trackBlocks units).1
  queue := recoveredQueue units
  versions := (versionIndex digest trackChecks units).1
  blockQueue := SortedMap.empty.insertAll (blockIndex trackBlocks units).2
  ownershipQueue := SortedMap.empty.insertAll (blockIndex trackBlocks units).2
  objectChecks := (versionIndex digest trackChecks units).2
  trackChecks := trackChecks
  trackBlocks := trackBlocks
  totalBytes := .holding (units.foldl (fun total u => satAdd total u.bytes) 0)
  clock := units.length
  admissionCeiling := units.length

/-- The same units admitted one by one, each at the time on its idle clock. -/
def insertAll (s : Lru) (units : List RecoveredUnit) : Option Lru :=
  units.foldlM (fun s u => s.insert u.unit u.bytes u.independent u.access) s

variable {digest : BlockId → Nat} {trackChecks trackBlocks : Bool} {l : List RecoveredUnit}
  {x : RecoveredUnit}

theorem zipIdx_snoc : (l ++ [x]).zipIdx = l.zipIdx ++ [(x, l.length)] := by
  simp [zipIdx_append]

theorem unitIndex_snoc : unitIndex (l ++ [x]) =
    policyInsert (unitIndex l) x.unit ⟨⟨x.independent, x.bytes, l.length, l.length, 0⟩, false⟩ := by
  rw [unitIndex, zipIdx_snoc, foldl_append]
  rfl

theorem get?_unitIndex {u : CacheUnit} (fresh : ∀ y ∈ l, y.unit ≠ u) :
    (unitIndex l).1.get? u = none := by
  induction l using reverseRecOn with
  | nil => rfl
  | append_singleton l x ih =>
    have other : u ≠ x.unit := (fresh x (by simp)).symm
    rw [unitIndex_snoc, policyInsert, Table.get?_insert_of_ne other]
    exact ih fun y mem => fresh y (mem_append_left _ mem)

theorem blockIndex_snoc : blockIndex true (l ++ [x]) =
    match (blockIndex true l).1 x.unit.block with
    | some a =>
      (Function.update (blockIndex true l).1 x.unit.block (some { a with revision := l.length }),
        (blockIndex true l).2)
    | none =>
      (Function.update (blockIndex true l).1 x.unit.block
          (some ⟨0, l.length, l.length, l.length, true, x.access⟩),
        (blockIndex true l).2 ++ [(l.length, x.unit.block)]) := by
  simp [blockIndex, zipIdx_snoc, foldl_append, foldl_cons, foldl_nil]

theorem record_blockIndex {b : BlockId} {a : BlockPolicy}
    (held : (blockIndex trackBlocks l).1 b = some a) :
    a.ownershipPending = true ∧ ∃ y ∈ l, y.unit.block = b ∧ y.access = a.access := by
  cases trackBlocks with
  | false => cases held
  | true =>
    induction l using reverseRecOn generalizing a with
    | nil => cases held
    | append_singleton l x ih =>
      have later : ∀ {a : BlockPolicy}, (blockIndex true l).1 b = some a →
          a.ownershipPending = true ∧ ∃ y ∈ l ++ [x], y.unit.block = b ∧ y.access = a.access := by
        intro a found
        obtain ⟨pending, y, mem, own, same⟩ := ih found
        exact ⟨pending, y, mem_append_left _ mem, own, same⟩
      rw [blockIndex_snoc] at held
      by_cases own : b = x.unit.block
      · subst own
        cases found : (blockIndex true l).1 x.unit.block with
        | some old =>
          simp only [found, Function.update_self, Option.some.injEq] at held
          subst held
          exact later (a := old) found
        | none =>
          simp only [found, Function.update_self, Option.some.injEq] at held
          subst held
          exact ⟨rfl, x, by simp, rfl, rfl⟩
      · apply later
        cases found : (blockIndex true l).1 x.unit.block <;>
          simpa only [found, Function.update_of_ne own] using held

theorem insertAll_snoc {κ β : Type} [LinearOrder κ] (m : SortedMap κ β) (l : List (κ × β))
    (e : κ × β) : m.insertAll (l ++ [e]) = (m.insertAll l).insert e.1 e.2 := by
  simp [SortedMap.insertAll, foldl_append, foldl_cons, foldl_nil]

theorem replace_zero (n k : Nat) :
    (Counter.holding n : Counter 64).replace 0 k = .holding (satAdd n k) := by
  simp [Counter.replace, Counter.holding, satAdd]

theorem recover_snoc (fresh : ∀ y ∈ l, y.unit ≠ x.unit)
    (shared : trackBlocks = true → ∀ y ∈ l, y.unit.block = x.unit.block → y.access = x.access) :
    recover digest trackChecks trackBlocks (l ++ [x]) =
      (recover digest trackChecks trackBlocks l).afterInsert x.unit x.bytes x.independent
        x.access := by
  have absent := get?_unitIndex fresh
  have versions : versionIndex digest trackChecks (l ++ [x]) =
      (if x.independent then (versionIndex digest trackChecks l).1
        else (versionIndex digest trackChecks l).1.insert x.unit.block,
        ((recover digest trackChecks trackBlocks l).countCheck
          x.unit.block.object).objectChecks) := by
    rw [versionIndex, foldl_append]
    cases trackChecks <;> rfl
  have total : (l ++ [x]).foldl (fun total u => satAdd total u.bytes) 0 =
      satAdd (l.foldl (fun total u => satAdd total u.bytes) 0) x.bytes := by
    rw [foldl_append]
    rfl
  unfold afterInsert admitted recordAfter queueAfter versionsAfter
  rw [recover, versions, unitIndex_snoc, recoveredQueue, zipIdx_snoc, map_append, map_singleton,
    insertAll_snoc, total, length_append, length_singleton]
  simp only [recover] at absent ⊢
  cases trackBlocks with
  | false => simp [policyInsert, absent, blockIndex, recoveredQueue, replace_zero, countCheck]
  | true =>
    obtain ⟨record, held⟩ : ∃ record, (blockIndex true l).1 x.unit.block = record := ⟨_, rfl⟩
    rcases record with _ | a
    · simp [blockIndex_snoc, held, policyInsert, absent, recoveredQueue, replace_zero,
        insertAll_snoc]
    · obtain ⟨pending, y, mem, own, clock⟩ := record_blockIndex held
      have same :
        max a.access x.access = a.access := by rw [← clock, shared rfl y mem own, max_self]
      simp [blockIndex_snoc, held, policyInsert, absent, recoveredQueue, replace_zero,
        pending, same]

/-- Recovered units: distinct, exact ranges independent and pages not, one idle clock for the units
of a tracked block, and no more of them than the clock can count. -/
structure Recoverable (trackBlocks : Bool) (units : List RecoveredUnit) : Prop where
  distinct : (units.map (·.unit)).Nodup
  exact : ∀ x ∈ units, x.unit.kind = .exactRange → x.independent = true
  pages : ∀ x ∈ units, x.unit.kind.isPage = true → x.independent = false
  shared : trackBlocks = true → ∀ x ∈ units, ∀ y ∈ units, x.unit.block = y.unit.block →
    x.access = y.access
  counted : units.length < 2 ^ 64

theorem Recoverable.init (ok : Recoverable trackBlocks (l ++ [x])) : Recoverable trackBlocks l where
  distinct := by
    have nodup := ok.distinct
    rw [map_append, nodup_append] at nodup
    exact nodup.1
  exact y mem := ok.exact y (mem_append_left _ mem)
  pages y mem := ok.pages y (mem_append_left _ mem)
  shared track y mem z mem' := ok.shared track y (mem_append_left _ mem) z (mem_append_left _ mem')
  counted := by
    have counted := ok.counted
    rw [length_append] at counted
    omega

theorem Recoverable.insert_last (ok : Recoverable trackBlocks (l ++ [x])) :
    (recover digest trackChecks trackBlocks l).insert x.unit x.bytes x.independent x.access =
      some (recover digest trackChecks trackBlocks (l ++ [x])) := by
  have last : x ∈ l ++ [x] := by simp
  have fresh : ∀ y ∈ l, y.unit ≠ x.unit := by
    have nodup := ok.distinct
    rw [map_append, nodup_append] at nodup
    intro y mem
    exact nodup.2.2 y.unit (mem_map_of_mem mem) x.unit (by simp)
  have absent : (recover digest trackChecks trackBlocks l).units.get? x.unit = none :=
    get?_unitIndex fresh
  have room : (recover digest trackChecks trackBlocks l).ticks = true := by
    have counted := ok.counted
    rw [length_append, length_singleton] at counted
    exact decide_eq_true counted
  rw [recover_snoc fresh fun track y mem => ok.shared track y (mem_append_left _ mem) x last]
  apply insert_eq room
  · intro a held waits
    rw [(record_blockIndex held).1] at waits
    cases waits
  · intro e found
    rw [absent] at found
    cases found
  · intro both
    obtain ⟨independent, page⟩ := Bool.and_eq_true_iff.mp both
    rw [ok.pages x last page] at independent
    cases independent
  · exact ok.exact x last

theorem Recoverable.insertAll_eq (ok : Recoverable trackBlocks l) :
    (withTracking digest trackChecks trackBlocks).insertAll l =
      some (recover digest trackChecks trackBlocks l) := by
  induction l using reverseRecOn with
  | nil => cases trackBlocks <;> rfl
  | append_singleton l x ih =>
    have before := ih ok.init
    rw [insertAll] at before ⊢
    simp only [foldlM_append, before, Option.bind_eq_bind, Option.bind_some,
      foldlM_cons, foldlM_nil, ok.insert_last]
    rfl

/-- Recovery gives the policy that ordinary admission of the same units gives, so nothing done to it
later can tell the two apart. -/
theorem recover_eq_admission (digest : BlockId → Nat) (trackChecks trackBlocks : Bool)
    (units : List RecoveredUnit) (ok : Recoverable trackBlocks units) :
    (withTracking digest trackChecks trackBlocks).insertAll units =
        some (recover digest trackChecks trackBlocks units) ∧
      ∀ ops : List Op,
        ((withTracking digest trackChecks trackBlocks).insertAll units).bind
          (fun s => ops.foldlM apply s) =
          ops.foldlM apply (recover digest trackChecks trackBlocks units) :=
  ⟨ok.insertAll_eq, fun ops => by rw [ok.insertAll_eq, Option.bind_some]⟩

def sampleUnits : List RecoveredUnit :=
  [⟨false, ⟨sampleBlock 0 'a', .page 0⟩, 10, 5⟩, ⟨false, ⟨sampleBlock 0 'a', .page 3⟩, 20, 5⟩,
    ⟨true, ⟨sampleBlock 0 'b', .exactRange⟩, 7, 2⟩]

theorem recover_sampleUnits :
    (withTracking (fun _ => 0) true true).insertAll sampleUnits =
      some (recover (fun _ => 0) true true sampleUnits) :=
  (recover_eq_admission (fun _ => 0) true true sampleUnits
    ⟨by decide +kernel, by decide +kernel, by decide +kernel,
      fun _ => by decide +kernel, by decide⟩).1

/-- The first pages of a block. -/
def samplePages (n : Nat) : List RecoveredUnit :=
  (range n).map fun i => ⟨false, ⟨sampleBlock 0 'a', .page i⟩, 0, 0⟩

theorem nodup_samplePages (n : Nat) : ((samplePages n).map (·.unit)).Nodup := by
  rw [samplePages, map_map]
  exact nodup_range.map fun i j same => by cases same; rfl

theorem insertAll_samplePages {n : Nat} (full : n + 1 = 2 ^ 64) :
    (withTracking (fun _ => 0) true true).insertAll (samplePages (n + 1)) = none := by
  have each {x : RecoveredUnit} (mem : x ∈ samplePages n) :
      ∃ i, x = ⟨false, ⟨sampleBlock 0 'a', .page i⟩, 0, 0⟩ := by
    obtain ⟨i, -, rfl⟩ := mem_map.mp mem
    exact ⟨i, rfl⟩
  have counted : (samplePages n).length = n := by rw [samplePages, length_map, length_range]
  have ok : Recoverable true (samplePages n) := by
    refine ⟨nodup_samplePages n, fun x mem kind => ?_, fun x mem _ => ?_, fun _ x mem y mem' _ =>
      ?_, by omega⟩
    · obtain ⟨i, rfl⟩ := each mem
      cases kind
    · obtain ⟨i, rfl⟩ := each mem
      rfl
    · obtain ⟨i, rfl⟩ := each mem
      obtain ⟨j, rfl⟩ := each mem'
      rfl
  have last : samplePages (n + 1) =
      samplePages n ++ [⟨false, ⟨sampleBlock 0 'a', .page n⟩, 0, 0⟩] := by
    simp [samplePages, range_succ]
  have before : (withTracking (fun _ => 0) true true).insertAll (samplePages n) = some _ :=
    ok.insertAll_eq
  have stopped : (recover (fun _ => 0) true true (samplePages n)).ticks = false :=
    decide_eq_false fun (room : (samplePages n).length + 1 < 2 ^ 64) => by omega
  rw [insertAll] at before ⊢
  rw [last, foldlM_append, before, Option.bind_eq_bind, Option.bind_some, foldlM_cons,
    insert, stopped]
  rfl

/-- Recovery takes a page that is marked independent, which no admission does; of two idle clocks of
one block it keeps the first, admissions the later; and no admission follows the last position. -/
theorem independent_page_recovers_only :
    (withTracking (fun _ => 0) true true).insertAll [⟨true, ⟨sampleBlock 0 'a', .page 0⟩, 10, 5⟩] =
      none ∧
    (recover (fun _ => 0) true true [⟨true, ⟨sampleBlock 0 'a', .page 0⟩, 10, 5⟩]).queue.get? 0 =
      some ⟨sampleBlock 0 'a', .page 0⟩ ∧
    (let units : List RecoveredUnit :=
      [⟨true, ⟨sampleBlock 0 'a', .whole⟩, 1, 2⟩, ⟨true, ⟨sampleBlock 0 'a', .exactRange⟩, 1, 5⟩]
    ((withTracking (fun _ => 0) true true).insertAll units).map
    (fun s => (s.activity (sampleBlock 0 'a')).map (·.access)) =
        some (some 5) ∧
      ((recover (fun _ => 0) true true units).activity (sampleBlock 0 'a')).map
      (·.access) = some 2) ∧
    ∃ units : List RecoveredUnit, (units.map (·.unit)).Nodup ∧
      (withTracking (fun _ => 0) true true).insertAll units = none ∧
      (recover (fun _ => 0) true true units).clock = 2 ^ 64 := by
  refine ⟨by decide +kernel, by decide +kernel, by decide +kernel, ?_⟩
  obtain ⟨n, full⟩ : ∃ n, n + 1 = 2 ^ 64 := ⟨2 ^ 64 - 1, rfl⟩
  refine ⟨samplePages (n + 1), nodup_samplePages _, insertAll_samplePages full, ?_⟩
  change (samplePages (n + 1)).length = _
  rw [samplePages, length_map, length_range, full]

end Lru

end Talon.Worker
