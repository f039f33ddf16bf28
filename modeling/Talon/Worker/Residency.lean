import Talon.Core.Key
import Talon.Lib.Gate
import Talon.Lib.Transition

/-!
# Residency of whole blocks

The data file of a block, its entry in the index and its unit in the eviction policy, under
commits, evictions and reads that find the file missing.  Commits and evictions change the three
under the block's gate; a read that hits the index and finds no file removes the index entry and
the unit without it.
-/

set_option autoImplicit false

namespace Talon.Worker

open Talon.Core Relation Gate Option
open Gate.Inv (setTask release move)

structure WholeEntry where
  len : Nat
  charged : Nat
deriving DecidableEq

structure PolicyUnit where
  bytes : Nat
  revision : Nat
  pins : Nat
  referenced : Bool
deriving DecidableEq

structure Residency where
  file : Option Nat
  index : Option WholeEntry
  lru : Option PolicyUnit
deriving DecidableEq

namespace Residency

def commitAllocated (r : Residency) (len allocated : Nat) : Residency :=
  { r with index := some ⟨len, allocated⟩ }

/-- A unit that is already tracked keeps its revision and pins. -/
def insertUnit (r : Residency) (bytes position : Nat) : Residency :=
  { r with lru := some (match r.lru with
      | some u => { u with bytes := bytes, referenced := true }
      | none => ⟨bytes, position, 0, false⟩) }

def updateUnit (r : Residency) (f : PolicyUnit → PolicyUnit) : Residency :=
  { r with lru := r.lru.map f }

def touch (r : Residency) : Residency := r.updateUnit fun u => { u with referenced := true }

def pin (r : Residency) : Residency := r.updateUnit fun u => { u with pins := u.pins + 1 }

def unpin (r : Residency) : Residency := r.updateUnit fun u => { u with pins := u.pins - 1 }

/-- A candidate is taken: its reference is spent and its revision is new. -/
def snapshot (r : Residency) (revision : Nat) : Residency :=
  r.updateUnit fun u => { u with revision := revision, referenced := false }

def candidateIsCurrent (r : Residency) (revision : Nat) : Bool :=
  match r.lru with
  | some u => u.pins == 0 && u.revision == revision && !u.referenced
  | none => false

def removeIndex (r : Residency) : Residency := { r with index := none }

def removeUnit (r : Residency) : Residency := { r with lru := none }

def setFile (r : Residency) (file : Option Nat) : Residency := { r with file := file }

/-- The file exists iff the index holds the block iff the policy holds its unit, and the index and
the policy charge the same bytes for it. -/
structure Agrees (r : Residency) : Prop where
  indexed : r.file.isSome ↔ r.index.isSome
  tracked : r.index.isSome ↔ r.lru.isSome
  charges : ∀ entry unit, r.index = some entry → r.lru = some unit → entry.charged = unit.bytes

end Residency

inductive CommitPoint
  | lock
  | put
  | index (allocated : Nat)
  | lru (allocated : Nat)
  | pin
  | unpin
deriving DecidableEq

inductive EvictPoint
  | lock
  | check
  | index
  | lru
deriving DecidableEq

inductive BlockReadPoint
  | lookup
  | read
  | forgetIndex
  | forgetLru
deriving DecidableEq

inductive BlockTask
  | commit (block : BlockId) (len : Nat) (point : CommitPoint)
  /-- The candidate is the block's unit at a revision. -/
  | evict (block : BlockId) (revision : Nat) (point : EvictPoint)
  | read (block : BlockId) (point : BlockReadPoint)
deriving DecidableEq

def BlockTask.holds : BlockTask → Option BlockId
  | .commit _ _ .lock | .commit _ _ .unpin => none
  | .commit block _ _ => some block
  | .evict _ _ .lock => none
  | .evict block _ _ => some block
  | .read _ _ => none

structure Blocks extends Gate.Guarded BlockId Nat BlockTask Residency where
  clock : Nat

namespace Blocks

def withTask (s : Blocks) (id : Nat) (t : Option BlockTask) : Blocks :=
  { s with toGuarded := s.toGuarded.setTask id t }

def setSlot (s : Blocks) (block : BlockId) (r : Residency) : Blocks :=
  { s with toGuarded := s.toGuarded.setSlot block r }

def lock (s : Blocks) (block : BlockId) (id : Nat) : Blocks :=
  { s with toGuarded := s.toGuarded.setOwner block (some id) }

def unlock (s : Blocks) (block : BlockId) : Blocks :=
  { s with toGuarded := s.toGuarded.setOwner block none }

def tick (s : Blocks) : Blocks := { s with clock := s.clock + 1 }

def Quiet (s : Blocks) : Prop := ∀ id, s.tasks id = none

end Blocks

/-- One step of a commit, an eviction or a read.  `Cleanup` restricts the moments at which a read
removes what it believes stale; `Failed` relates the data file before and after a store operation
that returns an error. -/
inductive BlockStep (Cleanup : Residency → Prop) (Failed : Option Nat → Option Nat → Prop) :
    Blocks → Blocks → Prop
  | beginCommit {s id} (block : BlockId) (len : Nat) (free : s.tasks id = none) :
      BlockStep Cleanup Failed s (s.withTask id (some (.commit block len .lock)))
  | commitLock {s id block len}
      (task : s.tasks id = some (.commit block len .lock)) (unlocked : s.owner block = none) :
      BlockStep Cleanup Failed s ((s.withTask id (some (.commit block len .put))).lock block id)
  /-- The block is paged or resident in the small store: nothing of its whole form changes. -/
  | commitAbandon {s id block len} (task : s.tasks id = some (.commit block len .put)) :
      BlockStep Cleanup Failed s
        (((s.setSlot block (s.slots block)).withTask id none).unlock block)
  | commitPut {s id block len} (allocated : Nat)
      (task : s.tasks id = some (.commit block len .put)) :
      BlockStep Cleanup Failed s
        ((s.setSlot block ((s.slots block).setFile (some allocated))).withTask id
          (some (.commit block len (.index allocated))))
  | commitPutFailed {s id block len} (file : Option Nat)
      (task : s.tasks id = some (.commit block len .put))
      (failed : Failed (s.slots block).file file) :
      BlockStep Cleanup Failed s
        (((s.setSlot block ((s.slots block).setFile file)).withTask id none).unlock block)
  | commitIndex {s id block len allocated}
      (task : s.tasks id = some (.commit block len (.index allocated))) :
      BlockStep Cleanup Failed s
        ((s.setSlot block ((s.slots block).commitAllocated len allocated)).withTask id
          (some (.commit block len (.lru allocated))))
  | commitLru {s id block len allocated}
      (task : s.tasks id = some (.commit block len (.lru allocated))) :
      BlockStep Cleanup Failed s
        ((s.setSlot block ((s.slots block).insertUnit allocated s.clock)).withTask id
          (some (.commit block len .pin))).tick
  /-- The unit is pinned before the gate is released. -/
  | commitPin {s id block len} (task : s.tasks id = some (.commit block len .pin)) :
      BlockStep Cleanup Failed s
        (((s.setSlot block (s.slots block).pin).withTask id
          (some (.commit block len .unpin))).unlock
          block)
  | commitUnpin {s id block len} (task : s.tasks id = some (.commit block len .unpin)) :
      BlockStep Cleanup Failed s ((s.setSlot block (s.slots block).unpin).withTask id none)
  /-- A tracked unit is chosen for capacity, as superseded or by an explicit invalidation. -/
  | select {s id block} (free : s.tasks id = none) (tracked : (s.slots block).lru.isSome) :
      BlockStep Cleanup Failed s
        ((s.setSlot block ((s.slots block).snapshot s.clock)).withTask id
          (some (.evict block s.clock .lock))).tick
  | evictLock {s id block revision}
      (task : s.tasks id = some (.evict block revision .lock)) (unlocked : s.owner block = none) :
      BlockStep Cleanup Failed s
      ((s.withTask id (some (.evict block revision .check))).lock block id)
  /-- The target is met, the candidate is not current, or pages have been materialised. -/
  | evictLeave {s id block revision} (task : s.tasks id = some (.evict block revision .check)) :
      BlockStep Cleanup Failed s
        (((s.setSlot block (s.slots block)).withTask id none).unlock block)
  | evictDelete {s id block revision} (task : s.tasks id = some (.evict block revision .check))
      (current : (s.slots block).candidateIsCurrent revision = true) :
      BlockStep Cleanup Failed s
        ((s.setSlot block ((s.slots block).setFile none)).withTask id
          (some (.evict block revision .index)))
  | evictDeleteFailed {s id block revision}
      (file : Option Nat) (task : s.tasks id = some (.evict block revision .check))
      (current : (s.slots block).candidateIsCurrent revision = true)
      (failed : Failed (s.slots block).file file) :
      BlockStep Cleanup Failed s
        (((s.setSlot block ((s.slots block).setFile file)).withTask id none).unlock block)
  | evictIndex {s id block revision} (task : s.tasks id = some (.evict block revision .index)) :
      BlockStep Cleanup Failed s
        ((s.setSlot block (s.slots block).removeIndex).withTask id
          (some (.evict block revision .lru)))
  | evictLru {s id block revision} (task : s.tasks id = some (.evict block revision .lru)) :
      BlockStep Cleanup Failed s
        (((s.setSlot block (s.slots block).removeUnit).withTask id none).unlock block)
  | beginRead {s id} (block : BlockId) (free : s.tasks id = none) :
      BlockStep Cleanup Failed s (s.withTask id (some (.read block .lookup)))
  | readHit {s id block}
      (task : s.tasks id = some (.read block .lookup)) (hit : (s.slots block).index.isSome) :
      BlockStep Cleanup Failed s
        ((s.setSlot block (s.slots block).touch).withTask id (some (.read block .read)))
  /-- A miss, a hit in memory, bytes read from the file, or an error. -/
  | readEnd {s id block point}
      (task : s.tasks id = some (.read block point)) (early : point = .lookup ∨ point = .read) :
      BlockStep Cleanup Failed s (s.withTask id none)
  | readMissing {s id block}
      (task : s.tasks id = some (.read block .read)) (missing : (s.slots block).file = none) :
      BlockStep Cleanup Failed s (s.withTask id (some (.read block .forgetIndex)))
  | forgetIndex {s id block}
      (task : s.tasks id = some (.read block .forgetIndex)) (cleanup : Cleanup (s.slots block)) :
      BlockStep Cleanup Failed s
        ((s.setSlot block (s.slots block).removeIndex).withTask id (some (.read block .forgetLru)))
  | forgetLru {s id block}
      (task : s.tasks id = some (.read block .forgetLru)) (cleanup : Cleanup (s.slots block)) :
      BlockStep Cleanup Failed s ((s.setSlot block (s.slots block).removeUnit).withTask id none)

/-! ## What the holder of a gate has done -/

variable {r : Residency}

namespace Residency

structure Settled (r : Residency) : Prop where
  index : r.index.map WholeEntry.charged = r.file
  lru : r.lru.map PolicyUnit.bytes = r.file

theorem Settled.agrees (settled : r.Settled) : r.Agrees where
  indexed := by rw [← settled.index, Option.isSome_map]
  tracked := by
    have charges := settled.index.trans settled.lru.symm
    rw [← isSome_map, charges, isSome_map]
  charges entry unit indexed tracked := by
    have charges := settled.index.trans settled.lru.symm
    rw [indexed, tracked] at charges
    exact some.inj charges

def Missing (r : Residency) : Prop := r.file = none

/-- A change that the holder of the gate does not notice: the bytes stay, or what it drops has no
file. -/
structure Quietly (r r' : Residency) : Prop where
  file : r'.file = r.file
  index : r'.index.map WholeEntry.charged = r.index.map WholeEntry.charged ∨
    r.file = none ∧ r'.index = none
  lru : r'.lru.map PolicyUnit.bytes = r.lru.map PolicyUnit.bytes ∨ r.file = none ∧ r'.lru = none

theorem quietly_updateUnit (r : Residency) {f : PolicyUnit → PolicyUnit}
    (bytes : ∀ u, (f u).bytes = u.bytes) : r.Quietly (r.updateUnit f) where
  file := rfl
  index := .inl rfl
  lru := by
    refine .inl ?_
    cases found : r.lru with
    | none => simp [updateUnit, found]
    | some => simp [updateUnit, found, bytes]

theorem quietly_removeIndex (missing : r.Missing) : r.Quietly r.removeIndex :=
  ⟨rfl, .inr ⟨missing, rfl⟩, .inl rfl⟩

theorem quietly_removeUnit (missing : r.Missing) : r.Quietly r.removeUnit :=
  ⟨rfl, .inl rfl, .inr ⟨missing, rfl⟩⟩

theorem Settled.quietly {r' : Residency} (settled : r.Settled) (quiet : r.Quietly r') :
    r'.Settled where
  index := by
    rw [quiet.file]
    obtain same | ⟨missing, gone⟩ := quiet.index
    · exact same.trans settled.index
    · rw [gone, missing, map_none]
  lru := by
    rw [quiet.file]
    obtain same | ⟨missing, gone⟩ := quiet.lru
    · exact same.trans settled.lru
    · rw [gone, missing, map_none]

end Residency

def BlockTask.Stage (t : BlockTask) (r : Residency) : Prop :=
  match t with
  | .commit _ _ (.index allocated) => r.file = some allocated
  | .commit _ _ (.lru allocated) =>
    r.file = some allocated ∧ r.index.map WholeEntry.charged = some allocated
  | .evict _ _ .index => r.file = none
  | .evict _ _ .lru => r.file = none ∧ r.index = none
  | _ => r.Settled

theorem BlockTask.Stage.quietly {t : BlockTask} {r' : Residency} (stage : t.Stage r)
    (quiet : r.Quietly r') : t.Stage r' := by
  match t with
  | .commit _ _ (.index allocated) => exact quiet.file.trans stage
  | .commit _ _ (.lru allocated) =>
    refine ⟨quiet.file.trans stage.1, ?_⟩
    obtain same | ⟨missing, _⟩ := quiet.index
    · exact same.trans stage.2
    · rw [stage.1] at missing
      cases missing
  | .evict _ _ .index => exact quiet.file.trans stage
  | .evict _ _ .lru =>
    refine ⟨quiet.file.trans stage.1, ?_⟩
    obtain same | ⟨_, gone⟩ := quiet.index
    · rw [stage.2] at same
      exact map_eq_none_iff.mp same
    · exact gone
  | .commit _ _ .lock | .commit _ _ .put | .commit _ _ .pin | .commit _ _ .unpin
  | .evict _ _ .lock | .evict _ _ .check | .read _ _ =>
    exact Residency.Settled.quietly stage quiet

def blockDiscipline : Gate.Discipline BlockId BlockTask Residency where
  holds := BlockTask.holds
  Stage := BlockTask.Stage
  Settled := Residency.Settled

/-- Every gate's holder is at a point that explains the block behind it. -/
def Blocks.Ok (s : Blocks) : Prop := Gate.Inv blockDiscipline s.toGuarded

/-! ## Steps and runs -/

section Steps

variable {s : Blocks} {id : Nat} {block : BlockId} {t : BlockTask} {next : Option BlockTask}
  {r : Residency}

theorem Blocks.idle_of_task (task : s.tasks id = some t) (nothing : t.holds = none) :
    Gate.Idle blockDiscipline (s.tasks id) :=
  task ▸ idle_some nothing

theorem Blocks.idle_of_free (free : s.tasks id = none) : Gate.Idle blockDiscipline (s.tasks id) :=
  free ▸ idle_none

theorem Blocks.Ok.outside (ok : s.Ok) (quiet : (s.slots block).Quietly r)
    (before : Gate.Idle blockDiscipline (s.tasks id)) (after : Gate.Idle blockDiscipline next) :
    ((s.setSlot block r).withTask id next).Ok := by
  have changed := Gate.Inv.setSlot ok (fun _ stage => BlockTask.Stage.quietly stage quiet)
      fun settled => Residency.Settled.quietly settled quiet
  exact changed.setTask before after

end Steps

/-- Every step of a task keeps what it and the others rely on. -/
theorem BlockStep.keeps_ok {s s' : Blocks} (step : BlockStep Residency.Missing (· = ·) s s')
    (ok : s.Ok) : s'.Ok := by
  cases step with
  | beginCommit _ _ free | beginRead _ free =>
    exact setTask ok (Blocks.idle_of_free free) (idle_some rfl)
  | commitLock task unlocked | evictLock task unlocked =>
    exact Gate.Inv.lock ok unlocked (Blocks.idle_of_task task rfl) rfl fun settled => settled
  | commitAbandon task | evictLeave task =>
    exact release ok task rfl idle_none (Gate.Inv.stage ok task rfl)
  | commitPut _ task | evictDelete task => exact move ok task rfl rfl rfl
  | commitPutFailed _ task failed | evictDeleteFailed _ task _ failed =>
    subst failed
    exact release ok task rfl idle_none (Gate.Inv.stage ok task rfl)
  | @commitIndex _ block _ allocated task =>
    have put := Gate.Inv.stage ok task rfl
    exact move ok task rfl rfl ⟨put, rfl⟩
  | @commitLru _ block _ allocated task =>
    obtain ⟨put, indexed⟩ := Gate.Inv.stage ok task rfl
    have settled : ((s.slots block).insertUnit allocated s.clock).Settled := by
      refine ⟨indexed.trans put.symm, ?_⟩
      rw [Residency.insertUnit, put]
      cases (s.slots block).lru <;> rfl
    exact move ok task rfl rfl settled
  | @commitPin _ block _ task =>
    have settled : (s.slots block).Settled := Gate.Inv.stage ok task rfl
    exact release ok task rfl (idle_some rfl)
      (settled.quietly (Residency.quietly_updateUnit _ fun _ => rfl))
  | commitUnpin task =>
    exact ok.outside (Residency.quietly_updateUnit _ fun _ => rfl) (Blocks.idle_of_task task rfl)
      idle_none
  | select free =>
    exact ok.outside (Residency.quietly_updateUnit _ fun _ => rfl) (Blocks.idle_of_free free)
      (idle_some rfl)
  | @evictIndex _ block _ task =>
    have deleted := Gate.Inv.stage ok task rfl
    exact move ok task rfl rfl ⟨deleted, rfl⟩
  | @evictLru _ block _ task =>
    obtain ⟨deleted, removed⟩ := Gate.Inv.stage ok task rfl
    have settled : (s.slots block).removeUnit.Settled :=
      ⟨(congrArg _ removed).trans deleted.symm, deleted.symm⟩
    exact release ok task rfl idle_none settled
  | readHit task =>
    exact ok.outside (Residency.quietly_updateUnit _ fun _ => rfl) (Blocks.idle_of_task task rfl)
      (idle_some rfl)
  | readEnd task =>
    exact setTask ok (Blocks.idle_of_task task rfl) idle_none
  | readMissing task =>
    exact setTask ok (Blocks.idle_of_task task rfl) (idle_some rfl)
  | forgetIndex task cleanup =>
    exact ok.outside (Residency.quietly_removeIndex cleanup) (Blocks.idle_of_task task rfl)
      (idle_some rfl)
  | forgetLru task cleanup =>
    exact ok.outside (Residency.quietly_removeUnit cleanup) (Blocks.idle_of_task task rfl)
      idle_none

/-- A worker that has just recovered: nothing runs and every block is settled. -/
structure Blocks.Recovered (s : Blocks) : Prop where
  quiet : s.Quiet
  unlocked : ∀ block, s.owner block = none
  settled : ∀ block, (s.slots block).Settled

theorem Blocks.Recovered.ok {s : Blocks} (recovered : s.Recovered) : s.Ok where
  holders id t block found _ := by
    rw [recovered.quiet id] at found
    cases found
  owned block id own := by
    rw [recovered.unlocked block] at own
    cases own
  free block _ := recovered.settled block

/-- Residency agreement while a read removes only what has no file and a failed store operation
leaves the file as it was. -/
theorem agrees_of_run {s t : Blocks} (recovered : s.Recovered)
    (run : ReflTransGen (BlockStep Residency.Missing (· = ·)) s t) (quiet : t.Quiet)
    (block : BlockId) : (t.slots block).Agrees := by
  have ok : t.Ok := Transition.kept_by_run (fun _ _ step => step.keeps_ok) recovered.ok run
  have settled := Gate.Inv.settled ok quiet block
  exact settled.agrees

/-! ## A cleanup that comes too late -/

def cachedBlock : BlockId := sampleBlock 0 'v'

def sampleBlocks : Blocks where
  slots block := if block = cachedBlock then ⟨some 512, some ⟨5, 512⟩, some ⟨512, 0, 0, false⟩⟩
    else ⟨none, none, none⟩
  owner _ := none
  tasks _ := none
  clock := 1

theorem sampleBlocks_recovered : sampleBlocks.Recovered where
  quiet _ := rfl
  unlocked _ := rfl
  settled block := by
    by_cases same : block = cachedBlock
    · subst same
      exact ⟨rfl, rfl⟩
    · simp only [sampleBlocks, if_neg same]
      exact ⟨rfl, rfl⟩

/-- A read hits the index, the block is evicted, the read finds no file, the block is committed
again, and only then the read removes the entry and the unit: the file stays uncharged. -/
theorem agrees_fails_after_late_cleanup :
    ∃ t : Blocks, sampleBlocks.Recovered ∧
      ReflTransGen (BlockStep (fun _ => True) (· = ·)) sampleBlocks t ∧ t.Quiet ∧
      (t.slots cachedBlock).file = some 512 ∧ (t.slots cachedBlock).index = none ∧
      (t.slots cachedBlock).lru = none ∧ ¬(t.slots cachedBlock).Agrees := by
  have hit := (ReflTransGen.refl.tail
    (@BlockStep.beginRead (fun _ => True) (· = ·) sampleBlocks 0 cachedBlock rfl)).tail
    (@BlockStep.readHit _ _ _ 0 cachedBlock rfl rfl)
  have evicted := ((((hit.tail
    (@BlockStep.select _ _ _ 1 cachedBlock rfl rfl)).tail
    (@BlockStep.evictLock _ _ _ 1 cachedBlock 1 rfl rfl)).tail
    (@BlockStep.evictDelete _ _ _ 1 cachedBlock 1 rfl rfl)).tail
    (@BlockStep.evictIndex _ _ _ 1 cachedBlock 1 rfl)).tail
    (@BlockStep.evictLru _ _ _ 1 cachedBlock 1 rfl)
  have missed := evicted.tail (@BlockStep.readMissing _ _ _ 0 cachedBlock rfl rfl)
  have committed := ((((((missed.tail
    (@BlockStep.beginCommit _ _ _ 1 cachedBlock 5 rfl)).tail
    (@BlockStep.commitLock _ _ _ 1 cachedBlock 5 rfl rfl)).tail
    (@BlockStep.commitPut _ _ _ 1 cachedBlock 5 512 rfl)).tail
    (@BlockStep.commitIndex _ _ _ 1 cachedBlock 5 512 rfl)).tail
    (@BlockStep.commitLru _ _ _ 1 cachedBlock 5 512 rfl)).tail
    (@BlockStep.commitPin _ _ _ 1 cachedBlock 5 rfl)).tail
    (@BlockStep.commitUnpin _ _ _ 1 cachedBlock 5 rfl)
  have forgotten := (committed.tail
    (@BlockStep.forgetIndex _ _ _ 0 cachedBlock rfl trivial)).tail
    (@BlockStep.forgetLru _ _ _ 0 cachedBlock rfl trivial)
  refine ⟨_, sampleBlocks_recovered, forgotten, ?_, rfl, rfl, rfl, fun agrees => ?_⟩
  · intro id
    match id with
    | 0 => rfl
    | 1 => rfl
    | _ + 2 => rfl
  · exact absurd (agrees.indexed.mp rfl) (by decide)

/-- The block is evicted and nothing is left of it. -/
theorem agrees_after_eviction :
    ∃ t : Blocks, ReflTransGen (BlockStep Residency.Missing (· = ·)) sampleBlocks t ∧
      (t.slots cachedBlock).file = none ∧ (t.slots cachedBlock).Agrees := by
  have evicted := ((((ReflTransGen.refl.tail
    (@BlockStep.select Residency.Missing (· = ·) sampleBlocks 0 cachedBlock rfl rfl)).tail
    (@BlockStep.evictLock _ _ _ 0 cachedBlock 1 rfl rfl)).tail
    (@BlockStep.evictDelete _ _ _ 0 cachedBlock 1 rfl rfl)).tail
    (@BlockStep.evictIndex _ _ _ 0 cachedBlock 1 rfl)).tail
    (@BlockStep.evictLru _ _ _ 0 cachedBlock 1 rfl)
  refine ⟨_, evicted, rfl, agrees_of_run sampleBlocks_recovered evicted ?_ cachedBlock⟩
  intro id
  match id with
  | 0 => rfl
  | _ + 1 => rfl

end Talon.Worker
