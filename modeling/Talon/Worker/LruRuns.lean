import Talon.Lib.Transition
import Talon.Worker.LruSelection

/-!
# Runs of the eviction policy

Any sequence of the policy's operations, from an empty policy with any tracking flags.
-/

set_option autoImplicit false

namespace Talon.Worker

open Talon.Core Relation

namespace Lru

inductive Op
  | insert (unit : CacheUnit) (bytes : Nat) (independent : Bool) (now : Nat)
  | touch (unit : CacheUnit) (now : Nat)
  | pin (unit : CacheUnit)
  | unpin (unit : CacheUnit)
  | remove (unit : CacheUnit)
  | removeBlock (block : BlockId)
  | evictSuperseded (keep : BlockId)
  | supersededCandidates (keep : BlockId)
  | blockCandidates (block : BlockId)
  | candidatesToFit (capacity : Nat) (excluded : List CacheUnit) (scanBudget deleteBudget : Nat)
  | evictToFit (capacity : Nat)
  | ageCandidates (cursor : Nat × Nat) (now age scanBudget deleteBudget : Nat)
      (considerVerified : Bool)
  | staleVerified (object : ObjectId) (now : Nat)
  | nextOwnershipBlock (lo hi limit : Nat)

def apply (s : Lru) : Op → Option Lru
  | .insert unit bytes independent now => s.insert unit bytes independent now
  | .touch unit now => some (s.touch unit now)
  | .pin unit => (s.pin unit).map Prod.snd
  | .unpin unit => s.unpin unit
  | .remove unit => (s.remove unit).map Prod.snd
  | .removeBlock block => s.removeBlock block
  | .evictSuperseded keep => (s.evictSuperseded keep).map Prod.snd
  | .supersededCandidates keep => (s.supersededCandidates keep).map Prod.snd
  | .blockCandidates block => (s.blockCandidates block).map Prod.snd
  | .candidatesToFit capacity excluded scanBudget deleteBudget =>
    (s.candidatesToFitBounded capacity excluded scanBudget deleteBudget).map Prod.snd
  | .evictToFit capacity => (s.evictToFit capacity).map Prod.snd
  | .ageCandidates cursor now age scanBudget deleteBudget considerVerified =>
    (s.ageCandidates cursor now age scanBudget deleteBudget considerVerified).map fun _ => s
  | .staleVerified object now => some (s.staleVerified object now)
  | .nextOwnershipBlock lo hi limit => (s.nextOwnershipBlock lo hi limit).map
      fun result => result.2.2

def positions (s : Lru) : Op → Nat
  | .insert .. => 1
  | .supersededCandidates keep => (s.supersededUnits keep).length
  | .blockCandidates block => (s.policyUnits block).length
  | .candidatesToFit .. => 2 * s.queue.entries.length
  | .evictToFit _ => 2 * s.queue.entries.length
  | _ => 0

/-- Pages are admitted as versioned units, the tracked bytes and each unit's pins fit their
counters, and an ownership cursor does not start after its end. -/
def Proper (s : Lru) : Op → Prop
  | .insert unit bytes independent _ =>
    (unit.kind.isPage = true → independent = false) ∧
      bytes + (s.units.erase unit).total (fun _ e => e.bytes) < 2 ^ 64
  | .pin unit => ((s.units.get? unit).elim 0 fun e => e.pins) + 1 < 2 ^ 32
  | .nextOwnershipBlock lo hi _ => lo ≤ hi
  | _ => True

/-- A proper operation while the clock has room for the positions it takes. -/
def Allowed (s : Lru) (op : Op) : Prop := s.Proper op ∧ s.clock + s.positions op < 2 ^ 64

instance (s : Lru) (op : Op) : Decidable (s.Proper op) :=
  match op with
  | .insert unit bytes independent _ =>
    inferInstanceAs (Decidable ((unit.kind.isPage = true → independent = false) ∧
      bytes + (s.units.erase unit).total (fun _ e => e.bytes) < 2 ^ 64))
  | .pin unit => inferInstanceAs
      (Decidable (((s.units.get? unit).elim 0 fun e => e.pins) + 1 < 2 ^ 32))
  | .nextOwnershipBlock lo hi _ => inferInstanceAs (Decidable (lo ≤ hi))
  | .touch .. | .unpin _ | .remove _ | .removeBlock _ | .evictSuperseded _ | .supersededCandidates _
  | .blockCandidates _ | .candidatesToFit .. | .evictToFit _ | .ageCandidates
      .. | .staleVerified .. =>
    isTrue trivial

instance (s : Lru) (op : Op) : Decidable (s.Allowed op) :=
  inferInstanceAs (Decidable (s.Proper op ∧ s.clock + s.positions op < 2 ^ 64))

def AllowedStep (s t : Lru) : Prop := ∃ op, s.Allowed op ∧ s.apply op = some t

variable {s t : Lru}

/-- No allowed operation fails, and each keeps the policy's structures in step. -/
theorem Ok.apply (ok : s.Ok) {op : Op} (allowed : s.Allowed op) :
    ∃ t, s.apply op = some t ∧ t.Ok := by
  obtain ⟨proper, room⟩ := allowed
  cases op with
  | insert =>
    exact ⟨_, ok.insert (ticks_iff.mpr room) proper.1 proper.2⟩
  | touch u now => exact ⟨_, rfl, ok.touch u now⟩
  | pin u =>
    change ∃ t, (s.pin u).map Prod.snd = some t ∧ _
    cases done : s.pin u with
    | none =>
      unfold Lru.pin at done
      change ((s.units.get? u).elim 0 fun e => e.pins) + 1 < 2 ^ 32 at proper
      split at done
      · cases done
      · rename_i e found
        rw [found, Option.elim_some] at proper
        rw [if_pos proper] at done
        cases done
    | some result =>
      obtain ⟨_, t⟩ := result
      exact ⟨t, rfl, ok.pin done⟩
  | unpin u => exact ok.unpin u
  | remove u =>
    obtain ⟨t, done, tok, _⟩ := ok.remove u
    exact ⟨t, by rw [Lru.apply, done]; rfl, tok⟩
  | removeBlock =>
    exact ok.removeAll _
  | evictSuperseded keep =>
    obtain ⟨out, t, done, tok⟩ := ok.evictSuperseded keep
    exact ⟨t, by rw [Lru.apply, done]; rfl, tok⟩
  | supersededCandidates keep =>
    change ∃ t, (s.supersededCandidates keep).map Prod.snd = some t ∧ _
    unfold Lru.supersededCandidates
    split
    · exact ⟨s, rfl, ok⟩
    · obtain ⟨cs, t, done, tok⟩ := ok.snapshots (known_supersededUnits keep) room
      exact ⟨t, by rw [done]; rfl, tok⟩
  | blockCandidates b =>
    obtain ⟨cs, t, done, tok⟩ := ok.snapshots (fun _ (mem : _ ∈ s.policyUnits b) =>
      (List.mem_filter.mp mem).2) room
    exact ⟨t, by rw [Lru.apply, Lru.blockCandidates, done]; rfl, tok⟩
  | candidatesToFit capacity excluded scanBudget deleteBudget =>
    obtain ⟨_, t, done, tok⟩ := ok.candidatesToFitBounded capacity excluded scanBudget
      deleteBudget room
    exact ⟨t, by rw [Lru.apply, done]; rfl, tok⟩
  | evictToFit capacity =>
    obtain ⟨_, t, done, tok⟩ := ok.evictToFit capacity room
    exact ⟨t, by rw [Lru.apply, done]; rfl, tok⟩
  | ageCandidates cursor now age scanBudget deleteBudget considerVerified =>
    obtain ⟨result, done⟩ := ok.ageCandidates cursor now age scanBudget deleteBudget
      considerVerified
    exact ⟨s, by rw [Lru.apply, done]; rfl, ok⟩
  | staleVerified o now => exact ⟨_, rfl, ok.staleVerified o now⟩
  | nextOwnershipBlock _ _ limit =>
    obtain ⟨_, t, done, tok⟩ := ok.nextOwnershipBlock limit proper
    exact ⟨t.2, by rw [Lru.apply, done]; rfl, tok⟩

theorem Ok.allowedStep (step : AllowedStep s t) (ok : s.Ok) : t.Ok := by
  obtain ⟨_, allowed, done⟩ := step
  obtain ⟨_, done', tok⟩ := ok.apply allowed
  rw [done] at done'
  cases done'
  exact tok

/-- Entries, queues and totals are in step after every run, and no allowed operation fails. -/
theorem in_step_after_every_allowed_run (digest : BlockId → Nat) (trackChecks trackBlocks : Bool)
    (run : ReflTransGen AllowedStep (withTracking digest trackChecks trackBlocks) s) :
    s.Ok ∧ ∀ op, s.Allowed op → ∃ t, s.apply op = some t ∧ t.Ok := by
  have ok : s.Ok := Transition.kept_by_run (fun _ _ step ok => ok.allowedStep step)
    (ok_withTracking digest trackChecks trackBlocks) run
  exact ⟨ok, fun op allowed => ok.apply allowed⟩

/-- Two pages and a whole block of one version, an exact range that becomes larger, a new version
that supersedes, and walks over what is left. -/
def sampleOps : List Op :=
  [.insert ⟨sampleBlock 0 'a', .page 0⟩ 4 false 1, .insert ⟨sampleBlock 0 'a', .page 1⟩ 4 false 2,
    .insert ⟨sampleBlock 0 'b', .exactRange⟩ 3 false 3,
    .insert ⟨sampleBlock 0 'b', .exactRange⟩ 5 false 4,
    .pin ⟨sampleBlock 0 'a', .page 1⟩, .nextOwnershipBlock 0 4 1, .candidatesToFit 6 [] 10 10,
    .insert ⟨sampleBlock 0 'c', .whole⟩ 7 false 5, .evictSuperseded (sampleBlock 0 'c'),
    .unpin ⟨sampleBlock 0 'a', .page 1⟩, .insert ⟨sampleBlock 0 'c', .whole⟩ 7 true 6,
    .evictToFit 5, .removeBlock (sampleBlock 0 'a')]

theorem in_step_after_sampleOps :
    ∃ s, Transition.performAll Allowed apply sampleOps
      (withTracking (fun _ => 0) true true) = some s ∧
      s.Ok ∧ ∀ op, s.Allowed op → ∃ t, s.apply op = some t ∧ t.Ok := by
  have goes : (Transition.performAll Allowed apply sampleOps
      (withTracking (fun _ => 0) true true)).isSome = true := by
    decide +kernel
  obtain ⟨s, done⟩ := Option.isSome_iff_exists.mp goes
  have run := Transition.run_of_performAll Allowed apply done
  exact ⟨s, done, in_step_after_every_allowed_run (fun _ => 0) true true run⟩

section Limits

def sampleUnit : CacheUnit := ⟨sampleBlock 0 'a', .whole⟩

theorem pin_runs {n : Nat} (fits : n < 2 ^ 32) : ∃ s e, Relation.ReflTransGen AllowedStep
    (withTracking (fun _ => 0) true true) s ∧ s.clock = 1 ∧ s.units.get? sampleUnit = some e ∧
      e.pins = n := by
  induction n with
  | zero =>
    exact ⟨_, _, .single ⟨.insert sampleUnit 1 true 0, by decide +kernel, rfl⟩, rfl, rfl, rfl⟩
  | succ n ih =>
    obtain ⟨s, e, run, clock, found, rfl⟩ := ih (by omega)
    have allowed : s.Allowed (.pin sampleUnit) := by
      refine ⟨?_, (by omega : s.clock + 0 < 2 ^ 64)⟩
      change (s.units.get? sampleUnit).elim 0 _ + 1 < 2 ^ 32
      rw [found]
      exact fits
    have done : s.apply (.pin sampleUnit) = some
        { s.updateBlock sampleUnit.block fun a => { a with pins := a.pins + 1 } with
          units := s.units.insert sampleUnit { e with pins := e.pins + 1 } } := by
      rw [apply, pin, found]
      exact congrArg (Option.map Prod.snd) (if_pos fits)
    exact ⟨_, _, run.tail ⟨_, allowed, done⟩, clock, Table.get?_insert_self, rfl⟩

/-- The admission of no bytes takes a position. -/
theorem clock_runs {n : Nat} (fits : n < 2 ^ 64) : ∃ s, Relation.ReflTransGen AllowedStep
    (withTracking (fun _ => 0) true true) s ∧ s.clock = n ∧ s.byteCount = 0 := by
  induction n with
  | zero => exact ⟨_, .refl, rfl, rfl⟩
  | succ n ih =>
    obtain ⟨s, run, rfl, empty⟩ := ih (by omega)
    have ok : s.Ok := Transition.kept_by_run (fun _ _ step ok => ok.allowedStep step)
      (ok_withTracking _ true true) run
    have others : (s.units.erase sampleUnit).total (fun _ e => e.bytes) = 0 := by
      rw [byteCount, Table.total_split sampleUnit] at empty
      omega
    have small : 0 + (s.units.erase sampleUnit).total (fun _ e => e.bytes) < 2 ^ 64 := by
      rw [others]
      decide
    have inserted : s.insert sampleUnit 0 true 0 = some _ ∧ _ :=
      ok.insert (ticks_iff.mpr fits) nofun small
    refine ⟨_, run.tail ⟨.insert sampleUnit 0 true 0, ⟨⟨nofun, small⟩, fits⟩, inserted.1⟩, rfl, ?_⟩
    change (s.units.insert _ _).total _ = 0
    rw [Table.total_insert, bytes_admitted, others]

/-- Beyond the limits: the counter of bytes saturates at the second admission; an admission of a
page as an independent unit, a pin too many, an inverted cursor and an exhausted clock fail. -/
theorem limits_broken :
    (((withTracking (fun _ => 0) true true).apply (.insert sampleUnit (2 ^ 64 - 1) true 0)).bind
        fun s => s.apply (.insert ⟨sampleBlock 0 'b', .whole⟩ 1 true 0)).map
      (fun s => (s.totalBytes.value, s.byteCount)) = some (2 ^ 64 - 1, 2 ^ 64) ∧
    ((withTracking (fun _ => 0) true true).apply
      (.insert ⟨sampleBlock 0 'a', .page 0⟩ 1 true 0)).isNone = true ∧
    (∃ s, Relation.ReflTransGen AllowedStep (withTracking (fun _ => 0) true true) s ∧
      (s.apply (.pin sampleUnit)).isNone = true) ∧
    ((withTracking (fun _ => 0) true true).apply (.nextOwnershipBlock 1 0 0)).isNone = true ∧
    ∃ s, Relation.ReflTransGen AllowedStep (withTracking (fun _ => 0) true true) s ∧
      (s.apply (.insert sampleUnit 1 true 0)).isNone = true := by
  refine ⟨by decide +kernel, by decide +kernel, ?_, by decide +kernel, ?_⟩
  · obtain ⟨s, e, run, -, found, pins⟩ := pin_runs (n := 2 ^ 32 - 1) (by decide)
    refine ⟨s, run, ?_⟩
    rw [apply, pin, found]
    dsimp only
    rw [pins]
    rfl
  · obtain ⟨s, run, clock, -⟩ := clock_runs (n := 2 ^ 64 - 1) (by decide)
    refine ⟨s, run, ?_⟩
    rw [apply, insert, ticks, clock]
    rfl

end Limits

end Lru

end Talon.Worker
