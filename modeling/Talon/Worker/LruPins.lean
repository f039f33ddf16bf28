import Talon.Worker.LruRuns

/-!
# Pins

A `LruPin` remembers its unit and gives one pin back when it is dropped.  It does not remember the
admission it was taken on: dropped after the unit was removed and admitted again, it takes a pin of
the new admission away.  As long as that does not happen, the pins of every admission are the guards
alive on it, and no selection returns a unit with a live guard.
-/

set_option autoImplicit false

namespace Talon.Worker

open Talon.Core Relation List Table
open Lru (sampleUnit)
open Function

variable {out : List CacheUnit} {u : CacheUnit}

namespace Lru

variable {s t r : Lru} {u : CacheUnit} {e : PolicyEntry}

def Unpinned (s : Lru) (cs : List EvictionCandidate) : Prop :=
  ∀ c ∈ cs, ∃ e, s.units.get? c.unit = some e ∧ e.pins = 0

/-- Every unit of the second policy is tracked by the first with as many pins. -/
def PinsOf (s t : Lru) : Prop := ∀ v e, t.units.get? v = some e → ∃ x, s.units.get? v = some x ∧
    x.pins = e.pins

namespace PinsOf

theorem of_units (same : t.units = s.units) : PinsOf s t := fun _ e held => ⟨e, same ▸ held, rfl⟩

theorem trans (first : PinsOf s t) (second : PinsOf t r) : PinsOf s r := by
  intro v e held
  obtain ⟨x, found, pins⟩ := second v e held
  obtain ⟨y, before, pins'⟩ := first v x found
  exact ⟨y, before, pins'.trans pins⟩

theorem unpinned {cs : List EvictionCandidate} (kept : PinsOf s t) (later : t.Unpinned cs) :
    s.Unpinned cs := by
  intro c mem
  obtain ⟨e, held, none_pinned⟩ := later c mem
  obtain ⟨x, before, pins⟩ := kept c.unit e held
  exact ⟨x, before, pins.trans none_pinned⟩

end PinsOf

section Kept

/-! What each function of the policy does to the units, whenever it returns. -/

theorem pinsOf_setUnit (e' : PolicyEntry) (found : s.units.get? u = some e)
    (pins : e'.pins = e.pins) : PinsOf s (s.setUnit u e') := by
  intro v x held
  rw [Lru.setUnit, get?_insert] at held
  split at held
  · rename_i same
    cases held
    exact ⟨e, same ▸ found, pins.symm⟩
  · exact ⟨x, held, rfl⟩

theorem pinsOf_updateUnit {f : PolicyEntry → PolicyEntry} (pins : ∀ e, (f e).pins = e.pins) :
    PinsOf s (s.updateUnit u f) := by
  unfold updateUnit
  split
  · exact .of_units rfl
  · rename_i e found
    exact pinsOf_setUnit (f e) found (pins e)

theorem pinsOf_rotate {p : Nat} (done : s.rotate u = some (p, t)) : PinsOf s t := by
  obtain ⟨e, found, rest⟩ := Option.bind_eq_some_iff.mp done
  obtain ⟨_, _, rest⟩ := Option.bind_eq_some_iff.mp rest
  split at rest
  · cases rest
    exact pinsOf_setUnit { e with position := s.clock } found rfl
  · cases rest

theorem pinsOf_snapshot {c : EvictionCandidate} (done : s.snapshot u = some (c, t)) :
    PinsOf s t := by
  obtain ⟨e, _, rest⟩ := Option.bind_eq_some_iff.mp done
  obtain ⟨⟨revision, r⟩, rotated, rest⟩ := Option.bind_eq_some_iff.mp rest
  cases rest
  have spent : PinsOf s (s.updateUnit u fun e => { e with referenced := false }) :=
    pinsOf_updateUnit fun _ => rfl
  have stamped : PinsOf r (r.updateUnit u fun e => { e with revision := revision }) :=
    pinsOf_updateUnit fun _ => rfl
  exact (spent.trans (pinsOf_rotate rotated)).trans stamped

variable {cs : List EvictionCandidate} {excluded : List CacheUnit} {capacity : Nat}

variable {units : List CacheUnit}

theorem pinsOf_snapshots (done : s.snapshots units = some (cs, t)) : PinsOf s t := by
  induction units generalizing s cs with
  | nil =>
    cases done
    exact .of_units rfl
  | cons u _ ih =>
    obtain ⟨⟨c, r⟩, first, rest⟩ := Option.bind_eq_some_iff.mp done
    obtain ⟨⟨_, _⟩, later, rest⟩ := Option.bind_eq_some_iff.mp rest
    cases rest
    exact (pinsOf_snapshot first).trans (ih later)

theorem examine_spec {w w' : Walk} {secondPass : Bool}
    (done : s.examine w excluded secondPass = some (w', t)) :
    PinsOf s t ∧ ∃ new, w'.out = w.out ++ new ∧ s.Unpinned new := by
  have nothing : s.Unpinned [] := fun c mem => by cases mem
  unfold examine at done
  split at done
  · cases done
    exact ⟨.of_units rfl, [], (append_nil _).symm, nothing⟩
  · rename_i p u first
    obtain ⟨e, found, rest⟩ := Option.bind_eq_some_iff.mp done
    obtain ⟨⟨revision, r⟩, rotated, rest⟩ := Option.bind_eq_some_iff.mp rest
    obtain ⟨rfl, rfl⟩ := rest
    constructor
    · have spent :
        PinsOf s (if (e.pins == 0 && !w.selected.contains u && !excluded.contains u) = true
          then s.updateUnit u fun e => { e with referenced := false } else s) := by
        split
        · exact pinsOf_updateUnit fun _ => rfl
        · exact .of_units rfl
      have stamped :
        PinsOf r (if (e.pins == 0 && !w.selected.contains u && !excluded.contains u) = true
          then r.updateUnit u fun e => { e with revision := revision } else r) := by
        split
        · exact pinsOf_updateUnit fun _ => rfl
        · exact .of_units rfl
      exact (spent.trans (pinsOf_rotate rotated)).trans stamped
    · split
      · rename_i victim
        refine ⟨[⟨u, revision⟩], rfl, fun c mem => ?_⟩
        rw [mem_singleton.mp mem]
        simp only [Bool.and_eq_true, beq_iff_eq] at victim
        exact ⟨e, found, victim.1.1.1⟩
      · exact ⟨[], (append_nil _).symm, nothing⟩

theorem walkQueue_spec {deleteBudget n : Nat} {secondPass ended : Bool} {w w' : Walk}
    (done : walkQueue capacity deleteBudget excluded secondPass n s w = some (ended, w', t)) :
    PinsOf s t ∧ ∃ new, w'.out = w.out ++ new ∧ s.Unpinned new := by
  have nothing : s.Unpinned [] := fun c mem => by cases mem
  induction n generalizing s w with
  | zero =>
    cases done
    exact ⟨.of_units rfl, [], (append_nil _).symm, nothing⟩
  | succ n ih =>
    unfold walkQueue at done
    split at done
    · cases done
      exact ⟨.of_units rfl, [], (append_nil _).symm, nothing⟩
    · obtain ⟨⟨_, r⟩, looked, rest⟩ := Option.bind_eq_some_iff.mp done
      obtain ⟨kept, new, out, unpinned⟩ := examine_spec looked
      obtain ⟨kept', new', out', unpinned'⟩ := ih rest fun c mem => by cases mem
      refine ⟨kept.trans kept', new ++ new', by rw [out', out, append_assoc], fun c mem => ?_⟩
      rcases mem_append.mp mem with here | later
      · exact unpinned c here
      · exact kept.unpinned unpinned' c later

theorem candidatesToFitBounded_spec {scanBudget deleteBudget : Nat}
    (done : s.candidatesToFitBounded capacity excluded scanBudget deleteBudget = some (cs, t)) :
    PinsOf s t ∧ s.Unpinned cs := by
  unfold candidatesToFitBounded at done
  split at done
  · cases done
    exact ⟨.of_units rfl, fun c mem => by cases mem⟩
  · obtain ⟨⟨_, w, r⟩, walked, rest⟩ := Option.bind_eq_some_iff.mp done
    obtain ⟨kept, _, out, unpinned⟩ := walkQueue_spec walked
    rw [nil_append] at out
    simp only at rest
    split at rest
    · cases rest
      exact ⟨kept, out ▸ unpinned⟩
    · obtain ⟨⟨_, _, _⟩, walked', rest⟩ := Option.bind_eq_some_iff.mp rest
      cases rest
      obtain ⟨kept', _, out', unpinned'⟩ := walkQueue_spec walked'
      refine ⟨kept.trans kept', ?_⟩
      rw [out', out]
      intro c mem
      rcases mem_append.mp mem with here | later
      · exact unpinned c here
      · exact kept.unpinned unpinned' c later

theorem pinsOf_policyRemove (done : s.policyRemove u = some t) : PinsOf s t := by
  unfold policyRemove at done
  simp only at done
  split at done
  · cases done
  · cases done
    intro v e held
    rw [← mem_entries_iff] at held
    have inside : (v, e) ∈ (s.units.erase u).entries := by
      split at held
      · exact (mem_filter.mp held).1
      · exact held
    exact ⟨e, mem_entries_iff.mp (mem_filter.mp inside).1, rfl⟩

variable {b : BlockId}

theorem units_removeFromBlock {pins : Nat} (done : s.removeFromBlock b pins = some t) :
    t.units = s.units := by
  unfold removeFromBlock at done
  split at done
  · split at done
    · cases done
    · split at done
      · cases done
      · split at done <;> cases done <;> rfl
  · cases done
    rfl

theorem units_uncountCheck {o : ObjectId} (done : s.uncountCheck o = some t) :
    t.units = s.units := by
  unfold uncountCheck at done
  split at done
  · cases done
    rfl
  · split at done
    · cases done
    · cases done
      rfl

theorem pinsOf_remove {bytes : Option Nat} (done : s.remove u = some (bytes, t)) : PinsOf s t := by
  unfold remove at done
  split at done
  · cases done
    exact .of_units rfl
  · rename_i e found
    obtain ⟨a, removed, rest⟩ := Option.bind_eq_some_iff.mp done
    obtain ⟨b, unrecorded, rest⟩ := Option.bind_eq_some_iff.mp rest
    obtain ⟨c, uncounted, rest⟩ := Option.bind_eq_some_iff.mp rest
    cases rest
    have same : (if e.independent = true then c else c.removeVersion u.block).units = a.units := by
      have first := units_removeFromBlock unrecorded
      rw [removeVersion_eq]
      split <;> exact (units_uncountCheck uncounted).trans first
    exact (pinsOf_policyRemove removed).trans (.of_units same)

theorem pinsOf_removeAll (done : s.removeAll units = some t) : PinsOf s t := by
  induction units generalizing s with
  | nil =>
    cases done
    exact .of_units rfl
  | cons u _ ih =>
    unfold removeAll at done
    rw [foldlM_cons] at done
    obtain ⟨r, first, rest⟩ := Option.bind_eq_some_iff.mp done
    obtain ⟨⟨_, _⟩, removed, rfl⟩ := Option.map_eq_some_iff.mp first
    exact (pinsOf_remove removed).trans (ih rest)

theorem evictSuperseded_spec {keep : BlockId} (done : s.evictSuperseded keep = some (out, t)) :
    PinsOf s t ∧ ∀ u ∈ out, ∃ e, s.units.get? u = some e ∧ e.pins = 0 := by
  unfold evictSuperseded at done
  split at done
  · cases done
    exact ⟨.of_units rfl, fun u mem => by cases mem⟩
  · obtain ⟨r, removed, same⟩ := Option.map_eq_some_iff.mp done
    cases same
    exact ⟨pinsOf_removeAll removed, fun u mem => of_mem_supersededUnits mem⟩

theorem evictCandidates_spec (done : evictCandidates capacity cs s = some (out, t)) :
    PinsOf s t ∧ ∀ u ∈ out, ∃ e, s.units.get? u = some e ∧ e.pins = 0 := by
  induction cs generalizing s out with
  | nil =>
    cases done
    exact ⟨.of_units rfl, fun u mem => by cases mem⟩
  | cons c _ ih =>
    unfold evictCandidates at done
    split at done
    · cases done
      exact ⟨.of_units rfl, fun u mem => by cases mem⟩
    · split at done
      · rename_i current
        obtain ⟨⟨_, r⟩, removed, rest⟩ := Option.bind_eq_some_iff.mp done
        obtain ⟨⟨_, _⟩, evicted, rest⟩ := Option.bind_eq_some_iff.mp rest
        cases rest
        have kept := pinsOf_remove removed
        obtain ⟨kept', unpinned⟩ := ih evicted
        refine ⟨kept.trans kept', fun u mem => ?_⟩
        rcases mem_cons.mp mem with rfl | later
        · rw [Option.any_eq_true] at current
          obtain ⟨e, held, both⟩ := current
          rw [Bool.and_eq_true, beq_iff_eq] at both
          exact ⟨e, held, both.1⟩
        · obtain ⟨e, held, none_pinned⟩ := unpinned u later
          obtain ⟨x, before, pins⟩ := kept u e held
          exact ⟨x, before, pins.trans none_pinned⟩
      · exact ih done

theorem evictToFit_spec (done : s.evictToFit capacity = some (out, t)) :
    PinsOf s t ∧ ∀ u ∈ out, ∃ e, s.units.get? u = some e ∧ e.pins = 0 := by
  obtain ⟨⟨_, r⟩, found, evicted⟩ := Option.bind_eq_some_iff.mp done
  have kept := (candidatesToFitBounded_spec found).1
  obtain ⟨kept', unpinned⟩ := evictCandidates_spec evicted
  refine ⟨kept.trans kept', fun u mem => ?_⟩
  obtain ⟨e, held, none_pinned⟩ := unpinned u mem
  obtain ⟨x, before, pins⟩ := kept u e held
  exact ⟨x, before, pins.trans none_pinned⟩

theorem units_requeue {p : Nat} (done : s.requeue b p = some t) : t.units = s.units := by
  unfold requeue at done
  split at done
  · cases done
    rfl
  · split at done
    · cases done
      rfl
    · obtain ⟨_, _, rfl⟩ := Option.map_eq_some_iff.mp done
      rfl

theorem units_insert {bytes now : Nat} {independent : Bool}
    (done : s.insert u bytes independent now = some t) :
    ∃ e, t.units = s.units.insert u e ∧ e.pins = (s.units.get? u).elim 0 (·.pins) := by
  unfold insert at done
  simp only at done
  split at done
  · cases done
  · split at done
    · obtain ⟨r, requeued, rfl⟩ := Option.map_eq_some_iff.mp done
      have units := units_requeue requeued
      rw [units]
      cases found : s.units.get? u with
      | none =>
        simp only [insertNew, ensureBlock, countCheck, updateBlock]
        refine ⟨⟨⟨independent || u.kind == .exactRange, bytes, s.clock, s.clock, 0⟩, false⟩, ?_,
          rfl⟩
        rw [← units]
        split <;> split <;> split <;> rfl
      | some e =>
        simp only [insertAgain, updateBlock, removeVersion_eq]
        refine ⟨{ e with
          independent := independent || u.kind == .exactRange, bytes := bytes, referenced := true },
          ?_, rfl⟩
        rw [← units]
        split
        · rfl
        · split <;> rfl
    · cases done

end Kept

/-- Every operation but an admission and those on pins keeps the pins of what it keeps. -/
def Op.onPins : Op → Bool
  | .pin _ | .unpin _ => true
  | _ => false

theorem pinsOf_apply {op : Op} (other : op.onPins = false)
    (notInsert : ∀ u bytes independent now, op ≠ .insert u bytes independent now)
    (done : s.apply op = some t) : PinsOf s t := by
  cases op with
  | insert u bytes independent now => exact absurd rfl (notInsert u bytes independent now)
  | touch =>
    cases done
    unfold touch
    split
    · exact .of_units rfl
    · rename_i e found
      exact pinsOf_setUnit { e with referenced := true } found rfl
  | pin => cases other
  | unpin => cases other
  | remove =>
    obtain ⟨⟨_, r⟩, removed, rfl⟩ := Option.map_eq_some_iff.mp done
    exact pinsOf_remove removed
  | removeBlock => exact pinsOf_removeAll done
  | evictSuperseded =>
    obtain ⟨⟨out, r⟩, evicted, rfl⟩ := Option.map_eq_some_iff.mp done
    exact (evictSuperseded_spec evicted).1
  | supersededCandidates =>
    obtain ⟨⟨cs, r⟩, selected, rfl⟩ := Option.map_eq_some_iff.mp done
    unfold supersededCandidates at selected
    split at selected
    · cases selected
      exact .of_units rfl
    · exact pinsOf_snapshots selected
  | blockCandidates =>
    obtain ⟨⟨cs, r⟩, selected, rfl⟩ := Option.map_eq_some_iff.mp done
    exact pinsOf_snapshots selected
  | candidatesToFit =>
    obtain ⟨⟨_, r⟩, selected, rfl⟩ := Option.map_eq_some_iff.mp done
    exact (candidatesToFitBounded_spec selected).1
  | evictToFit =>
    obtain ⟨⟨_, r⟩, evicted, rfl⟩ := Option.map_eq_some_iff.mp done
    exact (evictToFit_spec evicted).1
  | ageCandidates =>
    obtain ⟨_, _, rfl⟩ := Option.map_eq_some_iff.mp done
    exact .of_units rfl
  | staleVerified =>
    cases done
    exact .of_units rfl
  | nextOwnershipBlock =>
    obtain ⟨⟨_, _, r⟩, observed, rfl⟩ := Option.map_eq_some_iff.mp done
    refine .of_units ?_
    unfold nextOwnershipBlock at observed
    split at observed
    · cases observed
    · split at observed
      · cases observed
        rfl
      · obtain ⟨a, _, rest⟩ := Option.bind_eq_some_iff.mp observed
        cases rest
        split <;> rfl

end Lru

/-- A live `LruPin`.  The guard itself holds the unit only; `admission` says which admission it
pinned. -/
structure LruPin where
  unit : CacheUnit
  admission : Nat
deriving DecidableEq

/-- The policy, how often each unit was admitted anew, and the live guards. -/
structure Guarded where
  lru : Lru
  admission : CacheUnit → Nat
  guards : List LruPin

inductive GuardOp
  | policy (op : Lru.Op)
  | pinGuard (unit : CacheUnit)
  | drop (guard : LruPin)

namespace Guarded

def start (digest : BlockId → Nat) (trackChecks trackBlocks : Bool) : Guarded :=
  ⟨.withTracking digest trackChecks trackBlocks, fun _ => 0, []⟩

/-- The admission of a unit that is not tracked is a new one. -/
def admissionAfter (s : Guarded) : Lru.Op → CacheUnit → Nat
  | .insert unit _ _ _ =>
    if (s.lru.units.get? unit).isNone then Function.update s.admission unit (s.admission unit + 1)
    else s.admission
  | _ => s.admission

/-- `pin_guard` and `Drop for LruPin`; pins change through guards only. -/
def step (s : Guarded) : GuardOp → Option Guarded
  | .policy op =>
    if op.onPins then none
    else (s.lru.apply op).map fun lru => { s with lru := lru, admission := s.admissionAfter op }
  | .pinGuard unit =>
    (s.lru.pin unit).map fun (pinned, lru) =>
      { s with lru := lru, guards := if pinned then ⟨unit, s.admission unit⟩ :: s.guards
        else s.guards }
  | .drop guard =>
    if guard ∈ s.guards then
      (s.lru.unpin guard.unit).map fun lru => { s with lru := lru, guards := s.guards.erase guard }
    else none

def hasPins (s : Guarded) (unit : CacheUnit) : Bool :=
    (s.lru.units.get? unit).any fun e => e.pins != 0

/-- A guard is dropped only while its admission is current, or its unit is not tracked or has no
pins. -/
def OwnPin (s : Guarded) : GuardOp → Prop
  | .drop guard => s.hasPins guard.unit = true → guard.admission = s.admission guard.unit
  | _ => True

instance (s : Guarded) (op : GuardOp) : Decidable (s.OwnPin op) :=
  match op with
  | .drop guard =>
    inferInstanceAs
    (Decidable (s.hasPins guard.unit = true → guard.admission = s.admission guard.unit))
  | .policy _ | .pinGuard _ => isTrue trivial

def OwnPinStep (s t : Guarded) : Prop := ∃ op, s.OwnPin op ∧ s.step op = some t

/-- The pins of each admission are its live guards, and no guard is older than its unit's
admissions. -/
structure Counted (s : Guarded) : Prop where
  pins : ∀ u e, s.lru.units.get? u = some e → e.pins = s.guards.count ⟨u, s.admission u⟩
  past : ∀ g ∈ s.guards, g.admission ≤ s.admission g.unit

variable {s t : Guarded}

variable (h : s.Counted)
include h

theorem Counted.insert {bytes now : Nat} {independent : Bool} {lru : Lru}
    (done : s.lru.insert u bytes independent now = some lru) :
    ({ s with
      lru := lru, admission := s.admissionAfter (.insert u bytes independent now) } : Guarded).Counted := by
  obtain ⟨e, units, pins⟩ := Lru.units_insert done
  cases found : s.lru.units.get? u with
  | some old =>
    have same : s.admissionAfter (.insert u bytes independent now) = s.admission := by
      simp [admissionAfter, found]
    rw [same]
    rw [found, Option.elim_some] at pins
    refine ⟨fun v x held => ?_, h.past⟩
    rw [units, get?_insert] at held
    split at held
    · rename_i same
      cases held
      rw [same, pins]
      exact h.pins u old found
    · exact h.pins v x held
  | none =>
    have next : s.admissionAfter (.insert u bytes independent now) =
        update s.admission u (s.admission u + 1) := by
      simp [admissionAfter, found]
    rw [next]
    rw [found, Option.elim_none] at pins
    refine ⟨fun v x held => ?_, fun g mem => ?_⟩
    · change x.pins = s.guards.count ⟨v, update s.admission u (s.admission u + 1) v⟩
      rw [units, get?_insert] at held
      rw [update_apply]
      split at held
      · rename_i same
        cases held
        rw [same, if_pos rfl, pins, eq_comm, count_eq_zero]
        intro mem
        have old := h.past _ mem
        simp only at old
        omega
      · rename_i other
        rw [if_neg other]
        exact h.pins v x held
    · change g.admission ≤ update s.admission u (s.admission u + 1) g.unit
      have old := h.past g mem
      rw [update_apply]
      split
      · rename_i same
        rw [← same]
        omega
      · exact old

theorem Counted.pinGuard (done : s.step (.pinGuard u) = some t) : t.Counted := by
  obtain ⟨⟨_, lru⟩, took, rfl⟩ := Option.map_eq_some_iff.mp done
  unfold Lru.pin at took
  split at took
  · cases took
    exact h
  · rename_i e found
    split at took
    · cases took
      refine ⟨fun v x held => ?_, fun g mem => ?_⟩
      · change x.pins = (⟨u, s.admission u⟩ :: s.guards).count ⟨v, s.admission v⟩
        rw [get?_insert] at held
        rw [count_cons]
        split at held
        · rename_i same
          subst same
          cases held
          rw [beq_self_eq_true, if_pos rfl, ← h.pins v e found]
        · rename_i other
          rw [if_neg, Nat.add_zero]
          · exact h.pins v x held
          · rw [beq_iff_eq]
            intro same
            exact other (congrArg LruPin.unit same).symm
      · rcases mem_cons.mp mem with rfl | older
        · exact Nat.le_refl _
        · exact h.past g older
    · cases took

theorem Counted.drop {guard : LruPin} (own : s.OwnPin (.drop guard))
    (done : s.step (.drop guard) = some t) : t.Counted := by
  change (if guard ∈ s.guards then _ else none) = some t at done
  split at done
  · obtain ⟨lru, released, rfl⟩ := Option.map_eq_some_iff.mp done
    have past : ∀ g ∈ s.guards.erase guard, g.admission ≤ s.admission g.unit :=
      fun g mem => h.past g (mem_of_mem_erase mem)
    have elsewhere : ∀ v e, v ≠ guard.unit → s.lru.units.get? v = some e →
        e.pins = (s.guards.erase guard).count ⟨v, s.admission v⟩ := by
      intro v e other held
      rw [count_erase_of_ne]
      · exact h.pins v e held
      · intro same
        exact other (congrArg LruPin.unit same)
    unfold Lru.unpin at released
    split at released
    · rename_i absent
      cases released
      refine ⟨fun v x held => elsewhere v x (fun same => ?_) held, past⟩
      rw [same, absent] at held
      cases held
    · rename_i e found
      split at released
      · rename_i unpinned
        cases released
        refine ⟨fun v x held => ?_, past⟩
        by_cases same : v = guard.unit
        · subst same
          rw [found] at held
          cases held
          have none_live := h.pins _ e found
          rw [unpinned, eq_comm, count_eq_zero] at none_live
          rw [unpinned, eq_comm, count_eq_zero]
          exact fun mem => none_live (mem_of_mem_erase mem)
        · exact elsewhere v x same held
      · rename_i pinned
        split at released
        · cases released
        · cases released
          refine ⟨fun v x held => ?_, past⟩
          change (s.lru.units.insert guard.unit _).get? v = some x at held
          change x.pins = (s.guards.erase guard).count ⟨v, s.admission v⟩
          rw [get?_insert] at held
          split at held
          · rename_i same
            subst same
            cases held
            have current : (⟨guard.unit, s.admission guard.unit⟩ : LruPin) = guard := by
              have held : s.hasPins guard.unit = true := by simp [hasPins, found, pinned]
              rw [← own held]
            rw [current, count_erase_self, h.pins _ e found, current]
          · rename_i other
            exact elsewhere v x other held
  · cases done

/-- Every step keeps the pins of a unit at the number of its guards. -/
theorem Counted.step {op : GuardOp} (own : s.OwnPin op) (done : s.step op = some t) :
    t.Counted := by
  cases op with
  | policy op =>
    change (if op.onPins = true then none else _) = some t at done
    split at done
    · cases done
    · rename_i other
      obtain ⟨_, applied, rfl⟩ := Option.map_eq_some_iff.mp done
      by_cases admits : ∃ u bytes independent now, op = .insert u bytes independent now
      · obtain ⟨u, bytes, independent, now, rfl⟩ := admits
        exact h.insert applied
      · have notInsert : ∀ u bytes independent now, op ≠ .insert u bytes independent now :=
          fun u bytes independent now same => admits ⟨u, bytes, independent, now, same⟩
        have kept := Lru.pinsOf_apply (Bool.eq_false_iff.mpr other) notInsert applied
        have same : s.admissionAfter op = s.admission := by
          cases op with
          | insert u bytes independent now => exact absurd rfl (notInsert u bytes independent now)
          | _ => rfl
        rw [same]
        refine ⟨fun u e held => ?_, h.past⟩
        obtain ⟨x, before, pins⟩ := kept u e held
        rw [← pins]
        exact h.pins u x before
  | pinGuard => exact h.pinGuard done
  | drop => exact h.drop own done

omit h

/-- What a live guard of the unit's current admission protects it from. -/
structure Protected (s : Lru) (u : CacheUnit) : Prop where
  walk : ∀ capacity excluded scanBudget deleteBudget cs t,
    s.candidatesToFitBounded capacity excluded scanBudget deleteBudget = some (cs, t) →
    ∀ c ∈ cs, c.unit ≠ u
  fit : ∀ capacity out t, s.evictToFit capacity = some (out, t) → u ∉ out
  superseded : ∀ keep out t, s.evictSuperseded keep = some (out, t) → u ∉ out
  current : ∀ c : EvictionCandidate, c.unit = u → s.candidateIsCurrent c = false

include h in
theorem Counted.guarded (live : ⟨u, s.admission u⟩ ∈ s.guards) : Protected s.lru u := by
  have pinned : ∀ e, s.lru.units.get? u = some e → e.pins ≠ 0 := by
    intro e held none_pinned
    rw [h.pins u e held, count_eq_zero] at none_pinned
    exact none_pinned live
  refine ⟨?_, ?_, ?_, ?_⟩
  · intro capacity _ _ _ _ t done c mem same
    obtain ⟨e, held, unpinned⟩ := (Lru.candidatesToFitBounded_spec done).2 c mem
    exact pinned e (same ▸ held) unpinned
  · intro _ out t done mem
    obtain ⟨e, held, unpinned⟩ := (Lru.evictToFit_spec done).2 u mem
    exact pinned e held unpinned
  · intro _ _ t done mem
    obtain ⟨e, held, unpinned⟩ := (Lru.evictSuperseded_spec done).2 u mem
    exact pinned e held unpinned
  · intro c same
    unfold Lru.candidateIsCurrent
    rw [same]
    cases found : s.lru.units.get? u with
    | none => rfl
    | some e => simp [pinned e found]

/-- A guard protects its unit until it is dropped, if it is dropped on the admission it pinned. -/
theorem guards_protect_when_dropped_on_their_admission (digest : BlockId → Nat)
    (trackChecks trackBlocks : Bool)
    (run : ReflTransGen OwnPinStep (start digest trackChecks trackBlocks) s) :
    (∀ u e, s.lru.units.get? u = some e → e.pins = s.guards.count ⟨u, s.admission u⟩) ∧
      ∀ u, ⟨u, s.admission u⟩ ∈ s.guards → Protected s.lru u := by
  have h : s.Counted := Transition.kept_by_run (fun _ _ ⟨_, own, done⟩ h => h.step own done)
    ⟨fun u e held => (by cases held), fun g mem => (by cases mem)⟩ run
  exact ⟨h.pins, fun u live => h.guarded live⟩

/-- The unit is admitted twice and pinned in both admissions; the first guard is dropped while the
unit is not tracked, and one of the two later guards at the end. -/
def sampleOps : List GuardOp :=
  [.policy (.insert sampleUnit 4 false 0), .pinGuard sampleUnit, .policy (.remove sampleUnit),
    .drop ⟨sampleUnit, 1⟩, .policy (.insert sampleUnit 4 false 0), .pinGuard sampleUnit,
    .pinGuard sampleUnit, .drop ⟨sampleUnit, 2⟩]

theorem sampleOps_protect :
    ∃ s, Transition.performAll OwnPin step sampleOps (start (fun _ => 0) true true) = some s ∧
    (s.lru.units.get? sampleUnit).map (·.pins) = some 1 ∧ Protected s.lru sampleUnit := by
  have result : (Transition.performAll OwnPin step sampleOps (start (fun _ => 0) true true)).map
      (fun s => ((s.lru.units.get? sampleUnit).map (·.pins),
        decide (⟨sampleUnit, s.admission sampleUnit⟩ ∈ s.guards))) = some (some 1, true) := by
    decide +kernel
  obtain ⟨s, done, both⟩ := Option.map_eq_some_iff.mp result
  simp only [Prod.mk.injEq, decide_eq_true_eq] at both
  have run := Transition.run_of_performAll OwnPin step done
  exact ⟨s, done, both.1,
    (guards_protect_when_dropped_on_their_admission (fun _ => 0) true true run).2 sampleUnit both.2⟩

/-- The unit is removed under its first guard and admitted again; the first guard's drop takes the
pin of the second, and the capacity walk selects the unit although the second guard lives. -/
theorem old_guard_unpins_new_admission :
    (Transition.performAll (fun _ _ => True) step
      [.policy (.insert sampleUnit 4 false 0), .pinGuard sampleUnit, .policy (.remove sampleUnit),
        .policy (.insert sampleUnit 4 false 0), .pinGuard sampleUnit, .drop ⟨sampleUnit, 1⟩]
      (start (fun _ => 0) true true)).map (fun s => ((s.lru.units.get? sampleUnit).map (·.pins),
        s.admission sampleUnit, s.guards, (s.lru.candidatesToFit 0 []).map
          fun r => r.1.map (·.unit))) =
      some (some 0, 2, [⟨sampleUnit, 2⟩], some [sampleUnit]) := by
  decide +kernel

end Guarded

end Talon.Worker
