import Talon.Lib.Quorum
import Talon.Lib.Transition
import Mathlib.Data.List.Nodup
import Mathlib.Data.String.Basic
import Mathlib.Data.Prod.Lex

/-!
# Ownership transfer and quorum recovery of a write shard

The committed descriptor of a shard, the proposal that moves it to a new acting set, and the merge
of the manifests that the previous acting set answers with.  Terms and counts are unbounded here:
`FencingTerm::next` panics before its counter wraps.
-/

set_option autoImplicit false

namespace Talon.Metadata

open List

inductive ShardState where
  | active
  | draining
  | recovering
  | incomplete
deriving DecidableEq

def ShardState.acceptsWrites : ShardState → Bool
  | active => true
  | _ => false

structure DesiredAssignment where
  shard : Nat
  primary : String
  replicas : List String
deriving DecidableEq

structure WriteShardDescriptor where
  shard : Nat
  term : Nat
  state : ShardState
  owner : String
  owner_incarnation : String
  previous_acting_set : List String
  acting_set : List String
  replication_factor : Nat
  write_quorum : Nat
deriving DecidableEq

def proposeTransfer (current : WriteShardDescriptor) (desired : DesiredAssignment)
    (new_owner_incarnation : String) (state : ShardState) : WriteShardDescriptor where
  shard := current.shard
  term := current.term + 1
  state := state
  owner := desired.primary
  owner_incarnation := new_owner_incarnation
  previous_acting_set := current.acting_set
  acting_set := desired.primary :: desired.replicas
  replication_factor := current.replication_factor
  write_quorum := current.write_quorum

/-- `Q = R - W + 1`. -/
def recoveryQuorum (replication_factor write_quorum : Nat) : Nat :=
  replication_factor - write_quorum + 1

structure MutationId where
  term : Nat
  sequence : Nat
deriving DecidableEq

namespace MutationId

/-- Terms decide first. -/
def key (m : MutationId) : Nat ×ₗ Nat := toLex (m.term, m.sequence)

theorem key_injective : Function.Injective key := by
  intro a b h
  have pair := toLex.injective h
  obtain ⟨_, _⟩ := Prod.mk.inj pair
  cases a
  cases b
  simp_all

instance : LinearOrder MutationId := LinearOrder.lift' key key_injective

end MutationId

inductive MutationState where
  | prepared
  | committed
  | flushed
deriving DecidableEq

def MutationState.survivesRecovery : MutationState → Bool
  | prepared => false
  | committed => true
  | flushed => true

structure ManifestEntry where
  object : String
  mutation : MutationId
  state : MutationState
  payload_verified : Bool
deriving DecidableEq

structure ManifestResponse where
  replica : String
  entries : List ManifestEntry
deriving DecidableEq

inductive RecoveryFailure where
  | quorumNotMet (received required : Nat)
  | payloadUnavailable (object : String)
deriving DecidableEq

inductive RecoveryOutcome where
  | recovered (selected : List ManifestEntry)
  | incomplete (failure : RecoveryFailure)
deriving DecidableEq

namespace ManifestEntry

def beats (entry current : ManifestEntry) : Bool :=
  decide (current.mutation < entry.mutation) ||
    (decide (entry.mutation = current.mutation) && entry.payload_verified &&
      !current.payload_verified)

/-- Enter one surviving entry into the winners, of which the first of its object is compared. -/
def place (entry : ManifestEntry) : List ManifestEntry → List ManifestEntry
  | [] => [entry]
  | current :: rest =>
    if current.object = entry.object then
      (if entry.beats current then entry else current) :: rest
    else current :: place entry rest

def merge (winners : List ManifestEntry) (entry : ManifestEntry) : List ManifestEntry :=
  if entry.state.survivesRecovery then place entry winners else winners

end ManifestEntry

def winners (responses : List ManifestResponse) : List ManifestEntry :=
  responses.foldl (fun acc response => response.entries.foldl ManifestEntry.merge acc) []

/-- `recover` once the quorum is computed. -/
def recoverFrom (responses : List ManifestResponse) (required : Nat) : RecoveryOutcome :=
  if responses.length < required then .incomplete (.quorumNotMet responses.length required)
  else
    let winners := winners responses
    match winners.find? (fun entry => !entry.payload_verified) with
    | some missing => .incomplete (.payloadUnavailable missing.object)
    | none => .recovered (winners.mergeSort fun a b => decide (a.object ≤ b.object))

def recover (responses : List ManifestResponse) (replication_factor write_quorum : Nat) :
    RecoveryOutcome :=
  recoverFrom responses (recoveryQuorum replication_factor write_quorum)

section Merge

def AtLeast (entries : List ManifestEntry) (object : String) (mutation : MutationId) : Prop :=
  ∃ e ∈ entries, e.object = object ∧ mutation ≤ e.mutation

/-- Mutations decide first, then whether the payload verified. -/
def ManifestEntry.rank (e : ManifestEntry) : MutationId ×ₗ Bool :=
    toLex (e.mutation, e.payload_verified)

theorem ManifestEntry.mutation_le_of_rank_le {e w : ManifestEntry} (h : e.rank ≤ w.rank) :
    e.mutation ≤ w.mutation := by
  rcases Prod.Lex.le_iff.mp h with newer | ⟨same, _⟩
  · exact le_of_lt newer
  · exact le_of_eq same

theorem beats_iff {entry current : ManifestEntry} :
    entry.beats current = true ↔ current.rank < entry.rank := by
  simp only [ManifestEntry.beats, ManifestEntry.rank, Prod.Lex.toLex_lt_toLex, Bool.or_eq_true,
    Bool.and_eq_true, decide_eq_true_eq, Bool.not_eq_true', Bool.lt_iff, and_assoc]
  constructor
  · rintro (newer | ⟨same, verified, unverified⟩)
    · exact .inl newer
    · exact .inr ⟨same.symm, unverified, verified⟩
  · rintro (newer | ⟨same, unverified, verified⟩)
    · exact .inl newer
    · exact .inr ⟨same.symm, verified, unverified⟩

/-- The winners after the entries `seen`: one for each object, a surviving entry of greatest rank.
-/
structure Best (seen ws : List ManifestEntry) : Prop where
  single : (ws.map (·.object)).Nodup
  reported : ∀ w ∈ ws, w ∈ seen ∧ w.state.survivesRecovery = true
  best : ∀ e ∈ seen, e.state.survivesRecovery = true →
    ∃ w ∈ ws, w.object = e.object ∧ e.rank ≤ w.rank

theorem place_objects (entry : ManifestEntry) (ws : List ManifestEntry) :
    (entry.place ws).map (·.object) = if entry.object ∈ ws.map (·.object) then ws.map (·.object)
      else ws.map (·.object) ++ [entry.object] := by
  induction ws with
  | nil => rfl
  | cons current _ ih =>
    rw [ManifestEntry.place]
    by_cases same : current.object = entry.object
    · by_cases wins : entry.beats current = true <;> simp [same, wins]
    · simp only [if_neg same, map_cons, ih, mem_cons, Ne.symm same, false_or]
      split <;> rfl

theorem mem_place {entry e : ManifestEntry} {ws : List ManifestEntry} (h : e ∈ entry.place ws) :
    e = entry ∨ e ∈ ws := by
  induction ws with
  | nil => exact .inl (mem_singleton.mp h)
  | cons _ _ ih =>
    rw [ManifestEntry.place] at h
    split at h
    · rcases mem_cons.mp h with head | tail
      · split at head
        · exact .inl head
        · exact .inr (head ▸ mem_cons_self)
      · exact .inr (mem_cons_of_mem _ tail)
    · rcases mem_cons.mp h with head | tail
      · exact .inr (head ▸ mem_cons_self)
      · exact (ih tail).imp_right (mem_cons_of_mem _)

theorem place_best {entry e : ManifestEntry} {ws : List ManifestEntry} (h : e = entry ∨ e ∈ ws) :
    ∃ w ∈ entry.place ws, w.object = e.object ∧ e.rank ≤ w.rank := by
  induction ws with
  | nil =>
    obtain rfl : e = entry := by simpa using h
    exact ⟨e, mem_singleton_self _, rfl, le_rfl⟩
  | cons current rest ih =>
    rw [ManifestEntry.place]
    by_cases same : current.object = entry.object
    · rw [if_pos same]
      have stays : e ∈ rest → ∃ w ∈ (if entry.beats current then entry else current) :: rest,
          w.object = e.object ∧ e.rank ≤ w.rank :=
        fun later => ⟨e, mem_cons_of_mem _ later, rfl, le_rfl⟩
      by_cases wins : entry.beats current = true
      · rw [if_pos wins] at stays ⊢
        rcases h with rfl | mem
        · exact ⟨e, mem_cons_self, rfl, le_rfl⟩
        · rcases mem_cons.mp mem with rfl | later
          · exact ⟨entry, mem_cons_self, same.symm, (beats_iff.mp wins).le⟩
          · exact stays later
      · rw [if_neg wins] at stays ⊢
        rcases h with rfl | mem
        · exact ⟨current, mem_cons_self, same, le_of_not_gt fun less => wins (beats_iff.mpr less)⟩
        · rcases mem_cons.mp mem with rfl | later
          · exact ⟨e, mem_cons_self, rfl, le_rfl⟩
          · exact stays later
    · rw [if_neg same]
      by_cases head : e = current
      · exact ⟨e, head ▸ mem_cons_self, rfl, le_rfl⟩
      · obtain ⟨w, mem, found⟩ := ih (h.imp_right fun mem => (mem_cons.mp mem).resolve_left head)
        exact ⟨w, mem_cons_of_mem _ mem, found⟩

theorem Best.merge {seen ws : List ManifestEntry} (h : Best seen ws) (entry : ManifestEntry) :
    Best (seen ++ [entry]) (ManifestEntry.merge ws entry) := by
  rw [ManifestEntry.merge]
  by_cases survives : entry.state.survivesRecovery = true
  · rw [if_pos survives]
    refine ⟨?_, ?_, ?_⟩
    · rw [place_objects]
      split
      · exact h.single
      · rename_i new
        exact h.single.append (nodup_singleton _) (by simpa using new)
    · intro w mem
      rcases mem_place mem with rfl | old
      · exact ⟨by simp, survives⟩
      · exact ⟨mem_append_left _ (h.reported w old).1, (h.reported w old).2⟩
    · intro e mem alive
      rcases mem_append.mp mem with old | new
      · obtain ⟨v, won, object, below⟩ := h.best e old alive
        obtain ⟨w, mem, same, above⟩ := @place_best entry v ws (.inr won)
        exact ⟨w, mem, same.trans object, below.trans above⟩
      · exact place_best (.inl (mem_singleton.mp new))
  · rw [if_neg survives]
    refine ⟨h.single, fun w mem => ⟨mem_append_left _ (h.reported w mem).1, (h.reported w mem).2⟩,
      ?_⟩
    intro e mem alive
    rcases mem_append.mp mem with old | new
    · exact h.best e old alive
    · exact absurd (mem_singleton.mp new ▸ alive) survives

theorem Best.foldl {entries seen ws : List ManifestEntry} (h : Best seen ws) :
    Best (seen ++ entries) (entries.foldl ManifestEntry.merge ws) := by
  induction entries generalizing seen ws with
  | nil => simpa using h
  | cons entry _ ih => simpa using ih (h.merge entry)

def reported (responses : List ManifestResponse) : List ManifestEntry :=
    responses.flatMap (·.entries)

theorem winners_best (responses : List ManifestResponse) :
    Best (reported responses) (winners responses) := by
  have flat : winners responses = (reported responses).foldl ManifestEntry.merge [] := by
    rw [winners, reported, foldl_flatMap]
  have start : Best [] [] := ⟨nodup_nil, nofun, nofun⟩
  rw [flat]
  exact start.foldl

variable {responses : List ManifestResponse} {required : Nat} {selected : List ManifestEntry}

theorem recover_cases (responses : List ManifestResponse) (required : Nat) :
    (responses.length < required ∧
        recoverFrom responses required = .incomplete (.quorumNotMet responses.length required)) ∨
      (required ≤ responses.length ∧ ∃ w ∈ winners responses, w.payload_verified = false ∧
        recoverFrom responses required = .incomplete (.payloadUnavailable w.object)) ∨
      (required ≤ responses.length ∧
        (∀ w ∈ winners responses, w.payload_verified = true) ∧ recoverFrom responses required =
          .recovered ((winners responses).mergeSort fun a b => decide (a.object ≤ b.object))) := by
  by_cases few : responses.length < required
  · exact .inl ⟨few, by simp [recoverFrom, few]⟩
  · cases found : (winners responses).find? fun entry => !entry.payload_verified with
    | some w =>
      have unverified : w.payload_verified = false := by simpa using find?_some found
      exact .inr (.inl ⟨not_lt.mp few, w, mem_of_find?_eq_some found, unverified,
        by simp [recoverFrom, few, found]⟩)
    | none =>
      have verified := find?_eq_none.mp found
      exact .inr (.inr ⟨not_lt.mp few, by simpa using verified, by simp [recoverFrom, few, found]⟩)

variable (h : recoverFrom responses required = .recovered selected)
include h

theorem recovered_cases :
    required ≤ responses.length ∧ (∀ w ∈ winners responses, w.payload_verified = true) ∧
      selected = (winners responses).mergeSort fun a b => decide (a.object ≤ b.object) := by
  rcases recover_cases responses required with ⟨_, few⟩ | ⟨_, _, _, _, missing⟩ | ⟨enough,
    verified, done⟩
  · cases few.symm.trans h
  · cases missing.symm.trans h
  · exact ⟨enough, verified, (RecoveryOutcome.recovered.inj (done.symm.trans h)).symm⟩

theorem recovered_iff_winners :
    (∀ e, e ∈ selected ↔ e ∈ winners responses) ∧ ∀ e ∈ selected, e.payload_verified = true := by
  obtain ⟨_, verified, rfl⟩ := recovered_cases h
  exact ⟨fun e => mem_mergeSort, fun e mem => verified e (mem_mergeSort.mp mem)⟩

omit h

end Merge

/-- A shard with the dirty set of every worker, the acknowledged mutations and those of them that
were written to the origin. -/
structure Shard where
  descriptor : WriteShardDescriptor
  manifest : String → List ManifestEntry
  acked : List (String × MutationId)
  flushed : List (String × MutationId)

namespace Shard

def holds (s : Shard) (object : String) (mutation : MutationId) (worker : String) : Bool :=
  (s.manifest worker).any fun e =>
    e.object == object && decide (e.mutation = mutation) && e.state.survivesRecovery &&
      e.payload_verified

/-- The worker holds this mutation of the object or a newer one. -/
def covers (s : Shard) (object : String) (mutation : MutationId) (worker : String) : Bool :=
  (s.manifest worker).any fun e =>
    e.object == object && decide (mutation ≤ e.mutation) && e.state.survivesRecovery &&
      e.payload_verified

def Outstanding (s : Shard) (object : String) (mutation : MutationId) : Prop :=
  (object, mutation) ∈ s.acked ∧ (object, mutation) ∉ s.flushed

def response (s : Shard) (worker : String) : ManifestResponse := ⟨worker, s.manifest worker⟩

def copySelected (s : Shard) (selected : List ManifestEntry) : Shard :=
  { s with manifest := fun worker =>
      if worker ∈ s.descriptor.acting_set then s.manifest worker ++ selected
      else s.manifest worker }

def setState (s : Shard) (state : ShardState) : Shard :=
  { s with descriptor := { s.descriptor with state := state } }

/-- What can happen to a shard.  `Allowed` restricts the descriptors a transfer is proposed from. -/
inductive Step (Allowed : WriteShardDescriptor → Prop) : Shard → Shard → Prop
  /-- Workers store, commit, supersede and drop entries; none gives up its newest copy of an
  outstanding mutation. -/
  | work {s manifest} (kept : ∀ object mutation worker, s.Outstanding object mutation →
        s.covers object mutation worker = true →
        { s with manifest := manifest }.covers object mutation worker = true) :
      Step Allowed s { s with manifest := manifest }
  /-- The owner acknowledges a mutation that a write quorum of its acting set has committed. -/
  | acknowledge {s object mutation} (active : s.descriptor.state.acceptsWrites = true)
      (term : mutation.term = s.descriptor.term)
      (quorum : s.descriptor.write_quorum ≤
        s.descriptor.acting_set.countP (s.holds object mutation)) :
      Step Allowed s { s with acked := (object, mutation) :: s.acked }
  | flush {s object mutation} :
      Step Allowed s { s with flushed := (object, mutation) :: s.flushed }
  | transfer {s desired incarnation} (allowed : Allowed s.descriptor)
      (distinct : (desired.primary :: desired.replicas).Nodup)
      (full : (desired.primary :: desired.replicas).length = s.descriptor.replication_factor) :
      Step Allowed s
        { s with descriptor := proposeTransfer s.descriptor desired incarnation .recovering }
  /-- The attempt ends with the selected entries copied to the whole new acting set. -/
  | recovered {s asked selected}
      (recovering : s.descriptor.state = .recovering) (distinct : asked.Nodup)
      (previous : asked ⊆ s.descriptor.previous_acting_set)
      (done : recover (asked.map s.response) s.descriptor.replication_factor
        s.descriptor.write_quorum = .recovered selected) :
      Step Allowed s ((s.copySelected selected).setState .active)
  /-- The attempt fails: no quorum, no verified payload, or a deadline passed. -/
  | incomplete {s} (recovering : s.descriptor.state = .recovering) :
      Step Allowed s (s.setState .incomplete)

/-- A new shard: an acting set of `R` distinct workers and nothing acknowledged. -/
structure Fresh (s : Shard) : Prop where
  some_copy : 1 ≤ s.descriptor.write_quorum
  enough : s.descriptor.write_quorum ≤ s.descriptor.replication_factor
  distinct : s.descriptor.acting_set.Nodup
  full : s.descriptor.acting_set.length = s.descriptor.replication_factor
  active : s.descriptor.state = .active
  acked : s.acked = []

/-- A write quorum of the members covers every outstanding mutation. -/
structure Replicated (s : Shard) (members : List String) : Prop where
  distinct : members.Nodup
  full : members.length = s.descriptor.replication_factor
  covered : ∀ object mutation, s.Outstanding object mutation →
    s.descriptor.write_quorum ≤ members.countP (s.covers object mutation)

/-- While a shard is active its acting set holds what was acknowledged, during an attempt the
previous acting set does. -/
structure Kept (s : Shard) : Prop where
  enough : s.descriptor.write_quorum ≤ s.descriptor.replication_factor
  active : s.descriptor.state = .active → s.Replicated s.descriptor.acting_set
  distinct : s.descriptor.acting_set.Nodup
  full : s.descriptor.acting_set.length = s.descriptor.replication_factor
  recovering : s.descriptor.state = .recovering →
    s.Replicated s.descriptor.previous_acting_set

theorem Fresh.kept {s : Shard} (h : s.Fresh) : s.Kept where
  enough := h.enough
  active := by
    refine fun _ => ⟨h.distinct, h.full, fun object mutation outstanding => ?_⟩
    have absurd := outstanding.1
    rw [h.acked] at absurd
    cases absurd
  distinct := h.distinct
  full := h.full
  recovering := by
    intro attempt
    rw [h.active] at attempt
    cases attempt

variable {s : Shard} {members asked : List String} {object : String} {mutation : MutationId}
  {selected : List ManifestEntry}

theorem covers_iff {worker : String} : s.covers object mutation worker = true ↔
    ∃ e ∈ s.manifest worker, e.object = object ∧ mutation ≤ e.mutation ∧
      e.state.survivesRecovery = true ∧ e.payload_verified = true := by
  simp [covers, and_assoc]

variable (h : s.Replicated members)
include h

/-- The quorum argument: among the answers is one that covers the mutation. -/
theorem Replicated.atLeast_selected
    (enough : s.descriptor.write_quorum ≤ s.descriptor.replication_factor)
    (distinct : asked.Nodup) (sub : asked ⊆ members)
    (done : recover (asked.map s.response) s.descriptor.replication_factor
      s.descriptor.write_quorum = .recovered selected)
    (outstanding : s.Outstanding object mutation) : AtLeast selected object mutation := by
  have quorum : recoveryQuorum s.descriptor.replication_factor s.descriptor.write_quorum ≤
      asked.length := by
    have enough := (recovered_cases done).1
    rwa [length_map] at enough
  have many : members.length <
      members.countP (s.covers object mutation) + asked.length := by
    have copies := h.covered object mutation outstanding
    rw [recoveryQuorum] at quorum
    rw [h.full]
    omega
  obtain ⟨worker, answered, holder⟩ := Quorum.exists_common distinct sub many
  obtain ⟨e, mem, same, newer, survives, _⟩ := covers_iff.mp holder
  have seen : e ∈ reported (asked.map s.response) :=
    mem_flatMap.mpr ⟨s.response worker, mem_map_of_mem answered, mem⟩
  obtain ⟨w, won, object_eq, below⟩ := (winners_best _).best e seen survives
  exact ⟨w, ((recovered_iff_winners done).1 w).mpr won, object_eq.trans same,
    newer.trans (ManifestEntry.mutation_le_of_rank_le below)⟩

theorem Replicated.work {manifest : String → List ManifestEntry}
    (kept : ∀ object mutation worker, s.Outstanding object mutation →
      s.covers object mutation worker = true →
      { s with manifest := manifest }.covers object mutation worker = true) :
    { s with manifest := manifest }.Replicated members where
  __ := h
  covered := by
    intro object mutation outstanding
    apply (h.covered object mutation outstanding).trans
    apply countP_mono_left
    intro worker _ holder
    exact kept object mutation worker outstanding holder

theorem Replicated.flush :
    { s with flushed := (object, mutation) :: s.flushed }.Replicated members where
  __ := h
  covered := by
    intro object' mutation' outstanding
    have before : s.Outstanding object' mutation' :=
      ⟨outstanding.1, fun flushed => outstanding.2 (mem_cons_of_mem _ flushed)⟩
    exact h.covered object' mutation' before

theorem Replicated.acknowledge
    (quorum : s.descriptor.write_quorum ≤ members.countP (s.holds object mutation)) :
    { s with acked := (object, mutation) :: s.acked }.Replicated members where
  __ := h
  covered := by
    intro object' mutation' outstanding
    rcases mem_cons.mp outstanding.1 with new | old
    · obtain ⟨rfl, rfl⟩ := Prod.mk.inj new
      apply quorum.trans
      apply countP_mono_left
      intro _ _ holder
      simp only [holds, any_eq_true, Bool.and_eq_true, beq_iff_eq, decide_eq_true_eq] at holder
      obtain ⟨e, mem, ⟨⟨same, exact_⟩, survives⟩, verified⟩ := holder
      exact covers_iff.mpr ⟨e, mem, same, exact_.ge, survives, verified⟩
    · exact h.covered object' mutation' ⟨old, outstanding.2⟩

omit h

theorem Kept.recovered (h : s.Kept) (attempt : s.descriptor.state = .recovering)
    (distinct : asked.Nodup) (previous : asked ⊆ s.descriptor.previous_acting_set)
    (done : recover (asked.map s.response) s.descriptor.replication_factor
      s.descriptor.write_quorum = .recovered selected) :
    ((s.copySelected selected).setState .active).Kept where
  __ := h
  active := by
    refine fun _ => ⟨h.distinct, h.full, fun object mutation outstanding => ?_⟩
    have found := (h.recovering attempt).atLeast_selected h.enough distinct previous
      done outstanding
    have everyone : s.descriptor.acting_set.countP
        ((s.copySelected selected).covers object mutation) =
        s.descriptor.acting_set.length := by
      apply countP_eq_length.mpr
      intro _ member
      obtain ⟨e, mem, same, newer⟩ := found
      obtain ⟨won, verified⟩ := recovered_iff_winners done
      have survives := ((winners_best _).reported e ((won e).mp mem)).2
      refine covers_iff.mpr ⟨e, ?_, same, newer, survives, verified e mem⟩
      simp only [copySelected, if_pos member]
      exact mem_append_right _ mem
    have all : s.descriptor.write_quorum ≤ s.descriptor.acting_set.countP
        ((s.copySelected selected).covers object mutation) := by
      rw [everyone, h.full]
      exact h.enough
    exact all
  recovering := nofun

/-- Every step leaves the acknowledged mutations where a recovery finds them. -/
theorem Kept.step {t : Shard} (step : Step (·.state = .active) s t) (h : s.Kept) : t.Kept := by
  cases step with
  | work kept =>
    exact { h with
      active := fun active => (h.active active).work kept
      recovering := fun attempt => (h.recovering attempt).work kept }
  | acknowledge active _ quorum =>
    have now : s.descriptor.state = .active := by
      cases state : s.descriptor.state with
      | active => rfl
      | draining | recovering | incomplete =>
        rw [state] at active
        cases active
    exact { h with
      active := fun _ => (h.active now).acknowledge quorum
      recovering := by
        intro attempt
        have absurd := now.symm.trans attempt
        cases absurd }
  | flush =>
    exact { h with
      active := fun active => (h.active active).flush
      recovering := fun attempt => (h.recovering attempt).flush }
  | transfer allowed distinct full =>
    have before := h.active allowed
    exact {
      enough := h.enough
      active := nofun
      distinct := distinct
      full := full
      recovering := fun _ => ⟨before.distinct, before.full, before.covered⟩ }
  | recovered recovering distinct previous done =>
    exact h.recovered recovering distinct previous done
  | incomplete recovering =>
    exact { h with active := nofun, recovering := nofun }

/-- If only an active shard is transferred, a recovery selects no less than was acknowledged. -/
theorem recover_keeps_acknowledged {s₀ : Shard} (start : s₀.Fresh)
    (run : Relation.ReflTransGen (Step (·.state = .active)) s₀ s)
    (attempt : s.descriptor.state = .recovering)
    (distinct : asked.Nodup) (previous : asked ⊆ s.descriptor.previous_acting_set)
    (done : recover (asked.map s.response) s.descriptor.replication_factor
      s.descriptor.write_quorum = .recovered selected)
    (outstanding : s.Outstanding object mutation) : AtLeast selected object mutation := by
  have kept : s.Kept := by
    apply Transition.kept_by_run _ start.kept run
    intro s t step h
    exact h.step step
  exact (kept.recovering attempt).atLeast_selected kept.enough distinct previous done outstanding

def sampleEntry : ManifestEntry := ⟨"object", ⟨1, 1⟩, .committed, true⟩

def sample : Shard where
  descriptor := ⟨7, 1, .active, "w0", "inc-0", [], ["w0"], 1, 1⟩
  manifest := fun worker => if worker = "w0" then [sampleEntry] else []
  acked := []
  flushed := []

def sampleAcked : Shard := { sample with acked := [("object", ⟨1, 1⟩)] }

def moved (s : Shard) (worker incarnation : String) (replicas : List String) : Shard :=
  { s with descriptor := proposeTransfer s.descriptor ⟨7, worker, replicas⟩ incarnation .recovering }

theorem sample_fresh : sample.Fresh :=
  ⟨by decide, by decide, by decide, by decide, rfl, rfl⟩

variable {Allowed : WriteShardDescriptor → Prop}

theorem sample_acked : Step Allowed sample sampleAcked :=
  Step.acknowledge rfl rfl (by decide)

theorem moved_step {s : Shard} {worker incarnation : String}
    {replicas : List String} (allowed : Allowed s.descriptor)
    (distinct : (worker :: replicas).Nodup)
    (full : (worker :: replicas).length = s.descriptor.replication_factor) :
    Step Allowed s (s.moved worker incarnation replicas) :=
  Step.transfer allowed distinct full

/-- After an attempt that copied nothing, the next transfer asks workers that never held the
acknowledged mutation, and their empty manifests pass for a recovery. -/
theorem recover_loses_after_incomplete :
    ∃ s, Relation.ReflTransGen (Step fun _ => True) sample s ∧ sample.Fresh ∧
      s.descriptor.state = .recovering ∧ s.Outstanding "object" ⟨1, 1⟩ ∧
      s.descriptor.previous_acting_set = ["w1"] ∧
      recover (["w1"].map s.response) s.descriptor.replication_factor
        s.descriptor.write_quorum = .recovered [] := by
  refine ⟨((sampleAcked.moved "w1" "inc-1" []).setState .incomplete).moved "w2" "inc-2" [], ?_,
    sample_fresh, rfl, ⟨List.mem_singleton_self _, List.not_mem_nil⟩, rfl, ?_⟩
  · apply Relation.ReflTransGen.tail _ (moved_step trivial (nodup_singleton _) rfl)
    apply Relation.ReflTransGen.tail _ (Step.incomplete rfl)
    apply Relation.ReflTransGen.tail _ (moved_step trivial (nodup_singleton _) rfl)
    exact .single sample_acked
  · simp [recover, recoverFrom, recoveryQuorum, winners, moved, setState, sampleAcked, sample, response,
      proposeTransfer]

/-- Three replicas, two of which have acknowledged the entry. -/
def wide : Shard where
  descriptor := ⟨7, 1, .active, "w0", "inc-0", [], ["w0", "w1", "w2"], 3, 2⟩
  manifest := fun worker => if worker ∈ ["w0", "w1"] then [sampleEntry] else []
  acked := []
  flushed := []

def wideAcked : Shard := { wide with acked := [("object", ⟨1, 1⟩)] }

/-- The first transfer keeps one of the workers, the second none. -/
def movedOnce : Shard := wideAcked.moved "w2" "inc-1" ["w3", "w4"]

def movedTwice : Shard :=
  ((movedOnce.copySelected [sampleEntry]).setState .active).moved "w5" "inc-2" ["w6", "w7"]

theorem recover_keeps_acknowledged_twice :
    ∃ selected, recover (["w4", "w2"].map movedTwice.response) 3 2 = .recovered selected ∧
      AtLeast selected "object" ⟨1, 1⟩ := by
  have first : recover (["w1", "w2"].map movedOnce.response) 3 2 = .recovered [sampleEntry] := by
    decide +kernel
  have second : recover (["w4", "w2"].map movedTwice.response) 3 2 = .recovered [sampleEntry] := by
    decide +kernel
  have acknowledged : Step (·.state = .active) wide wideAcked := .acknowledge rfl rfl (by decide)
  have moves : Step (·.state = .active) _ movedOnce := moved_step rfl (by decide) rfl
  have again : Step (·.state = .active) _ movedTwice := moved_step rfl (by decide) rfl
  have run : Relation.ReflTransGen (Step (·.state = .active)) wide movedTwice :=
    .tail (.tail (.tail (.single acknowledged) moves) (.recovered rfl (by decide) (by decide) first)) again
  have start : wide.Fresh := ⟨by decide, by decide, by decide, by decide, rfl, rfl⟩
  exact ⟨_, second, recover_keeps_acknowledged start run rfl (by decide) (by decide) second
    ⟨mem_singleton_self _, not_mem_nil⟩⟩

end Shard

end Talon.Metadata
