import Talon.Metadata.ShardRecovery
import Mathlib.Data.Finset.Card

/-!
# Soundness of the quorum merge

`recover` counts responses, not the replicas that sent them, so a retransmitted response helps to
meet the quorum.  That makes the merge unsound exactly where too few replicas answered and nothing
else fails.
-/

set_option autoImplicit false

namespace Talon.Metadata

open List

def answering (responses : List ManifestResponse) : Finset String :=
  (responses.map (·.replica)).toFinset

/-- `recovery_quorum` on `u8`: it wraps, where a debug build panics, unless `W ≤ R` and `R - W <
255`. -/
def recoveryQuorumU8 (R W : UInt8) : Nat := (R - W + 1).toNat

def Surviving (responses : List ManifestResponse) (e : ManifestEntry) : Prop :=
  e ∈ reported responses ∧ e.state.survivesRecovery = true

/-- No surviving entry of the object is newer. -/
def Greatest (responses : List ManifestResponse) (w : ManifestEntry) : Prop :=
  Surviving responses w ∧ ∀ e, Surviving responses e → e.object = w.object → e.mutation ≤ w.mutation

/-- No copy of the greatest mutation of the object verified. -/
def Unavailable (responses : List ManifestResponse) (object : String) : Prop :=
  ∃ w, w.object = object ∧ Greatest responses w ∧ ∀ e, Surviving responses e → e.object = object →
    e.mutation = w.mutation → e.payload_verified = false

/-- The objects and mutations of a recovery, none if it failed. -/
def RecoveryOutcome.summary : RecoveryOutcome → Option (List (String × MutationId))
  | .recovered selected => some (selected.map fun e => (e.object, e.mutation))
  | .incomplete _ => none

/-- What the merge of the responses promises; `others` are the same responses, reordered and
repeated. -/
structure SoundMerge (responses : List ManifestResponse) (required : Nat) : Prop where
  quorum : ∀ selected, recoverFrom responses required = .recovered selected →
    required ≤ (answering responses).card
  selects : ∀ selected, recoverFrom responses required = .recovered selected →
    (selected.map (·.object)).Nodup ∧
    (∀ e, Surviving responses e → ∃ w ∈ selected, w.object = e.object) ∧
      ∀ w ∈ selected, Greatest responses w ∧ w.payload_verified = true
  unavailable : ∀ object, recoverFrom responses required = .incomplete (.payloadUnavailable object) →
    Unavailable responses object
  same : ∀ others, (∀ r, r ∈ responses ↔ r ∈ others) →
    (recoverFrom others required).summary = (recoverFrom responses required).summary

variable {responses others : List ManifestResponse} {required : Nat}
  {seen ws vs selected : List ManifestEntry}

theorem answering_card_le : (answering responses).card ≤ responses.length := by
  have bound := toFinset_card_le (responses.map (·.replica))
  rwa [length_map] at bound

variable {w : ManifestEntry} {seen' : List ManifestEntry}

theorem Best.rank_le (h : Best seen ws) {e : ManifestEntry} (won : w ∈ ws) (mem : e ∈ seen)
    (survives : e.state.survivesRecovery = true) (same : e.object = w.object) :
    e.rank ≤ w.rank := by
  obtain ⟨v, other, object, below⟩ := h.best e mem survives
  have equal : v = w := inj_on_of_nodup_map h.single other won (object.trans same)
  exact equal ▸ below

theorem greatest_of_winner (won : w ∈ winners responses) : Greatest responses w :=
  ⟨(winners_best responses).reported w won, fun _ ⟨mem, survives⟩ same =>
    ManifestEntry.mutation_le_of_rank_le ((winners_best responses).rank_le won mem survives same)⟩

theorem Best.matched (h : Best seen ws) (h' : Best seen' vs) (same : ∀ e, e ∈ seen ↔ e ∈ seen')
    (won : w ∈ ws) : ∃ v ∈ vs, v.object = w.object ∧ v.rank = w.rank := by
  obtain ⟨mem, survives⟩ := h.reported w won
  obtain ⟨v, other, object, below⟩ := h'.best w ((same w).mp mem) survives
  obtain ⟨mem', survives'⟩ := h'.reported v other
  have above := h.rank_le won ((same v).mpr mem') survives' object
  exact ⟨v, other, object, le_antisymm above below⟩

theorem Best.unverified (h : Best seen ws) (h' : Best seen' vs) (same : ∀ e, e ∈ seen ↔ e ∈ seen')
    (missing : ∃ e ∈ ws, e.payload_verified = false) : ∃ e ∈ vs, e.payload_verified = false := by
  obtain ⟨e, won, unverified⟩ := missing
  obtain ⟨v, other, _, rank⟩ := h.matched h' same won
  exact ⟨v, other, (congrArg (fun r => (ofLex r).2) rank).trans unverified⟩

def sortedView (ws : List ManifestEntry) : List (String × MutationId) :=
  (ws.mergeSort fun a b => decide (a.object ≤ b.object)).map fun e => (e.object, e.mutation)

theorem mem_sortedView {x : String × MutationId} :
    x ∈ sortedView ws ↔ ∃ e ∈ ws, (e.object, e.mutation) = x := by
  simp [sortedView]

theorem sortedView_objects (h : (ws.map (·.object)).Nodup) :
    ((sortedView ws).map Prod.fst).Nodup := by
  have perm : ((sortedView ws).map Prod.fst).Perm (ws.map (·.object)) := by
    rw [sortedView, map_map]
    exact (mergeSort_perm ws _).map _
  exact perm.nodup_iff.mpr h

theorem sortedView_sorted : (sortedView ws).Pairwise fun a b => a.1 ≤ b.1 := by
  have sorted := @pairwise_mergeSort _ (fun a b : ManifestEntry => decide (a.object ≤ b.object))
    (fun a b c first second => by
      simp only [decide_eq_true_eq] at first second ⊢
      exact first.trans second)
    (fun a b => by simpa using le_total a.object b.object) ws
  exact pairwise_map.mpr (sorted.imp fun below => by simpa using below)

theorem sortedView_congr (h : Best seen ws) (h' : Best seen' vs)
    (same : ∀ e, e ∈ seen ↔ e ∈ seen') : sortedView ws = sortedView vs := by
  have sub : ∀ {a b : List ManifestEntry} {sa sb : List ManifestEntry}, Best sa a → Best sb b →
      (∀ e, e ∈ sa ↔ e ∈ sb) → ∀ x ∈ sortedView a, x ∈ sortedView b := by
    intro a b _ _ ha hb same x mem
    obtain ⟨w, won, rfl⟩ := mem_sortedView.mp mem
    obtain ⟨v, other, object, rank⟩ := ha.matched hb same won
    have mutation : v.mutation = w.mutation := congrArg (fun r => (ofLex r).1) rank
    exact mem_sortedView.mpr ⟨v, other, by rw [object, mutation]⟩
  have nodup := sortedView_objects h.single
  have perm := (perm_ext_iff_of_nodup nodup.of_map (sortedView_objects h'.single).of_map).mpr
    fun x =>
      ⟨sub h h' same x, sub h' h (fun e => (same e).symm) x⟩
  refine perm.eq_of_pairwise ?_ sortedView_sorted sortedView_sorted
  intro x y left right below above
  exact inj_on_of_nodup_map nodup left (perm.mem_iff.mpr right) (le_antisymm below above)

theorem summary_of_few (few : responses.length < required) :
    (recoverFrom responses required).summary = none := by
  simp [recoverFrom, few, RecoveryOutcome.summary]

theorem summary_of_enough (enough : required ≤ responses.length) :
    (recoverFrom responses required).summary =
      if ∃ e ∈ winners responses, e.payload_verified = false then none
      else some (sortedView (winners responses)) := by
  rcases recover_cases responses required with ⟨_, _⟩ | ⟨_, w, won, missing, failed⟩ | ⟨_,
    verified, done⟩
  · omega
  · rw [failed, if_pos ⟨w, won, missing⟩, RecoveryOutcome.summary]
  · rw [done, if_neg (by simpa using verified)]
    rfl

theorem unverified_iff (same : ∀ r, r ∈ responses ↔ r ∈ others) :
    (∃ e ∈ winners others, e.payload_verified = false) ↔
      ∃ e ∈ winners responses, e.payload_verified = false := by
  have entries : ∀ e, e ∈ reported responses ↔ e ∈ reported others := by simp [reported, same]
  exact ⟨(winners_best others).unverified (winners_best responses) fun e => (entries e).symm,
    (winners_best responses).unverified (winners_best others) entries⟩

theorem summary_congr (same : ∀ r, r ∈ responses ↔ r ∈ others)
    (enough : required ≤ responses.length) (enough' : required ≤ others.length) :
    (recoverFrom others required).summary = (recoverFrom responses required).summary := by
  have entries : ∀ e, e ∈ reported responses ↔ e ∈ reported others := by simp [reported, same]
  rw [summary_of_enough enough, summary_of_enough enough',
    sortedView_congr (winners_best responses) (winners_best others) entries]
  simp [unverified_iff same]

theorem unavailable_of_winner (won : w ∈ winners responses)
    (unverified : w.payload_verified = false) : Unavailable responses w.object := by
  refine ⟨w, rfl, greatest_of_winner won, ?_⟩
  rintro e ⟨mem, survives⟩ same mutation
  -- A verified copy of the same mutation would outrank the winner.
  rcases Prod.Lex.le_iff.mp
    ((winners_best responses).rank_le won mem survives same) with newer | ⟨_, verified⟩
  · exact absurd newer (by simp [ManifestEntry.rank, mutation])
  · have below : e.payload_verified ≤ false := by
      simpa [ManifestEntry.rank, unverified] using verified
    exact le_bot_iff.mp below

theorem Unavailable.winner {object : String} (h : Unavailable responses object) :
    ∃ v ∈ winners responses, v.payload_verified = false := by
  obtain ⟨w, rfl, ⟨⟨mem, survives⟩, greatest⟩, missing⟩ := h
  obtain ⟨v, won, object, below⟩ := (winners_best responses).best w mem survives
  have survivor := (winners_best responses).reported v won
  have above := greatest v survivor object
  exact ⟨v, won, missing v survivor object
    (le_antisymm above (ManifestEntry.mutation_le_of_rank_le below))⟩

theorem summary_of_unverified (missing : ∃ v ∈ winners responses, v.payload_verified = false) :
    (recoverFrom responses required).summary = none := by
  by_cases enough : required ≤ responses.length
  · rw [summary_of_enough enough, if_pos missing]
  · exact summary_of_few (not_le.mp enough)

/-- Where a winner is missing its payload, or where enough replicas answered, repetitions change
nothing. -/
theorem summary_same (same : ∀ r, r ∈ responses ↔ r ∈ others)
    (known : required ≤ (answering responses).card ∨ ∃ v ∈ winners responses,
      v.payload_verified = false) :
    (recoverFrom others required).summary = (recoverFrom responses required).summary := by
  rcases known with enough | missing
  · have replicas : answering responses = answering others := by
      ext replica
      simp [answering, same]
    exact summary_congr same (enough.trans answering_card_le)
      ((replicas ▸ enough).trans answering_card_le)
  · rw [summary_of_unverified missing, summary_of_unverified ((unverified_iff same).mpr missing)]

/-- The merge is sound exactly if it is given nothing, enough replicas answered, or a payload is
missing. -/
theorem recover_sound_iff (responses : List ManifestResponse) (R W : UInt8) :
    SoundMerge responses (recoveryQuorumU8 R W) ↔ responses = [] ∨
      recoveryQuorumU8 R W ≤ (answering responses).card ∨
        ∃ object, Unavailable responses object := by
  -- How the quorum is computed plays no part.
  generalize recoveryQuorumU8 R W = required
  have best := winners_best responses
  constructor
  · intro sound
    by_contra neither
    simp only [not_or, not_le] at neither
    obtain ⟨some, few, verified⟩ := neither
    have all : ¬ ∃ v ∈ winners responses, v.payload_verified = false := by
      rintro ⟨v, won, missing⟩
      exact verified ⟨_, unavailable_of_winner won missing⟩
    rcases recover_cases responses required with ⟨short, _⟩ | ⟨_, v, won, missing, _⟩ | ⟨_, _, done⟩
    · -- Repeating one of the responses makes up the count.
      obtain ⟨r, mem⟩ := exists_mem_of_ne_nil _ some
      have same : ∀ x, x ∈ responses ↔ x ∈ replicate required r ++ responses := by
        intro x
        simp only [mem_append, mem_replicate, iff_or_self]
        rintro ⟨-, rfl⟩
        exact mem
      have changed := sound.same _ same
      rw [summary_of_few short, summary_of_enough (by simp),
        if_neg (mt (unverified_iff same).mp all)] at changed
      cases changed
    · exact all ⟨v, won, missing⟩
    · exact absurd (sound.quorum _ done) (not_le.mpr few)
  · intro known
    refine ⟨fun _ done => ?_, fun _ done => ?_, fun _ failed => ?_, fun others same => ?_⟩
    · obtain ⟨enough, verified, -⟩ := recovered_cases done
      rcases known with rfl | answered | ⟨object, missing⟩
      · exact enough.trans (Nat.zero_le _)
      · exact answered
      · obtain ⟨v, won, unverified⟩ := missing.winner
        rw [verified v won] at unverified
        cases unverified
    · obtain ⟨-, verified, rfl⟩ := recovered_cases done
      have perm := (mergeSort_perm (winners responses) fun a b => decide (a.object ≤ b.object)).map
        ManifestEntry.object
      refine ⟨perm.nodup_iff.mpr best.single, ?_, fun w mem => ?_⟩
      · rintro e ⟨mem, survives⟩
        obtain ⟨w, won, object, _⟩ := best.best e mem survives
        exact ⟨w, mem_mergeSort.mpr won, object⟩
      · have won := mem_mergeSort.mp mem
        exact ⟨greatest_of_winner won, verified w won⟩
    · rcases recover_cases responses required with ⟨_, few⟩ | ⟨_, w, won, unverified,
        missing⟩ | ⟨_, _, done⟩
      · cases few.symm.trans failed
      · cases missing.symm.trans failed
        exact unavailable_of_winner won unverified
      · cases done.symm.trans failed
    · rcases known with rfl | answered | ⟨object, missing⟩
      · rw [eq_nil_iff_forall_not_mem.mpr fun r mem => not_mem_nil ((same r).mpr mem)]
      · exact summary_same same (.inl answered)
      · exact summary_same same (.inr missing.winner)

def oneAnswer : ManifestResponse := ⟨"a", [Shard.sampleEntry]⟩

/-- One replica answers twice: the quorum of two is met, which it was not before. -/
theorem repeated_response_meets_quorum :
    recoverFrom [oneAnswer] (recoveryQuorumU8 3 2) = .incomplete (.quorumNotMet 1 2) ∧
      recoverFrom [oneAnswer, oneAnswer] (recoveryQuorumU8 3 2) = .recovered [Shard.sampleEntry] ∧
      (answering [oneAnswer, oneAnswer]).card < recoveryQuorumU8 3 2 := by
  decide +kernel

end Talon.Metadata
