import Talon.Worker.LruInvariant

/-!
# Admission

An admission advances the clock once and uses the old value wherever it needs a new number: the
block's revision, its place in the ownership queue, and, for a unit that was not tracked, the unit's
position and revision and the block's place.  Nothing else was recorded with that number, so every
queue stays a bijection.
-/

set_option autoImplicit false

namespace Talon.Worker

open Talon.Core Option Nat

namespace Lru

variable {s t : Lru} {u : CacheUnit} {e e' : PolicyEntry}

def admitted (s : Lru) (u : CacheUnit) (bytes : Nat) (independent : Bool) : PolicyEntry :=
  match s.units.get? u with
  | some e => { e with independent := independent, bytes := bytes, referenced := true }
  | none => ⟨⟨independent, bytes, s.clock, s.clock, 0⟩, false⟩

def recordAfter (s : Lru) (b : BlockId) (now : Nat) : Option BlockPolicy :=
  match s.activity b with
  | some a => some { a with
      revision := s.clock
      ownershipPosition := if a.ownershipPending then a.ownershipPosition else s.clock
      ownershipPending := true
      access := max a.access now }
  | none => if s.trackBlocks then some ⟨0, s.clock, s.clock, s.clock, true, now⟩ else none

def queueAfter (s : Lru) (b : BlockId) : SortedMap Nat BlockId :=
  match s.activity b with
  | some a =>
    if a.ownershipPending then s.ownershipQueue
    else (s.ownershipQueue.erase a.ownershipPosition).insert s.clock b
  | none => if s.trackBlocks then s.ownershipQueue.insert s.clock b else s.ownershipQueue

def versionsAfter (s : Lru) (u : CacheUnit) (e' : PolicyEntry) : VersionIndex :=
  match s.units.get? u with
  | some e =>
    if e.independent = e'.independent then s.versions
    else if e'.independent then ((s.setUnit u e').removeVersion u.block).versions
    else s.versions.insert u.block
  | none => if e'.independent then s.versions else s.versions.insert u.block

def afterInsert (s : Lru) (u : CacheUnit) (bytes : Nat) (independent : Bool) (now : Nat) : Lru where
  units := s.units.insert u (s.admitted u bytes independent)
  lens := if (s.units.get? u).isSome then s.lens
    else Function.update s.lens u.block (s.lens u.block + 1)
  activity := Function.update s.activity u.block (s.recordAfter u.block now)
  queue := if (s.units.get? u).isSome then s.queue else s.queue.insert s.clock u
  versions := s.versionsAfter u (s.admitted u bytes independent)
  blockQueue :=
    if s.trackBlocks && (s.activity u.block).isNone then s.blockQueue.insert s.clock u.block
    else s.blockQueue
  ownershipQueue := s.queueAfter u.block
  objectChecks :=
    if (s.units.get? u).isSome then s.objectChecks else (s.countCheck u.block.object).objectChecks
  trackChecks := s.trackChecks
  trackBlocks := s.trackBlocks
  totalBytes := s.totalBytes.replace ((s.units.get? u).elim 0 (·.bytes)) bytes
  clock := s.clock + 1
  admissionCeiling := s.clock + 1

theorem removeVersion_eq (s : Lru) (b : BlockId) : s.removeVersion b =
    { s with versions := if s.hasVersionedUnits b then s.versions else s.versions.remove b } := by
  unfold removeVersion
  split <;> rfl

theorem Ok.recorded (ok : s.Ok) (found : s.units.get? u = some e) (track : s.trackBlocks = true) :
    ∃ a, s.activity u.block = some a := by
  have present : 0 < s.unitCount u.block :=
    Table.total_pos_iff.mpr ⟨u, e, found, by rw [if_pos rfl]; exact zero_lt_one⟩
  exact isSome_iff_exists.mp ((ok.tracked u.block).mpr ⟨track, present⟩)

theorem insert_eq {bytes now : Nat} {independent : Bool} (room : s.ticks = true)
    (queued : ∀ a, s.activity u.block = some a → a.ownershipPending = false →
      s.ownershipQueue.get? a.ownershipPosition = some u.block)
    (known : ∀ e, s.units.get? u = some e → s.trackBlocks = true → s.activity u.block ≠ none)
    (allowed : ¬(independent && u.kind.isPage) = true)
    (exact : u.kind = .exactRange → independent = true) :
    s.insert u bytes independent now = some (s.afterInsert u bytes independent now) := by
  have same : (independent || u.kind == .exactRange) = independent := by
    cases independent with
    | true => rfl
    | false => simpa using exact
  unfold Lru.insert afterInsert requeue recordAfter queueAfter versionsAfter admitted
  simp only [same, allowed, room, if_true]
  cases held : s.activity u.block with
  | none =>
    cases found : s.units.get? u with
    | none =>
      cases track : s.trackBlocks <;> cases checks : s.trackChecks <;> cases independent <;>
        simp [insertNew, ensureBlock, countCheck, updateBlock, held, found, track, checks]
    | some e =>
      have track : s.trackBlocks = false := by
        by_contra on
        exact known e found (Bool.eq_true_of_not_eq_false on) held
      by_cases kept : e.independent = independent
      · simp [insertAgain, updateBlock, held, found, track, kept]
      · cases independent <;>
          simp [insertAgain, updateBlock, held, found, track, kept, removeVersion_eq,
            hasVersionedUnits, setUnit]
  | some a =>
    have queued := queued a held
    cases found : s.units.get? u with
    | none =>
      cases pending : a.ownershipPending <;> cases checks : s.trackChecks <;> cases independent <;>
        simp [insertNew, ensureBlock, countCheck, updateBlock, held, found, checks, pending, queued]
    | some e =>
      by_cases kept : e.independent = independent
      · cases pending : a.ownershipPending <;>
          simp [insertAgain, updateBlock, held, found, kept, pending, queued]
      · cases pending : a.ownershipPending <;> cases independent <;>
          simp [insertAgain, updateBlock, held, found, kept, pending, queued, removeVersion_eq,
            hasVersionedUnits, setUnit]

section Admit

variable {bytes now : Nat} {independent : Bool}

theorem pins_admitted :
    (s.admitted u bytes independent).pins = (s.units.get? u).elim 0 (·.pins) := by
  unfold admitted
  cases s.units.get? u <;> rfl

theorem independent_admitted : (s.admitted u bytes independent).independent = independent := by
  unfold admitted
  cases s.units.get? u <;> rfl

theorem bytes_admitted : (s.admitted u bytes independent).bytes = bytes := by
  unfold admitted
  cases s.units.get? u <;> rfl

theorem pinCount_afterInsert (b : BlockId) :
    (s.afterInsert u bytes independent now).pinCount b = s.pinCount b := by
  have sums := total_set (t := s.afterInsert u bytes independent now) (n := some _) rfl fun u e =>
    if u.block = b then e.pins else 0
  rw [elim_some, pins_admitted] at sums
  unfold pinCount
  cases found : s.units.get? u <;> simp only [found, elim_none, elim_some, ite_self] at sums <;>
    omega

theorem unitCount_afterInsert (b : BlockId) : (s.afterInsert u bytes independent now).unitCount b =
    s.unitCount b + if u.block = b ∧ s.units.get? u = none then 1 else 0 := by
  have sums := total_set (t := s.afterInsert u bytes independent now) (n := some _) rfl fun u _ =>
    if u.block = b then 1 else 0
  unfold unitCount
  cases found : s.units.get? u <;> simp [found] at sums ⊢ <;> omega

theorem objectCount_afterInsert (o : ObjectId) :
    (s.afterInsert u bytes independent now).objectCount o =
    s.objectCount o + if u.block.object = o ∧ s.units.get? u = none then 1 else 0 := by
  have sums := total_set (t := s.afterInsert u bytes independent now) (n := some _) rfl fun u _ =>
    if u.block.object = o then 1 else 0
  unfold objectCount
  cases found : s.units.get? u <;> simp [found] at sums ⊢ <;> omega

theorem Ok.unitPlace_admitted (ok : s.Ok) : (s.afterInsert u bytes independent now).queue.Inverts
    (Function.update s.unitPlace u (some (s.admitted u bytes independent).position)) := by
  unfold afterInsert admitted
  cases found : s.units.get? u with
  | none =>
    have absent : s.unitPlace u = none := by rw [unitPlace, found, map_none]
    exact ok.queue.insert absent ok.unitPlace_ne_clock
  | some e => exact ok.queue.keep (by rw [unitPlace, found, map_some])

theorem Ok.total_afterInsert (ok : s.Ok)
    (fits : (s.afterInsert u bytes independent now).byteCount < 2 ^ 64) :
    (s.afterInsert u bytes independent now).totalBytes = .holding
      (s.afterInsert u bytes independent now).byteCount := by
  have sums : (s.afterInsert u bytes independent now).byteCount = bytes + (s.units.erase u).total
      fun _ e => e.bytes := by
    change (s.units.insert u _).total _ = _
    rw [Table.total_insert, bytes_admitted]
  have parts : s.byteCount = (s.units.get? u).elim 0 (·.bytes) + (s.units.erase u).total
    fun _ e => e.bytes :=
    Table.total_split u
  change s.totalBytes.replace _ bytes = _
  rw [sums] at fits ⊢
  rw [ok.total, parts]
  exact Counter.replace_holding fits

theorem Ok.checks_afterInsert (ok : s.Ok) (o : ObjectId) :
    ((s.afterInsert u bytes independent now).objectChecks o).map Prod.fst =
    if s.trackChecks = true ∧ 0 < (s.afterInsert u bytes independent now).objectCount o
    then some ((s.afterInsert u bytes independent now).objectCount o) else none := by
  have was := ok.checks o
  rw [objectCount_afterInsert]
  unfold afterInsert countCheck
  cases found : s.units.get? u with
  | some => simpa [found] using was
  | none =>
    cases track : s.trackChecks with
    | false => simpa [found, track] using was
    | true =>
      by_cases own : o = u.block.object
      · subst own
        cases held : s.objectChecks u.block.object with
        | none =>
          have none_yet : s.objectCount u.block.object = 0 := by simpa [held, track] using was
          simp [none_yet]
        | some record =>
          have counted : record.1 = s.objectCount u.block.object := by
            rw [held, map_some] at was
            split at was
            · exact some.inj was
            · cases was
          simp [counted]
      · have other : ¬u.block.object = o := fun same => own same.symm
        simpa [track, own, other] using was

theorem Ok.versions_released (ok : s.Ok) {t : Lru} {still : Bool}
    (counted : still = true ↔ s.VersionedBeside u u.block)
    (after : ∀ b, t.Versioned b ↔ s.VersionedBeside u b) :
    (if still = true then s.versions else s.versions.remove u.block).Ok ∧ ∀ b,
      (if still = true then s.versions else s.versions.remove u.block).Contains b ↔
        t.Versioned b := by
  have before := fun b => (ok.versions b).trans (versioned_iff s u b)
  by_cases left : still = true
  · rw [if_pos left]
    refine ⟨ok.versionIndex, fun b => ?_⟩
    by_cases own : u.block = b
    · subst own
      simp [after, before, counted.mp left]
    · simp [after, before, own]
  · rw [if_neg left]
    refine ⟨VersionIndex.ok_remove ok.versionIndex, fun b => ?_⟩
    rw [VersionIndex.contains_remove ok.versionIndex]
    by_cases own : u.block = b
    · subst own
      simp [after, mt counted.mpr left]
    · simp [after, before, own, Ne.symm own]

theorem Ok.versions_afterInsert (bytes now : Nat) (ok : s.Ok)
    (allowed : u.kind.Allows independent) :
    (s.afterInsert u bytes independent now).versions.Ok ∧ ∀ b,
      (s.afterInsert u bytes independent now).versions.Contains b ↔
      (s.afterInsert u bytes independent now).Versioned b := by
  have after : ∀ b, (s.afterInsert u bytes independent now).Versioned b ↔
      u.block = b ∧ independent = false ∨ s.VersionedBeside u b := by
    intro b
    rw [versioned_set (t := s.afterInsert u bytes independent now) (n := some _) rfl]
    simp [independent_admitted]
  have before := fun b => (ok.versions b).trans (versioned_iff s u b)
  have joins : ∀ b, (s.versions.insert u.block).Contains b ↔ u.block = b ∨
      s.versions.Contains b := by
    intro b
    rw [VersionIndex.contains_insert ok.versionIndex, or_comm, eq_comm]
  have joined : (s.versions.insert u.block).Ok := VersionIndex.ok_insert ok.versionIndex
  change (s.versionsAfter u (s.admitted u bytes independent)).Ok ∧
    ∀ b, (s.versionsAfter u (s.admitted u bytes independent)).Contains b ↔ _
  unfold versionsAfter
  rw [independent_admitted]
  cases found : s.units.get? u with
  | none =>
    cases independent with
    | true => exact ⟨ok.versionIndex, fun b => by simp [after, before, found]⟩
    | false =>
      refine ⟨joined, fun b => ?_⟩
      simp [after, before, found, joins]
  | some e =>
    simp only
    by_cases kept : e.independent = independent
    · rw [if_pos kept]
      refine ⟨ok.versionIndex, fun b => ?_⟩
      simp [after, before, found, kept]
    · rw [if_neg kept]
      cases independent with
      | false =>
        refine ⟨joined, fun b => ?_⟩
        have was := Bool.eq_true_of_not_eq_false kept
        simp [after, before, found, joins, was]
      | true =>
        have was := Bool.eq_false_of_not_eq_true kept
        have lens : (s.setUnit u (s.admitted u bytes true)).lens u.block =
            (s.setUnit u (s.admitted u bytes true)).unitCount u.block := by
          rw [unitCount_set (t := s.setUnit u (s.admitted u bytes true)) rfl found]
          exact ok.lens u.block
        have kinds : ∀ v x, (s.setUnit u (s.admitted u bytes true)).units.get? v = some x →
            v.kind.Allows x.independent := by
          intro v x held
          rcases of_get?_set (n := some _) rfl held with ⟨rfl, ⟨⟩⟩ | ⟨_, old⟩
          · rw [independent_admitted]
            exact allowed
          · exact ok.kinds v x old
        have counted := hasVersionedUnits_iff kinds lens
        rw [versioned_set (n := some _) rfl] at counted
        simp only [some.injEq, exists_eq_left', independent_admitted, Bool.true_eq_false, and_false,
          false_or] at counted
        simp only [if_true, removeVersion_eq]
        exact ok.versions_released counted fun b => by simp [after]

theorem Ok.counted_afterInsert (ok : s.Ok) (allowed : u.kind.Allows independent)
    (fits : (s.afterInsert u bytes independent now).byteCount < 2 ^ 64) :
    (s.afterInsert u bytes independent now).Counted := by
  obtain ⟨index, contains⟩ := ok.versions_afterInsert bytes now allowed
  refine ok.toCounted.set (n := some _) rfl ok.unitPlace_admitted (ok.total_afterInsert fits) fits
    (fun b => ?_)
    index contains ok.checks_afterInsert (le_succ s.clock) ?_
  · rw [unitCount_afterInsert]
    unfold afterInsert
    cases found : s.units.get? u <;> by_cases own : b = u.block <;>
      simp [own, ok.lens, eq_comm]
  · rintro _ ⟨⟩
    refine ⟨by rw [independent_admitted]; exact allowed, ?_⟩
    unfold admitted
    cases found : s.units.get? u with
    | none => exact ⟨lt_succ_self _, lt_succ_self _⟩
    | some e =>
      have old := ok.unitPast u e found
      exact ⟨lt_succ_of_lt old.1, lt_succ_of_lt old.2⟩

theorem Ok.recorded_afterInsert (ok : s.Ok) : (s.afterInsert u bytes independent now).Recorded := by
  have here : 0 < (s.afterInsert u bytes independent now).unitCount u.block :=
    Table.total_pos_iff.mpr ⟨u, _, Table.get?_insert_self, by rw [if_pos rfl]; exact zero_lt_one⟩
  have others : ∀ c, c ≠ u.block → (0 < (s.afterInsert u bytes independent now).unitCount c ↔
    0 < s.unitCount c) ∧
      (s.afterInsert u bytes independent now).pinCount c = s.pinCount c := by
    intro c other
    rw [unitCount_afterInsert, pinCount_afterInsert, if_neg fun both => other both.1.symm]
    exact ⟨Iff.rfl, rfl⟩
  have fresh : ∀ c d, s.activity c = some d →
      s.clock ≠ d.revision ∧ s.clock ≠ d.ownershipPosition ∧ d.revision ≠ s.clock ∧
      d.position ≠ s.clock := by
    intro c d held
    have before := ok.blockPast c d held
    omega
  have unowned : ∀ c, s.ownershipPlace c ≠ some s.clock := by
    intro c same
    obtain ⟨a, held, here⟩ := map_eq_some_iff.mp same
    exact (fresh c a held).2.1 here.symm
  have unplaced : ∀ c, s.blockPlace c ≠ some s.clock := by
    intro c same
    obtain ⟨a, held, here⟩ := map_eq_some_iff.mp same
    exact (fresh c a held).2.2.2 here
  cases held : s.activity u.block with
  | none =>
    have absent : s.blockPlace u.block = none := by rw [blockPlace, held, map_none]
    have unqueued : s.ownershipPlace u.block = none := by rw [ownershipPlace, held, map_none]
    cases track : s.trackBlocks with
    | false =>
      refine ok.toRecorded.set (n := none) ?_ rfl (by simp [track]) others ?_ ?_ (le_succ _)
        fun _ new => by cases new
      · simp [afterInsert, recordAfter, held, track]
      · simpa [afterInsert, track] using ok.blockQueue.keep absent
      · simpa [afterInsert, queueAfter, held, track] using ok.ownershipQueue.keep unqueued
    | true =>
      have none_pinned : s.pinCount u.block = 0 := by
        by_contra pinned
        obtain ⟨v, e, found, positive⟩ := Table.total_pos_iff.mp (pos_of_ne_zero pinned)
        split at positive
        · rename_i own
          obtain ⟨a, recorded⟩ := ok.recorded found track
          rw [own, held] at recorded
          cases recorded
        · exact lt_irrefl 0 positive
      refine ok.toRecorded.set (n := some ⟨0, s.clock, s.clock, s.clock, true, now⟩) ?_ rfl
        (iff_of_true rfl ⟨track, here⟩) others ?_ ?_ (le_succ _) ?_
      · simp [afterInsert, recordAfter, held, track]
      · simpa [afterInsert, held, track] using ok.blockQueue.insert absent unplaced
      · simpa [afterInsert, queueAfter, held, track] using ok.ownershipQueue.insert unqueued unowned
      · rintro _ ⟨⟩
        rw [pinCount_afterInsert]
        exact ⟨none_pinned.symm, ⟨lt_succ_self _, lt_succ_self _, lt_succ_self _⟩,
          fun c d _ other => ⟨(fresh c d other).1, (fresh c d other).2.1, (fresh c d other).2.2.1⟩⟩
  | some a =>
    have past := ok.blockPast u.block a held
    have place : s.ownershipPlace u.block = some a.ownershipPosition := by
      rw [ownershipPlace, held, map_some]
    refine ok.toRecorded.set (n := some { a with
        revision := s.clock
        ownershipPosition := if a.ownershipPending then a.ownershipPosition else s.clock
        ownershipPending := true
        access := max a.access now }) ?_ rfl
      (iff_of_true rfl ⟨((ok.tracked u.block).mp (by rw [held]; rfl)).1, here⟩) others ?_ ?_
      (le_succ _) ?_
    · simp [afterInsert, recordAfter, held]
    · simpa [afterInsert, held] using ok.blockQueue.keep (by rw [blockPlace, held, map_some])
    · simp only [afterInsert, queueAfter, held, map_some]
      split
      · exact ok.ownershipQueue.keep place
      · exact ok.ownershipQueue.move place unowned
    · rintro _ ⟨⟩
      rw [pinCount_afterInsert]
      refine ⟨ok.pins u.block a held, ?_, fun c d other recorded => ?_⟩
      · change a.position < s.clock + 1 ∧ s.clock < s.clock + 1 ∧ (if _ then _ else _) < s.clock + 1
        split <;> omega
      · have new := fresh c d recorded
        refine ⟨new.1, new.2.1, ?_⟩
        split
        · exact (ok.apart c u.block d a recorded held other).2
        · exact new.2.2.1

/-- Every admission goes through while the clock has room and keeps the policy in step while the
bytes fit the counter. -/
theorem Ok.insert (ok : s.Ok) (room : s.ticks = true) (page : u.kind.isPage = true →
    independent = false)
    (fits : bytes + (s.units.erase u).total (fun _ e => e.bytes) < 2 ^ 64) :
    let t := s.afterInsert u bytes (independent || u.kind == .exactRange) now
    s.insert u bytes independent now = some t ∧ t.Ok := by
  intro t
  have allowed : u.kind.Allows (independent || u.kind == .exactRange) := by
    refine ⟨fun paged => ?_, fun exact => ?_⟩
    · rw [page paged, Bool.false_or, beq_eq_false_iff_ne]
      intro exact
      rw [exact] at paged
      cases paged
    · rw [exact, beq_self_eq_true, Bool.or_true]
  have goes : ¬((independent || u.kind == .exactRange) && u.kind.isPage) = true := by
    intro both
    rw [Bool.and_eq_true] at both
    rw [allowed.1 both.2] at both
    exact Bool.false_ne_true both.1
  have same : s.insert u bytes independent now = s.insert u bytes
      (independent || u.kind == .exactRange) now := by
    unfold Lru.insert
    rw [Bool.or_assoc, Bool.or_self]
  have known : ∀ e, s.units.get? u = some e → s.trackBlocks = true → s.activity u.block ≠ none := by
    intro e found track absent
    obtain ⟨a, recorded⟩ := ok.recorded found track
    rw [absent] at recorded
    cases recorded
  rw [same, insert_eq room (fun a held _ => ?_) known goes allowed.2]
  on_goal 2 =>
    rw [ok.ownershipQueue a.ownershipPosition u.block, ownershipPlace, held]
    rfl
  refine ⟨rfl, ok.counted_afterInsert allowed ?_, ok.recorded_afterInsert⟩
  change (s.units.insert u _).total _ < 2 ^ 64
  rw [Table.total_insert, bytes_admitted]
  exact fits

end Admit

end Lru

end Talon.Worker
