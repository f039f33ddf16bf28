import Talon.Worker.LruRemoval

/-!
# Selection of candidates

Selecting a candidate sends its unit to the back of the queue, spends its reference and gives it a
new revision.  Every selection takes from the clock at most one position for each unit that it looks
at.
-/

set_option autoImplicit false

namespace Talon.Worker

open Talon.Core List Option

namespace Lru

variable {s t r : Lru} {u : CacheUnit} {e e' : PolicyEntry}

theorem updateUnit_eq {f : PolicyEntry → PolicyEntry} (found : s.units.get? u = some e) :
    s.updateUnit u f = s.setUnit u (f e) := by
  unfold updateUnit Lru.setUnit
  rw [found]

theorem ticks_iff : s.ticks = true ↔ s.clock + 1 < 2 ^ 64 := decide_eq_true_iff

structure Selected (s t : Lru) (n : Nat) : Prop where
  ok : t.Ok
  known : ∀ v, (t.units.get? v).isSome = (s.units.get? v).isSome
  late : t.clock ≤ s.clock + n

theorem Selected.refl (ok : s.Ok) (n : Nat) : Selected s s n :=
    ⟨ok, fun _ => rfl, Nat.le_add_right _ _⟩

theorem Selected.trans {n m : Nat} (first : Selected s t n) (second : Selected t r m) :
    Selected s r (m + n) where
  ok := second.ok
  known v := (second.known v).trans (first.known v)
  late := by
    have := first.late
    have := second.late
    omega

theorem isSome_set (found : s.units.get? u = some e) (units : t.units = s.units.insert u e')
    (v : CacheUnit) : (t.units.get? v).isSome = (s.units.get? v).isSome := by
  rw [units, Table.get?_insert]
  split
  · rename_i same
    rw [same, found]
    rfl
  · rfl

theorem Ok.selected_moveBack (ok : s.Ok) (found : s.units.get? u = some e) :
    Selected s (s.moveBack u e) 1 :=
  ⟨ok.moveBack found, isSome_set found rfl, Nat.le_refl _⟩

theorem Ok.visit (ok : s.Ok) (found : s.units.get? u = some e) (room : s.ticks = true) :
    ∃ t, (s.updateUnit u fun e => { e with referenced := false }).rotate u = some (s.clock, t) ∧
      Selected s (t.updateUnit u fun e => { e with revision := s.clock }) 1 := by
  have spent : (s.setUnit u { e with referenced := false }).Ok :=
    ok.setUnit found rfl rfl rfl rfl (ok.unitPast u e found).2
  have found₁ : (s.setUnit u { e with referenced := false }).units.get?
    u = some { e with referenced := false } :=
    Table.get?_insert_self
  have moved := spent.selected_moveBack found₁
  have found₂ :
    ((s.setUnit u { e with referenced := false }).moveBack u
      { e with referenced := false }).units.get? u =
      some { e with referenced := false, position := s.clock } := Table.get?_insert_self
  have turned := rotate_eq spent found₁ room
  rw [updateUnit_eq found]
  refine ⟨_, turned, ?_⟩
  rw [updateUnit_eq found₂]
  exact ⟨moved.ok.setUnit found₂ rfl rfl rfl rfl (Nat.lt_succ_self s.clock), fun v =>
    (isSome_set found₂ rfl v).trans ((moved.known v).trans (isSome_set found rfl v)), Nat.le_refl _⟩

theorem Ok.snapshot (ok : s.Ok) (found : s.units.get? u = some e) (room : s.ticks = true) :
    ∃ t, s.snapshot u = some (⟨u, s.clock⟩, t) ∧ Selected s t 1 := by
  obtain ⟨t, rotated, selected⟩ := ok.visit found room
  refine ⟨_, ?_, selected⟩
  unfold Lru.snapshot
  simp [found, bind_eq_bind, bind_some, rotated]

theorem Ok.snapshots {units : List CacheUnit} (ok : s.Ok)
    (known : ∀ u ∈ units, (s.units.get? u).isSome = true) (room : s.clock + units.length < 2 ^ 64) :
    ∃ cs t, s.snapshots units = some (cs, t) ∧ t.Ok := by
  induction units generalizing s with
  | nil => exact ⟨[], s, rfl, ok⟩
  | cons u _ ih =>
    obtain ⟨e, found⟩ := isSome_iff_exists.mp (known u mem_cons_self)
    rw [length_cons] at room
    obtain ⟨t, taken, selected⟩ := ok.snapshot found (ticks_iff.mpr (by omega))
    have late := selected.late
    obtain ⟨cs, r, rest, rok⟩ := ih selected.ok
      (fun v mem => (selected.known v).trans (known v (mem_cons_of_mem u mem))) (by omega)
    refine ⟨⟨u, s.clock⟩ :: cs, r, ?_, rok⟩
    simp [Lru.snapshots, taken, bind_eq_bind, bind_some, rest]

theorem of_mem_supersededUnits {keep : BlockId} (mem : u ∈ s.supersededUnits keep) :
    ∃ e, s.units.get? u = some e ∧ e.pins = 0 := by
  obtain ⟨b, _, inside⟩ := mem_flatMap.mp mem
  have selected := (mem_filter.mp inside).2
  rw [Option.any_eq_true] at selected
  obtain ⟨e, held, both⟩ := selected
  rw [Bool.and_eq_true, beq_iff_eq] at both
  exact ⟨e, held, both.2⟩

theorem known_supersededUnits (keep : BlockId) :
    ∀ u ∈ s.supersededUnits keep, (s.units.get? u).isSome = true := by
  intro u mem
  obtain ⟨e, held, _⟩ := of_mem_supersededUnits mem
  rw [held]
  rfl

theorem Ok.head (ok : s.Ok) {p : Nat} (first : s.queue.entries.head? = some (p, u)) :
    ∃ e, s.units.get? u = some e := by
  have queued := SortedMap.mem_entries_iff.mp (mem_of_mem_head? first)
  obtain ⟨e, held, _⟩ := map_eq_some_iff.mp ((ok.queue p u).mp queued)
  exact ⟨e, held⟩

theorem Ok.examine (ok : s.Ok) (room : s.ticks = true) (w : Walk) (excluded : List CacheUnit)
    (secondPass : Bool) :
    ∃ w' t, s.examine w excluded secondPass = some (w', t) ∧ Selected s t 1 := by
  unfold Lru.examine
  cases first : s.queue.entries.head? with
  | none => exact ⟨_, s, rfl, .refl ok 1⟩
  | some entry =>
    obtain ⟨p, u⟩ := entry
    obtain ⟨e, found⟩ := ok.head first
    simp only [found, bind_eq_bind, bind_some]
    by_cases eligible : (e.pins == 0 && !w.selected.contains u && !excluded.contains u) = true
    · obtain ⟨t, rotated, selected⟩ := ok.visit found room
      simp only [eligible, if_true, rotated, bind_some]
      exact ⟨_, _, rfl, selected⟩
    · simp only [eligible, Bool.false_and, Bool.false_eq_true, if_false, rotate_eq ok found room,
        bind_some]
      exact ⟨_, _, rfl, ok.selected_moveBack found⟩

theorem Ok.walkQueue (capacity deleteBudget : Nat) (excluded : List CacheUnit) (secondPass : Bool)
    {n : Nat} (ok : s.Ok) (room : s.clock + n < 2 ^ 64) (w : Walk) :
    ∃ ended w' t, walkQueue capacity deleteBudget excluded secondPass n s w = some (ended, w', t) ∧
      Selected s t n := by
  induction n generalizing s w with
  | zero => exact ⟨false, w, s, rfl, .refl ok 0⟩
  | succ n ih =>
    unfold Lru.walkQueue
    split
    · exact ⟨true, w, s, rfl, .refl ok _⟩
    · obtain ⟨w₁, _, looked, selected⟩ := ok.examine (ticks_iff.mpr (by omega)) w
        excluded secondPass
      have late := selected.late
      obtain ⟨ended, w₂, s₂, rest, more⟩ := ih selected.ok (by omega) w₁
      refine ⟨ended, w₂, s₂, ?_, selected.trans more⟩
      simp [looked, bind_eq_bind, bind_some, rest]

theorem Ok.candidatesToFitBounded (ok : s.Ok) (capacity : Nat) (excluded : List CacheUnit)
    (scanBudget deleteBudget : Nat) (room : s.clock + 2 * s.queue.entries.length < 2 ^ 64) :
    ∃ cs t, s.candidatesToFitBounded capacity excluded scanBudget deleteBudget = some (cs, t) ∧
      t.Ok := by
  unfold Lru.candidatesToFitBounded
  split
  · exact ⟨[], s, rfl, ok⟩
  · obtain ⟨ended, w, t, walked, selected⟩ :=
      ok.walkQueue capacity deleteBudget excluded false (n := s.queue.entries.length) (by omega)
        ⟨[], [], 0, scanBudget⟩
    have late := selected.late
    simp only [walked, bind_eq_bind, bind_some]
    cases ended with
    | true => exact ⟨w.out, t, rfl, selected.ok⟩
    | false =>
      obtain ⟨_, w', t', walked', selected'⟩ :=
        selected.ok.walkQueue capacity deleteBudget excluded true (n := s.queue.entries.length)
        (by omega) w
      refine ⟨w'.out, t', ?_, selected'.ok⟩
      simp [walked', bind_some]

section Removals

theorem Ok.removeAll (ok : s.Ok) (units : List CacheUnit) :
    ∃ t, s.removeAll units = some t ∧ t.Ok := by
  induction units generalizing s with
  | nil => exact ⟨s, rfl, ok⟩
  | cons u _ ih =>
    obtain ⟨t, removed, tok, _⟩ := ok.remove u
    obtain ⟨r, rest, rok⟩ := ih tok
    refine ⟨r, ?_, rok⟩
    unfold Lru.removeAll
    rw [foldlM_cons, removed]
    exact rest

theorem Ok.evictSuperseded (ok : s.Ok) (keep : BlockId) :
    ∃ out t, s.evictSuperseded keep = some (out, t) ∧ t.Ok := by
  unfold Lru.evictSuperseded
  split
  · exact ⟨[], s, rfl, ok⟩
  · obtain ⟨t, removed, tok⟩ := ok.removeAll (s.supersededUnits keep)
    rw [removed]
    exact ⟨_, t, rfl, tok⟩

theorem Ok.evictCandidates (capacity : Nat) (cs : List EvictionCandidate) (ok : s.Ok) :
    ∃ out t, evictCandidates capacity cs s = some (out, t) ∧ t.Ok := by
  induction cs generalizing s with
  | nil => exact ⟨[], s, rfl, ok⟩
  | cons c _ ih =>
    unfold Lru.evictCandidates
    split
    · exact ⟨[], s, rfl, ok⟩
    · split
      · obtain ⟨t, removed, tok, _⟩ := ok.remove c.unit
        obtain ⟨out, r, rest, rok⟩ := ih tok
        refine ⟨c.unit :: out, r, ?_, rok⟩
        simp [removed, bind_eq_bind, bind_some, rest]
      · exact ih ok

theorem Ok.evictToFit (ok : s.Ok) (capacity : Nat)
    (room : s.clock + 2 * s.queue.entries.length < 2 ^ 64) :
    ∃ out t, s.evictToFit capacity = some (out, t) ∧ t.Ok := by
  obtain ⟨cs, t, found, tok⟩ := ok.candidatesToFitBounded capacity [] (2 ^ 64 - 1) (2 ^ 64 - 1) room
  obtain ⟨out, r, evicted, rok⟩ := tok.evictCandidates capacity cs
  refine ⟨out, r, ?_, rok⟩
  unfold Lru.evictToFit Lru.candidatesToFit
  rw [found]
  exact evicted

end Removals

section Ownership

variable {b : BlockId} {a : BlockPolicy} {lo hi : Nat}

theorem of_nextQueued {queue : SortedMap Nat BlockId} {p : Nat}
    (found : nextQueued queue lo hi = some (p, b)) : queue.get? p = some b ∧ lo ≤ p ∧ p < hi := by
  have inside := SortedMap.mem_entries_iff.mp (mem_of_find?_eq_some found)
  have range := find?_some found
  rw [Bool.and_eq_true, decide_eq_true_eq, decide_eq_true_eq] at range
  exact ⟨inside, range.1, range.2⟩

theorem Ok.nextOwnershipBlock (ok : s.Ok) (limit : Nat) (range : lo ≤ hi) :
    ∃ result t, s.nextOwnershipBlock lo hi limit = some (result, t) ∧ t.2.Ok := by
  unfold Lru.nextOwnershipBlock
  rw [if_neg (Nat.not_lt.mpr range)]
  cases found : nextQueued s.ownershipQueue lo hi with
  | none => exact ⟨none, (lo, s), rfl, ok⟩
  | some entry =>
    obtain ⟨p, b⟩ := entry
    obtain ⟨a, held, here⟩ :=
      map_eq_some_iff.mp ((ok.ownershipQueue p b).mp (of_nextQueued found).1)
    have recorded := (ok.tracked b).mp (by rw [held]; rfl)
    have past := ok.blockPast b a held
    have alone := fun c d (other : c ≠ b) at_c => ok.apart c b d a at_c held other
    have alone' := fun c d (other : c ≠ b) at_c => ok.apart b c a d held at_c other.symm
    have blocks := ok.blockQueue.keep (by rw [blockPlace, held, map_some])
    have place : s.ownershipPlace b = some p := by rw [ownershipPlace, held, map_some, here]
    simp only [held, bind_eq_bind, bind_some]
    refine ⟨_, (p + 1, _), rfl, ?_⟩
    by_cases moves : limit ≤ a.revision ∧ p ≠ a.revision
    · have free : ∀ c, s.ownershipPlace c ≠ some a.revision := by
        intro c taken
        by_cases own : c = b
        · rw [own, place] at taken
          exact moves.2 (some.inj taken)
        · obtain ⟨d, other, same⟩ := map_eq_some_iff.mp taken
          exact (alone' c d own other).2 same.symm
      rw [if_pos moves]
      refine ⟨⟨ok.queue, ok.total, ok.fits, ok.lens, ok.versionIndex, ok.versions, ok.checks,
        ok.kinds, ok.unitPast⟩, ok.toRecorded.set
        (n := some { a with ownershipPosition := a.revision, ownershipPending := true }) ?_ rfl
          (iff_of_true rfl recorded) (fun c _ => ⟨Iff.rfl, rfl⟩) blocks
          (ok.ownershipQueue.move place free) (Nat.le_refl _) ?_⟩
      · simp [updateBlock, held, moves.1]
      · rintro _ ⟨⟩
        exact ⟨ok.pins b a held, ⟨past.1, past.2.1, past.2.1⟩, fun c d other at_c =>
          ⟨(alone' c d other at_c).1, (alone' c d other at_c).2, (alone c d other at_c).1⟩⟩
    · rw [if_neg moves]
      have stays : (if limit ≤ a.revision then a.revision else a.ownershipPosition) = p := by
        split
        · rename_i late
          exact (Decidable.not_not.mp fun ne => moves ⟨late, ne⟩).symm
        · exact here
      refine ⟨⟨ok.queue, ok.total, ok.fits, ok.lens, ok.versionIndex, ok.versions, ok.checks, ok.kinds, ok.unitPast⟩,
        ok.toRecorded.set
          (n := some { a with ownershipPosition := p, ownershipPending := decide (limit ≤ a.revision) }) ?_ rfl
          (iff_of_true rfl recorded) (fun c _ => ⟨Iff.rfl, rfl⟩) blocks (ok.ownershipQueue.keep place)
          (Nat.le_refl _) ?_⟩
      · simp [updateBlock, held, stays]
      · rintro _ ⟨⟩
        exact ⟨ok.pins b a held, ⟨past.1, past.2.1, here ▸ past.2.2⟩, fun c d other at_c =>
          ⟨(alone' c d other at_c).1, (alone' c d other at_c).2, here ▸ (alone c d other at_c).2⟩⟩

theorem Ok.ageWalk (ok : s.Ok) (now age deleteBudget : Nat) (considerVerified : Bool)
    (hi n lo : Nat) (out : List StaleBlockCandidate) :
    ∃ result, s.ageWalk now age deleteBudget considerVerified hi n lo out = some result := by
  induction n generalizing lo out with
  | zero => exact ⟨_, rfl⟩
  | succ n ih =>
    unfold Lru.ageWalk
    cases found : nextQueued s.blockQueue lo hi with
    | none => exact ⟨_, rfl⟩
    | some entry =>
      obtain ⟨p, b⟩ := entry
      obtain ⟨a, held, _⟩ := map_eq_some_iff.mp ((ok.blockQueue p b).mp (of_nextQueued found).1)
      simp only [held, bind_eq_bind, bind_some]
      split
      · exact ih _ _
      · split
        · exact ih _ _
        · split
          · exact ⟨_, rfl⟩
          · exact ih _ _

theorem Ok.ageCandidates (ok : s.Ok) (cursor : Nat × Nat) (now age scanBudget deleteBudget : Nat)
    (considerVerified : Bool) :
    ∃ result, s.ageCandidates cursor now age scanBudget deleteBudget considerVerified =
      some result := by
  obtain ⟨_, walked⟩ := ok.ageWalk now age deleteBudget considerVerified
    (if cursor.2 ≤ cursor.1 then (0, s.clock) else cursor).2 scanBudget
    (if cursor.2 ≤ cursor.1 then (0, s.clock) else cursor).1 []
  unfold Lru.ageCandidates
  simp only [walked, map_some]
  exact ⟨_, rfl⟩

theorem Ok.staleVerified (ok : s.Ok) (o : ObjectId) (now : Nat) : (s.staleVerified o now).Ok := by
  refine ⟨⟨ok.queue, ok.total, ok.fits, ok.lens, ok.versionIndex, ok.versions, fun p => ?_,
    ok.kinds, ok.unitPast⟩,
    ⟨ok.tracked, ok.pins, ok.blockQueue, ok.ownershipQueue, ok.blockPast, ok.apart⟩⟩
  have was := ok.checks p
  change (Function.update s.objectChecks o _ p).map Prod.fst = _
  rw [Function.update_apply]
  split
  · rename_i same
    subst same
    rw [Option.map_map]
    exact was
  · exact was

end Ownership

end Lru

end Talon.Worker
