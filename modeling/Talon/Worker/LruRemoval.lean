import Talon.Worker.LruAdmission

/-!
# Removal

A removal takes the unit out of every structure; the block's record and its two queue entries go
with the last unit, the object's check with its last unit, and the block's version with its last
versioned unit.
-/

set_option autoImplicit false

namespace Talon.Worker

open Talon.Core Function Option Table

namespace Lru

variable {s t : Lru} {u : CacheUnit} {e : PolicyEntry}

def forget (s : Lru) (u : CacheUnit) : Lru :=
  { s with units := s.units.erase u, lens := Function.update s.lens u.block (s.lens u.block - 1) }

def checksWithout (s : Lru) (o : ObjectId) : ObjectId → Option (Nat × Option Nat) :=
  match s.objectChecks o with
  | none => s.objectChecks
  | some (n, verified) =>
    Function.update s.objectChecks o (if n = 1 then none else some (n - 1, verified))

def queueWithout (s : Lru) (b : BlockId) (queue : SortedMap Nat BlockId) (key : BlockPolicy → Nat) :
    SortedMap Nat BlockId :=
  match s.activity b with
  | none => queue
  | some a => if s.lens b = 1 then queue.erase (key a) else queue

def without (s : Lru) (u : CacheUnit) (e : PolicyEntry) : Lru :=
  { s.forget u with
    activity := Function.update s.activity u.block (if s.lens u.block = 1 then none
      else (s.activity u.block).map fun a => { a with pins := a.pins - e.pins })
    queue := s.queue.erase e.position
    versions := if e.independent then s.versions else ((s.forget u).removeVersion u.block).versions
    blockQueue := s.queueWithout u.block s.blockQueue (·.position)
    ownershipQueue := s.queueWithout u.block s.ownershipQueue (·.ownershipPosition)
    objectChecks := s.checksWithout u.block.object
    totalBytes := s.totalBytes.replace e.bytes 0 }

theorem total_without (units : t.units = s.units.erase u) (found : s.units.get? u = some e)
    (w : CacheUnit → PolicyEntry → Nat) : s.units.total w = w u e + t.units.total w := by
  rw [units]
  exact total_eq found

theorem unitCount_without (found : s.units.get? u = some e) (b : BlockId) :
    s.unitCount b = (if u.block = b then 1 else 0) + (s.forget u).unitCount b :=
  total_without rfl found _

theorem Ok.unchecked (ok : s.Ok) (track : s.trackChecks ≠ true) (o : ObjectId) :
    s.objectChecks o = none := by
  have was := ok.checks o
  rwa [if_neg fun both => track both.1, map_eq_none_iff] at was

section Counts

variable (ok : s.Ok) (found : s.units.get? u = some e)
include ok found

theorem Ok.lens_without (b : BlockId) : (s.forget u).lens b = (s.forget u).unitCount b := by
  have count := unitCount_without found b
  have lens := ok.lens b
  change update s.lens u.block _ b = _
  by_cases own : b = u.block
  · subst own
    simp only [if_true] at count
    simp only [update_self]
    omega
  · rw [if_neg (Ne.symm own)] at count
    rw [update_of_ne own]
    omega

theorem Ok.policyRemove_eq : s.policyRemove u = some (s.forget u) := by
  have count := unitCount_without found u.block
  have lens := ok.lens u.block
  rw [if_pos rfl] at count
  unfold policyRemove forget
  simp only
  rw [if_neg (by omega)]
  split
  · have none_left : (s.units.erase u).entries.filter (fun e => e.1.block ≠ u.block) =
        (s.units.erase u).entries := by
      rw [List.filter_eq_self]
      intro _ mem
      rw [decide_eq_true_eq]
      intro same
      have part := le_total (w := fun v _ => if v.block = u.block then 1 else 0)
        (mem_entries_iff.mp mem)
      rw [if_pos same] at part
      change 1 ≤ (s.forget u).unitCount u.block at part
      omega
    simp only [none_left]
  · rfl

theorem Ok.checked (track : s.trackChecks = true) :
    ∃ verified, s.objectChecks u.block.object = some (s.objectCount u.block.object, verified) ∧
      0 < s.objectCount u.block.object := by
  have positive : 0 < s.objectCount u.block.object :=
    total_pos_iff.mpr ⟨u, e, found, by rw [if_pos rfl]; exact Nat.zero_lt_one⟩
  have was := ok.checks u.block.object
  rw [if_pos ⟨track, positive⟩] at was
  obtain ⟨⟨n, verified⟩, held, rfl⟩ := map_eq_some_iff.mp was
  exact ⟨verified, held, positive⟩

theorem Ok.remove_eq : s.remove u = some (some e.bytes, s.without u e) := by
  have removed := ok.policyRemove_eq found
  have lens : s.lens u.block = 1 ∨ s.lens u.block - 1 ≠ 0 ∧ s.lens u.block ≠ 1 := by
    have count := unitCount_without found u.block
    have counted := ok.lens u.block
    rw [if_pos rfl] at count
    omega
  have block : s.activity u.block = none ∧ s.trackBlocks = false ∨
      ∃ a, s.activity u.block = some a ∧ s.trackBlocks = true ∧ ¬a.pins < e.pins := by
    cases track : s.trackBlocks with
    | false =>
      refine .inl ⟨?_, rfl⟩
      rw [← not_isSome_iff_eq_none, ok.tracked, track]
      simp
    | true =>
      obtain ⟨a, held⟩ := ok.recorded found track
      exact .inr ⟨a, held, rfl, Nat.not_lt.mpr (ok.pins_le found held)⟩
  have object : s.objectChecks u.block.object = none ∨
      ∃ n verified, s.objectChecks u.block.object = some (n + 1, verified) := by
    by_cases track : s.trackChecks = true
    · obtain ⟨verified, held, positive⟩ := ok.checked found track
      exact .inr ⟨s.objectCount u.block.object - 1,
        verified, by rw [held, Nat.sub_add_cancel positive]⟩
    · exact .inl (ok.unchecked track _)
  unfold Lru.remove without
  rcases block with ⟨held, track⟩ | ⟨a, _, _, _⟩ <;>
    rcases object with checks | ⟨n, _, _⟩ <;> rcases lens with _ | ⟨_, _⟩ <;>
    cases independent : e.independent <;>
    simp [removeFromBlock, uncountCheck, forget, updateBlock, queueWithout, checksWithout,
      removeVersion_eq, hasVersionedUnits, *]

theorem Ok.checks_without (o : ObjectId) : (s.checksWithout u.block.object o).map Prod.fst =
    if s.trackChecks = true ∧ 0 < (s.forget u).objectCount o
    then some ((s.forget u).objectCount o) else none := by
  have count : s.objectCount o = (if u.block.object = o then 1 else 0) +
    (s.forget u).objectCount o :=
    total_without rfl found _
  have was := ok.checks o
  unfold checksWithout
  by_cases track : s.trackChecks = true
  · obtain ⟨_, held, _⟩ := ok.checked found track
    by_cases own : o = u.block.object
    · subst own
      rw [if_pos rfl] at count
      by_cases last : s.objectCount u.block.object = 1
      · have none_left : (s.forget u).objectCount u.block.object = 0 := by omega
        simp [held, last, none_left]
      · have left : (s.forget u).objectCount u.block.object = s.objectCount
          u.block.object - 1 := by omega
        have more : 0 < s.objectCount u.block.object - 1 := by omega
        simp [held, update_self, if_neg last, map_some, left, track, more, and_self]
    · have other : ¬u.block.object = o := fun same => own same.symm
      rw [if_neg other, Nat.zero_add] at count
      simpa [held, own, count] using was
  · simp [ok.unchecked track, track]

theorem Ok.versions_without : (s.without u e).versions.Ok ∧
    ∀ b, (s.without u e).versions.Contains b ↔ (s.without u e).Versioned b := by
  have beside : ∀ {t : Lru}, t.units = s.units.erase u → ∀ b, t.Versioned b ↔
    s.VersionedBeside u b :=
    fun units b => by simp [versioned_set (n := none) units]
  have after : ∀ b, (s.without u e).Versioned b ↔ s.VersionedBeside u b := beside rfl
  have before := fun b => (ok.versions b).trans (versioned_iff s u b)
  have kinds : ∀ v x, (s.forget u).units.get? v = some x → v.kind.Allows x.independent :=
    fun v x held => (of_get?_set (n := none) rfl held).elim (fun gone => by cases gone.2)
      fun kept =>
      ok.kinds v x kept.2
  have counted := hasVersionedUnits_iff kinds (ok.lens_without found u.block)
  rw [beside rfl] at counted
  change (if e.independent then s.versions else _).Ok ∧
    ∀ b, (if e.independent then s.versions else _).Contains b ↔ _
  cases independent : e.independent with
  | true => exact ⟨ok.versionIndex, fun b => by simp [after, before, found, independent]⟩
  | false =>
    simp only [Bool.false_eq_true, if_false, removeVersion_eq]
    exact ok.versions_released counted after

theorem Ok.counted_without : (s.without u e).Counted := by
  have sums : s.byteCount = e.bytes + (s.without u e).byteCount := total_without rfl found _
  have fits := ok.fits
  refine ok.toCounted.set (n := none) rfl (ok.queue.erase (by rw [unitPlace, found, map_some]))
    ?_ (by omega)
    (ok.lens_without found) (ok.versions_without found).1 (ok.versions_without found).2
    (ok.checks_without found) (Nat.le_refl _) fun _ new => by cases new
  have replaced : (Counter.holding (e.bytes + (s.without u e).byteCount) : Counter 64).replace
    e.bytes 0 =
      .holding (0 + (s.without u e).byteCount) := Counter.replace_holding (by omega)
  change s.totalBytes.replace e.bytes 0 = _
  rw [ok.total, sums, replaced, Nat.zero_add]

theorem Ok.recorded_without : (s.without u e).Recorded := by
  have count := unitCount_without found u.block
  have lens := ok.lens u.block
  rw [if_pos rfl] at count
  have pins : ∀ c, s.pinCount c = (if u.block = c then e.pins else 0) +
    (s.without u e).pinCount c :=
    fun c => total_without rfl found _
  have others : ∀ c, c ≠ u.block → (0 < (s.without u e).unitCount c ↔ 0 < s.unitCount c) ∧
      (s.without u e).pinCount c = s.pinCount c := by
    intro c other
    have units := unitCount_without found c
    have pinned := pins c
    rw [if_neg other.symm, Nat.zero_add] at units pinned
    exact ⟨by rw [units]; rfl, pinned.symm⟩
  by_cases last : s.lens u.block = 1
  · have queues : ∀ (queue : SortedMap Nat BlockId) (key : BlockPolicy → Nat),
        queue.Inverts (fun b => (s.activity b).map key) → (s.queueWithout u.block queue key).Inverts
          (update (fun b => (s.activity b).map key) u.block none) := by
      intro _ key inverts
      unfold queueWithout
      cases held : s.activity u.block with
      | none => exact inverts.keep (by rw [held, map_none])
      | some =>
        simp only [if_pos last]
        exact inverts.erase (by simp only [held, map_some])
    have none_left : ¬0 < (s.without u e).unitCount u.block := by
      change ¬0 < (s.forget u).unitCount u.block
      omega
    exact ok.toRecorded.set (n := none) (by simp [without, last]) rfl
      (iff_of_false Bool.false_ne_true fun both => none_left both.2) others
      (queues _ _ ok.blockQueue)
      (queues _ _ ok.ownershipQueue) (Nat.le_refl _) fun _ new => by cases new
  · have same : s.without u e = { s.without u e with
        activity := (s.updateBlock u.block fun a => { a with pins := a.pins - e.pins }).activity
        trackBlocks := s.trackBlocks, blockQueue := s.blockQueue, ownershipQueue :=
        s.ownershipQueue } := by
      cases held : s.activity u.block <;> simp [without, forget, queueWithout,
        updateBlock, last, held]
    rw [same]
    refine ok.toRecorded.alter (fun c => ?_) (fun c other => (others c other).2) (fun a held => ?_)
      ⟨fun _ => rfl, fun _ => rfl, fun _ => rfl⟩ (Nat.le_refl _)
    · by_cases own : c = u.block
      · subst own
        change 0 < (s.forget u).unitCount u.block ↔ _
        omega
      · exact (others c own).1
    · have pinned := pins u.block
      have was := ok.pins u.block a held
      rw [if_pos rfl] at pinned
      simp only
      omega

end Counts

theorem Ok.remove (ok : s.Ok) (u : CacheUnit) :
    ∃ t, s.remove u = some ((s.units.get? u).map (·.bytes), t) ∧
    t.Ok ∧ t.units = s.units.erase u := by
  cases found : s.units.get? u with
  | none =>
    refine ⟨s, ?_, ok, (erase_of_absent found).symm⟩
    unfold Lru.remove
    rw [found]
    rfl
  | some e => exact ⟨s.without u e, ok.remove_eq found,
      ⟨ok.counted_without found, ok.recorded_without found⟩, rfl⟩

end Lru

end Talon.Worker
