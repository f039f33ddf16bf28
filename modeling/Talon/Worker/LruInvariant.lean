import Talon.Worker.Lru

/-!
# What the eviction policy keeps

The queues, the block records, the version index, the object checks and the byte total repeat what
the tracked units say.  Every operation of the policy keeps them in step, and then none of its
`expect`s and subtractions fails.
-/

set_option autoImplicit false

namespace Talon.Worker

open Talon.Core Function Option Nat Table

/-- Pages are versioned, exact ranges are independent. -/
def UnitKind.Allows (kind : UnitKind) (independent : Bool) : Prop :=
  (kind.isPage = true → independent = false) ∧ (kind = .exactRange → independent = true)

namespace Lru

def unitPlace (s : Lru) (u : CacheUnit) : Option Nat := (s.units.get? u).map (·.position)

def blockPlace (s : Lru) (b : BlockId) : Option Nat := (s.activity b).map (·.position)

def ownershipPlace (s : Lru) (b : BlockId) : Option Nat := (s.activity b).map (·.ownershipPosition)

def byteCount (s : Lru) : Nat := s.units.total fun _ e => e.bytes

def unitCount (s : Lru) (b : BlockId) : Nat := s.units.total fun u _ => if u.block = b then 1 else 0

def pinCount (s : Lru) (b : BlockId) : Nat := s.units.total fun u e =>
    if u.block = b then e.pins else 0

def objectCount (s : Lru) (o : ObjectId) : Nat :=
  s.units.total fun u _ => if u.block.object = o then 1 else 0

/-- The block has a unit that later versions of its object supersede. -/
def Versioned (s : Lru) (b : BlockId) : Prop :=
  ∃ u e, s.units.get? u = some e ∧ u.block = b ∧ e.independent = false

structure Counted (s : Lru) : Prop where
  /-- The queue is a bijection between positions and units. -/
  queue : s.queue.Inverts s.unitPlace
  total : s.totalBytes = .holding s.byteCount
  fits : s.byteCount < 2 ^ 64
  lens : ∀ b, s.lens b = s.unitCount b
  versionIndex : s.versions.Ok
  versions : ∀ b, s.versions.Contains b ↔ s.Versioned b
  checks : ∀ o, (s.objectChecks o).map Prod.fst =
    if s.trackChecks = true ∧ 0 < s.objectCount o then some (s.objectCount o) else none
  kinds : ∀ u e, s.units.get? u = some e → u.kind.Allows e.independent
  unitPast : ∀ u e, s.units.get? u = some e → e.position < s.clock ∧ e.revision < s.clock

structure Recorded (s : Lru) : Prop where
  tracked : ∀ b, (s.activity b).isSome ↔ s.trackBlocks = true ∧ 0 < s.unitCount b
  pins : ∀ b a, s.activity b = some a → a.pins = s.pinCount b
  blockQueue : s.blockQueue.Inverts s.blockPlace
  ownershipQueue : s.ownershipQueue.Inverts s.ownershipPlace
  blockPast : ∀ b a, s.activity b = some a →
    a.position < s.clock ∧ a.revision < s.clock ∧ a.ownershipPosition < s.clock
  /-- The latest admission of a block is recorded of no other block. -/
  apart : ∀ b c a d, s.activity b = some a → s.activity c = some d → b ≠ c →
    a.revision ≠ d.revision ∧ a.revision ≠ d.ownershipPosition

structure Ok (s : Lru) : Prop extends Counted s, Recorded s

theorem ok_withTracking (digest : BlockId → Nat) (trackChecks trackBlocks : Bool) :
    (withTracking digest trackChecks trackBlocks).Ok where
  queue p u := by simp [withTracking, unitPlace]
  total := rfl
  fits := Nat.two_pow_pos 64
  lens _ := rfl
  versionIndex := VersionIndex.ok_new digest
  versions b := by
    refine iff_of_false (VersionIndex.not_contains_new digest b) ?_
    rintro ⟨u, e, found, _⟩
    cases found
  checks o := by simp [withTracking, objectCount]
  kinds u e found := by cases found
  unitPast u e found := by cases found
  tracked b := by simp [withTracking, unitCount]
  pins b a found := by cases found
  blockQueue p b := by simp [withTracking, blockPlace]
  ownershipQueue p b := by simp [withTracking, ownershipPlace]
  blockPast b a found := by cases found
  apart b c a d found := by cases found

variable {s t : Lru} {u : CacheUnit} {e e' : PolicyEntry}

def VersionedBeside (s : Lru) (u : CacheUnit) (b : BlockId) : Prop :=
  ∃ v e, v ≠ u ∧ s.units.get? v = some e ∧ v.block = b ∧ e.independent = false

theorem versioned_iff (s : Lru) (u : CacheUnit) (b : BlockId) : s.Versioned b ↔
    (∃ e, s.units.get? u = some e ∧ u.block = b ∧ e.independent = false) ∨
      s.VersionedBeside u b := by
  constructor
  · rintro ⟨v, e, held, own, versioned⟩
    by_cases here : v = u
    · subst here
      exact .inl ⟨e, held, own, versioned⟩
    · exact .inr ⟨v, e, here, held, own, versioned⟩
  · rintro (⟨e, held, own, versioned⟩ | ⟨v, e, _, held, own, versioned⟩)
    · exact ⟨u, e, held, own, versioned⟩
    · exact ⟨v, e, held, own, versioned⟩

section Set

/-! One unit's record is written or taken out. -/

variable {n : Option PolicyEntry} (units : t.units = n.elim (s.units.erase u) (s.units.insert u))
include units

theorem get?_set (v : CacheUnit) : t.units.get? v = if v = u then n else s.units.get? v := by
  rw [units]
  cases n with
  | none => exact get?_erase
  | some => exact get?_insert

theorem unitPlace_set : t.unitPlace = update s.unitPlace u (n.map (·.position)) := by
  funext j
  unfold unitPlace
  rw [get?_set units, update_apply]
  split <;> rfl

theorem total_set (w : CacheUnit → PolicyEntry → Nat) :
    t.units.total w + (s.units.get? u).elim 0 (w u) = s.units.total w + n.elim 0 (w u) := by
  have parts := total_split (m := s.units) (w := w) u
  rw [units]
  cases n with
  | none => exact (Nat.add_comm ..).trans parts.symm
  | some =>
    simp only [elim_some, total_insert]
    omega

theorem of_get?_set {v : CacheUnit} {x : PolicyEntry} (held : t.units.get? v = some x) :
    v = u ∧ n = some x ∨ v ≠ u ∧ s.units.get? v = some x := by
  rw [get?_set units] at held
  split at held
  · exact .inl ⟨‹_›, held⟩
  · exact .inr ⟨‹_›, held⟩

theorem versioned_set (b : BlockId) :
    t.Versioned b ↔ (∃ e, n = some e ∧ u.block = b ∧ e.independent = false) ∨
      s.VersionedBeside u b := by
  constructor
  · rintro ⟨v, x, held, own, versioned⟩
    rcases of_get?_set units held with ⟨rfl, rfl⟩ | ⟨other, before⟩
    · exact .inl ⟨x, rfl, own, versioned⟩
    · exact .inr ⟨v, x, other, before, own, versioned⟩
  · rintro (⟨e, written, own, versioned⟩ | ⟨v, x, other, before, own, versioned⟩)
    · exact ⟨u, e, by rw [get?_set units, if_pos rfl, written], own, versioned⟩
    · exact ⟨v, x, by rw [get?_set units, if_neg other, before], own, versioned⟩

theorem Counted.set (h : s.Counted)
    (queue : t.queue.Inverts (update s.unitPlace u (n.map (·.position))))
    (total : t.totalBytes = .holding t.byteCount) (fits : t.byteCount < 2 ^ 64)
    (lens : ∀ b, t.lens b = t.unitCount b) (versionIndex : t.versions.Ok)
    (versions : ∀ b, t.versions.Contains b ↔ t.Versioned b)
    (checks : ∀ o, (t.objectChecks o).map Prod.fst =
      if t.trackChecks = true ∧ 0 < t.objectCount o then some (t.objectCount o) else none)
    (later : s.clock ≤ t.clock)
    (own : ∀ e, n = some e → u.kind.Allows e.independent ∧ e.position < t.clock ∧
      e.revision < t.clock) :
    t.Counted where
  queue := by
    rw [unitPlace_set units]
    exact queue
  total := total
  fits := fits
  lens := lens
  versionIndex := versionIndex
  versions := versions
  checks := checks
  kinds v x held := by
    rcases of_get?_set units held with ⟨rfl, written⟩ | ⟨_, before⟩
    · exact (own x written).1
    · exact h.kinds v x before
  unitPast v x held := by
    rcases of_get?_set units held with ⟨_, written⟩ | ⟨_, before⟩
    · exact (own x written).2
    · have old := h.unitPast v x before
      omega

end Set

section Write

variable (units : t.units = s.units.insert u e') (found : s.units.get? u = some e)
include units found

theorem unitCount_set : t.unitCount = s.unitCount := by
  funext b
  have sums := total_set (n := some e') units fun u _ => if u.block = b then 1 else 0
  rw [found] at sums
  exact add_right_cancel sums

theorem objectCount_set : t.objectCount = s.objectCount := by
  funext o
  have sums := total_set (n := some e') units fun u _ => if u.block.object = o then 1 else 0
  rw [found] at sums
  exact add_right_cancel sums

theorem pinCount_set (b : BlockId) : t.pinCount b + (if u.block = b then e.pins else 0) =
    s.pinCount b + if u.block = b then e'.pins else 0 := by
  have sums := total_set (n := some e') units fun u e => if u.block = b then e.pins else 0
  rw [found] at sums
  exact sums

theorem byteCount_set : t.byteCount + e.bytes = s.byteCount + e'.bytes := by
  have sums := total_set (n := some e') units fun _ e => e.bytes
  rw [found] at sums
  exact sums

end Write

/-- What an operation may change about a block without touching its place in the queues. -/
structure Keeps (f : BlockPolicy → BlockPolicy) : Prop where
  position : ∀ a, (f a).position = a.position
  revision : ∀ a, (f a).revision = a.revision
  ownershipPosition : ∀ a, (f a).ownershipPosition = a.ownershipPosition

variable {f : BlockPolicy → BlockPolicy}

variable {b : BlockId}

theorem Recorded.set {n : Option BlockPolicy} (h : s.Recorded)
    (activity : t.activity = update s.activity b n) (track : t.trackBlocks = s.trackBlocks)
    (here : n.isSome = true ↔ s.trackBlocks = true ∧ 0 < t.unitCount b)
    (others : ∀ c, c ≠ b → (0 < t.unitCount c ↔ 0 < s.unitCount c) ∧ t.pinCount c = s.pinCount c)
    (blockQueue : t.blockQueue.Inverts (update s.blockPlace b (n.map (·.position))))
    (ownershipQueue : t.ownershipQueue.Inverts
      (update s.ownershipPlace b (n.map (·.ownershipPosition))))
    (later : s.clock ≤ t.clock)
    (own : ∀ a, n = some a → a.pins = t.pinCount b ∧
      (a.position < t.clock ∧ a.revision < t.clock ∧ a.ownershipPosition < t.clock) ∧
      ∀ c d, c ≠ b → s.activity c = some d →
        a.revision ≠ d.revision ∧ a.revision ≠ d.ownershipPosition ∧
          d.revision ≠ a.ownershipPosition) :
    t.Recorded := by
  have cases : ∀ {c d}, t.activity c = some d → c = b ∧ n = some d ∨ c ≠ b ∧
      s.activity c = some d := by
    intro c d held
    rw [activity, update_apply] at held
    split at held
    · exact .inl ⟨‹_›, held⟩
    · exact .inr ⟨‹_›, held⟩
  have places : ∀ f : BlockPolicy → Nat, (fun c => (t.activity c).map f) =
      update (fun c => (s.activity c).map f) b (n.map f) := by
    intro f
    rw [activity]
    exact comp_update (Option.map f) s.activity b n
  refine ⟨fun c => ?_, fun c d held => ?_, ?_, ?_, fun c d held => ?_,
    fun c d x y left right ne => ?_⟩
  · rw [activity, update_apply, track]
    split
    · rename_i same
      rw [same, here]
    · rename_i other
      rw [(others c other).1, h.tracked c]
  · rcases cases held with ⟨rfl, changed⟩ | ⟨other, before⟩
    · exact (own d changed).1
    · rw [(others c other).2]
      exact h.pins c d before
  · unfold blockPlace
    rw [places]
    exact blockQueue
  · unfold ownershipPlace
    rw [places]
    exact ownershipQueue
  · rcases cases held with ⟨_, changed⟩ | ⟨_, before⟩
    · exact (own d changed).2.1
    · have old := h.blockPast c d before
      omega
  · rcases cases left with ⟨rfl, changed⟩ | ⟨_, before⟩ <;>
      rcases cases right with ⟨same, changed'⟩ | ⟨other', before'⟩
    · exact absurd same.symm ne
    · have apart := (own x changed).2.2 d y other' before'
      exact ⟨apart.1, apart.2.1⟩
    · have apart := (own y changed').2.2 c x (same ▸ ne) before
      exact ⟨apart.1.symm, apart.2.2⟩
    · exact h.apart c d x y before before' ne

theorem Recorded.alter (h : s.Recorded)
    (units : ∀ c, 0 < t.unitCount c ↔ 0 < s.unitCount c)
    (others : ∀ c, c ≠ b → t.pinCount c = s.pinCount c)
    (pins : ∀ a, s.activity b = some a → (f a).pins = t.pinCount b) (keeps : Keeps f)
    (later : s.clock ≤ t.clock) :
    ({ t with
        activity := (s.updateBlock b f).activity, trackBlocks := s.trackBlocks
        blockQueue := s.blockQueue, ownershipQueue := s.ownershipQueue } : Lru).Recorded := by
  refine h.set (n := (s.activity b).map f) rfl rfl ?_ (fun c other => ⟨units c, others c other⟩)
    (h.blockQueue.keep ?_) (h.ownershipQueue.keep ?_) later fun a changed => ?_
  · rw [isSome_map, h.tracked b]
    exact and_congr_right fun _ => (units b).symm
  · simp [blockPlace, comp_def, keeps.position]
  · simp [ownershipPlace, comp_def, keeps.ownershipPosition]
  · obtain ⟨old, held, rfl⟩ := map_eq_some_iff.mp changed
    have past := h.blockPast b old held
    rw [keeps.position, keeps.revision, keeps.ownershipPosition]
    refine ⟨pins old held, by dsimp only; omega, fun c d other recorded => ?_⟩
    have apart := h.apart b c old d held recorded other.symm
    exact ⟨apart.1, apart.2, (h.apart c b d old recorded held other).2⟩

variable (ok : s.Ok)
include ok

variable (found : s.units.get? u = some e)
include found

theorem Ok.alterAt {queue : SortedMap Nat CacheUnit} {n : Nat}
    (independent : e'.independent = e.independent) (bytes : e'.bytes = e.bytes)
    (queued : queue.Inverts (update s.unitPlace u (some e'.position))) (more : s.clock ≤ n)
    (past : e'.position < n ∧ e'.revision < n) (keeps : Keeps f)
    (pins : ∀ a, s.activity u.block = some a → (f a).pins + e.pins = a.pins + e'.pins) :
    ({ s.updateBlock u.block f with
      units := s.units.insert u e', queue := queue, clock := n } : Lru).Ok := by
  have units : ({ s.updateBlock u.block f with
    units := s.units.insert u e', queue := queue, clock := n } : Lru).units = s.units.insert u e' :=
    rfl
  have sums := byteCount_set units found
  rw [bytes] at sums
  have same := add_right_cancel sums
  refine ⟨ok.toCounted.set (n := some e') units queued ?_ (same ▸ ok.fits) (fun b => ?_) ok.versionIndex
    (fun b => ?_) (fun o => ?_) more (by rintro _ ⟨⟩; exact ⟨independent ▸ ok.kinds u e found, past⟩), ?_⟩
  · rw [same]
    exact ok.total
  · rw [unitCount_set units found]
    exact ok.lens b
  · refine ((ok.versions b).trans (versioned_iff s u b)).trans ?_
    rw [versioned_set (n := some e') units]
    simp [found, independent]
  · rw [objectCount_set units found]
    exact ok.checks o
  · refine ok.toRecorded.alter (fun c => by rw [unitCount_set units found]) (fun c other => ?_)
      (fun a held => ?_) keeps more
    · have balance := pinCount_set units found c
      rw [if_neg other.symm, if_neg other.symm] at balance
      exact balance
    · have balance := pinCount_set units found u.block
      have given := pins a held
      have was := ok.pins u.block a held
      rw [if_pos rfl, if_pos rfl] at balance
      omega

theorem Ok.alter (independent : e'.independent = e.independent) (bytes : e'.bytes = e.bytes)
    (position : e'.position = e.position) (revision : e'.revision < s.clock) (keeps : Keeps f)
    (pins : ∀ a, s.activity u.block = some a → (f a).pins + e.pins = a.pins + e'.pins) :
    ({ s.updateBlock u.block f with units := s.units.insert u e' } : Lru).Ok := by
  have place : s.unitPlace u = some e'.position := by rw [unitPlace, found, map_some, position]
  exact ok.alterAt found independent bytes (ok.queue.keep place) (le_refl s.clock)
    ⟨position ▸ (ok.unitPast u e found).1, revision⟩ keeps pins

omit found

omit ok

theorem updateBlock_id (s : Lru) (b : BlockId) : s.updateBlock b id = s := by
  unfold updateBlock
  rw [map_id, id_eq, update_eq_self]

theorem keeps_id : Keeps id := ⟨fun _ => rfl, fun _ => rfl, fun _ => rfl⟩

def setUnit (s : Lru) (u : CacheUnit) (e : PolicyEntry) : Lru :=
    { s with units := s.units.insert u e }

include ok

include found in
theorem Ok.setUnit (independent : e'.independent = e.independent)
    (bytes : e'.bytes = e.bytes) (position : e'.position = e.position) (pins : e'.pins = e.pins)
    (revision : e'.revision < s.clock) : (s.setUnit u e').Ok := by
  have altered := ok.alter found independent bytes position revision keeps_id fun a _ => by
    rw [pins]
    rfl
  rwa [updateBlock_id] at altered

theorem Ok.touch (u : CacheUnit) (now : Nat) : (s.touch u now).Ok := by
  unfold Lru.touch
  split
  · exact ok
  · rename_i e found
    exact ok.alter found rfl rfl rfl (ok.unitPast u e found).2
      ⟨fun _ => rfl, fun _ => rfl, fun _ => rfl⟩
      fun _ _ => rfl

theorem Ok.pin {did : Bool} (done : s.pin u = some (did, t)) : t.Ok := by
  unfold Lru.pin at done
  split at done
  · cases done
    exact ok
  · rename_i e found
    split at done
    · cases done
      exact ok.alter found rfl rfl rfl (ok.unitPast u e found).2
        ⟨fun _ => rfl, fun _ => rfl, fun _ => rfl⟩ fun a _ => by simp only; omega
    · cases done

include found in
/-- A pinned unit's block counts its pins, so no subtraction fails. -/
theorem Ok.pins_le {a : BlockPolicy} (held : s.activity u.block = some a) : e.pins ≤ a.pins := by
  rw [ok.pins u.block a held]
  have part := le_total (w := fun v e => if v.block = u.block then e.pins else 0) found
  rwa [if_pos rfl] at part

theorem Ok.unpin (u : CacheUnit) : ∃ t, s.unpin u = some t ∧ t.Ok := by
  unfold Lru.unpin
  split
  · exact ⟨s, rfl, ok⟩
  · rename_i e found
    split
    · exact ⟨s, rfl, ok⟩
    · have enough : ¬(s.activity u.block).any (fun a => a.pins == 0) = true := by
        intro spent
        rw [any_eq_true] at spent
        obtain ⟨a, held, zero⟩ := spent
        have most := ok.pins_le found held
        rw [beq_iff_eq] at zero
        omega
      rw [if_neg enough]
      refine ⟨_, rfl, ok.alter found rfl rfl rfl (ok.unitPast u e found).2
        ⟨fun _ => rfl, fun _ => rfl, fun _ => rfl⟩ fun a held => ?_⟩
      have most := ok.pins_le found held
      simp only
      omega

include found in
theorem Ok.queued : s.queue.get? e.position = some u := by
  rw [ok.queue e.position u, unitPlace, found]
  rfl

theorem Ok.unitPlace_ne_clock (v : CacheUnit) : s.unitPlace v ≠ some s.clock := by
  intro same
  obtain ⟨x, held, _⟩ := map_eq_some_iff.mp same
  have before := (ok.unitPast v x held).1
  omega

omit ok

def moveBack (s : Lru) (u : CacheUnit) (e : PolicyEntry) : Lru :=
  { s with
    units := s.units.insert u { e with position := s.clock }
    queue := (s.queue.erase e.position).insert s.clock u
    clock := s.clock + 1 }

include ok

include found

theorem rotate_eq (room : s.ticks = true) :
    s.rotate u = some (s.clock, s.moveBack u e) := by
  simp [rotate, found, ok.queued found, room, moveBack]

theorem Ok.moveBack : (s.moveBack u e).Ok := by
  have place : s.unitPlace u = some e.position := by rw [unitPlace, found, map_some]
  have moved : ({ s.updateBlock u.block id with
      units := s.units.insert u { e with position := s.clock }
      queue := (s.queue.erase e.position).insert s.clock u, clock := s.clock + 1 } : Lru).Ok :=
    ok.alterAt found rfl rfl (ok.queue.move place ok.unitPlace_ne_clock) (le_succ s.clock)
      ⟨lt_succ_self _, lt_succ_of_lt (ok.unitPast u e found).2⟩ keeps_id fun _ _ => rfl
  rwa [updateBlock_id] at moved

omit found

omit ok

section Versions

variable (kinds : ∀ u e, s.units.get? u = some e → u.kind.Allows e.independent)
include kinds

/-- The units of a block that no later version supersedes: the whole block or the exact range. -/
theorem independentCount_eq
    (b : BlockId) : s.units.total (fun u e => if u.block = b ∧ e.independent = true then 1 else 0) =
      ((s.units.get? ⟨b, .whole⟩).any (·.independent)).toNat +
        (s.units.get? ⟨b, .exactRange⟩).isSome.toNat := by
  have others : ((s.units.erase ⟨b, .whole⟩).erase ⟨b, .exactRange⟩).total
      (fun u e => if u.block = b ∧ e.independent = true then 1 else 0) = 0 := by
    by_contra positive
    obtain ⟨u, e, held, counted⟩ := total_pos_iff.mp (pos_of_ne_zero positive)
    rw [get?_erase] at held
    split at held
    · cases held
    · rename_i notExact
      rw [get?_erase] at held
      split at held
      · cases held
      · rename_i notWhole
        split at counted
        · rename_i both
          obtain ⟨_, kind⟩ := u
          obtain ⟨rfl, independent⟩ := both
          cases kind with
          | whole => exact notWhole rfl
          | exactRange => exact notExact rfl
          | page =>
            rw [(kinds _ e held).1 rfl] at independent
            cases independent
        · exact lt_irrefl 0 counted
  have other : (⟨b, .exactRange⟩ : CacheUnit) ≠ ⟨b, .whole⟩ := by
    intro same
    cases same
  rw [total_split ⟨b, .whole⟩, total_split (m := s.units.erase _) ⟨b, .exactRange⟩, others,
    get?_erase_of_ne other, add_zero]
  congr 1
  · cases s.units.get? ⟨b, .whole⟩ with
    | none => rfl
    | some e => cases same : e.independent <;> simp [same]
  · cases found : s.units.get? ⟨b, .exactRange⟩ with
    | none => rfl
    | some e => simp [(kinds _ e found).2 rfl]

theorem hasVersionedUnits_iff {b : BlockId} (lens : s.lens b = s.unitCount b) :
    s.hasVersionedUnits b = true ↔ s.Versioned b := by
  have parts : s.unitCount b =
      s.units.total (fun u e => if u.block = b ∧ e.independent = true then 1 else 0) +
        s.units.total (fun u e => if u.block = b ∧ e.independent = false then 1 else 0) := by
    rw [← total_add]
    refine total_congr fun u e _ => ?_
    by_cases own : u.block = b
    · cases same : e.independent <;> simp [own]
    · simp [own]
  rw [independentCount_eq kinds] at parts
  have counted : s.hasVersionedUnits b = true ↔
      0 < s.units.total (fun u e => if u.block = b ∧ e.independent = false then 1 else 0) := by
    unfold hasVersionedUnits
    simp only [decide_eq_true_eq]
    rw [lens, parts]
    omega
  rw [counted, total_pos_iff]
  constructor
  · rintro ⟨u, e, found, positive⟩
    split at positive
    · rename_i both
      exact ⟨u, e, found, both⟩
    · exact absurd positive (lt_irrefl 0)
  · rintro ⟨u, e, found, both⟩
    exact ⟨u, e, found, by rw [if_pos both]; exact zero_lt_one⟩

omit kinds

end Versions

end Lru

end Talon.Worker
