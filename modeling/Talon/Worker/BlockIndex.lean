import Talon.Catalog.Model
import Talon.Core.Block
import Talon.Lib.Counter
import Talon.Lib.Transition

/-!
# Accounting of the block index

`index.rs`: the directory of resident blocks, each with the bytes and pages it is charged for, and
the three counters over all of them.  Every operation adjusts the counters by the difference it
makes to one entry.  The counters are exact in every run whose exact totals fit into 64 bits; past
that they saturate and stay wrong.
-/

set_option autoImplicit false

namespace Talon.Worker

open Talon.Core Catalog Nat Table Counter Option

abbrev Allocation := List (Option Nat × Nat)

structure StoredMeta where
  id : BlockId
  form : BlockForm
  len : Nat
deriving DecidableEq

/-- A page's entry outlives its data while the lifecycle has bound its handle or the eviction policy
tracks it. -/
structure PageUnit where
  resident : Bool
  allocated : Nat
  bound : Bool
  policy : Bool
deriving DecidableEq

def PageUnit.unbound : PageUnit := ⟨false, 0, false, false⟩

inductive IndexedUnits
  | whole (allocated : Nat)
  | paged (pages : Table Nat PageUnit)

/-- `allocated_bytes`, a sum of 64-bit integers. -/
def IndexedUnits.allocatedBytes : IndexedUnits → Nat
  | whole allocated => allocated
  | paged pages => pages.total (fun _ unit => unit.allocated) % 2 ^ 64

structure IndexedBlock where
  len : Nat
  pageSize : Nat
  pageCount : Nat
  units : IndexedUnits
  chargedBytes : Counter 64
  chargedPages : Counter 64

namespace IndexedBlock

def presentPages (present : PresentBitmap) : Table Nat PageUnit :=
  present.pages.foldl
    (fun pages page => pages.insert page { PageUnit.unbound with resident := true })
    .empty

/-- `IndexedBlock::from`. -/
def ofMeta (m : StoredMeta) : IndexedBlock :=
  match m.form with
  | .whole => ⟨m.len, 0, 0, .whole 0, .holding 0, .holding 0⟩
  | .paged pageSize present =>
    ⟨m.len, pageSize, present.len, .paged (presentPages present), .holding 0,
      .holding present.count⟩

/-- The last allocation counts; one for a page fails the assertion. -/
def allocateWhole : Nat → Allocation → Option Nat
  | old, [] => some old
  | _, (none, bytes) :: rest => allocateWhole bytes rest
  | _, (some _, _) :: _ => none

/-- An allocation does not make its page resident; one for no page or outside the block fails an
assertion. -/
def allocatePages (pageCount : Nat) : Table Nat PageUnit → Allocation → Option (Table Nat PageUnit)
  | pages, [] => some pages
  | _, (none, _) :: _ => none
  | pages, (some page, bytes) :: rest =>
    if page < pageCount then
      allocatePages pageCount
        (pages.insert page { (pages.get? page).getD .unbound with allocated := bytes }) rest
    else none

def allocateUnits (pageCount : Nat) (allocated : Allocation) : IndexedUnits → Option IndexedUnits
  | .whole old => (allocateWhole old allocated).map .whole
  | .paged pages => (allocatePages pageCount pages allocated).map .paged

/-- `IndexedBlock::allocated`; `none` is a failed assertion. -/
def allocated (m : StoredMeta) (allocated : Allocation) : Option IndexedBlock :=
  let entry := ofMeta m
  (allocateUnits entry.pageCount allocated entry.units).map fun units =>
    { entry with units := units, chargedBytes := .holding units.allocatedBytes }

def metadata (entry : IndexedBlock) (id : BlockId) : StoredMeta :=
  match entry.units with
  | .whole _ => ⟨id, .whole, entry.len⟩
  | .paged pages =>
    let present := (pages.entries.filter fun e => e.2.resident).foldl (fun b e => b.set e.1)
      (PresentBitmap.new entry.pageCount)
    ⟨id, .paged entry.pageSize present, entry.len⟩

/-- The handles of all pages of the table belong to the block's lifecycle from now on. -/
def bindPages (entry : IndexedBlock) : IndexedBlock :=
  match entry.units with
  | .whole _ => entry
  | .paged pages =>
    { entry with units := .paged ⟨pages.entries.map fun e => (e.1, { e.2 with bound := true }), by
        simpa [Function.comp_def] using pages.nodup⟩ }

end IndexedBlock

/-- `tracked`: the eviction policy holds units or an activity record of the block. -/
structure DirectoryEntry where
  resident : Option IndexedBlock
  lifecycle : Bool
  tracked : Bool

def DirectoryEntry.vacant : DirectoryEntry := ⟨none, false, false⟩

structure BlockIndex where
  entries : Table BlockId DirectoryEntry
  residentBlocks : Counter 64
  residentPages : Counter 64
  residentBytes : Counter 64

namespace BlockIndex

def new : BlockIndex := ⟨.empty, .holding 0, .holding 0, .holding 0⟩

def slot (s : BlockIndex) (id : BlockId) : DirectoryEntry := (s.entries.get? id).getD .vacant

def setResident (s : BlockIndex) (id : BlockId) (entry : IndexedBlock) :
    Table BlockId DirectoryEntry :=
  s.entries.insert id { s.slot id with resident := some entry }

/-- A new entry replaces the old one of the block; `none` is a failed assertion, before anything
changed. -/
def commitShared (s : BlockIndex) (m : StoredMeta) (allocated : Allocation) : Option BlockIndex :=
  (IndexedBlock.allocated m allocated).map fun entry =>
    let previous := (s.slot m.id).resident
    let oldBytes := (previous.map fun old => old.chargedBytes.value).getD 0
    let oldPages := (previous.map fun old => old.chargedPages.value).getD 0
    let pages := entry.chargedPages.value
    { entries := s.setResident m.id (if (s.slot m.id).lifecycle then entry.bindPages else entry)
      residentBytes := s.residentBytes.replace oldBytes entry.chargedBytes.value
      residentPages :=
        if oldPages ≤ pages then s.residentPages.add (pages - oldPages)
        else s.residentPages.sub (oldPages - pages)
      residentBlocks := if previous.isSome then s.residentBlocks else s.residentBlocks.add 1 }

def initPaged (s : BlockIndex) (id : BlockId) (pageSize len : Nat) : Bool × BlockIndex :=
  match (s.slot id).resident with
  | some _ => (false, s)
  | none =>
    let entry := IndexedBlock.ofMeta ⟨id, .paged pageSize (.new (pageCount id pageSize)), len⟩
    (true, { s with entries := s.setResident id entry, residentBlocks := s.residentBlocks.add 1 })

def markPageAllocated (s : BlockIndex) (id : BlockId) (page allocated : Nat) : Bool × BlockIndex :=
  match (s.slot id).resident with
  | none => (false, s)
  | some entry =>
    match entry.units with
    | .whole _ => (false, s)
    | .paged pages =>
      if page < entry.pageCount then
        let unit := (pages.get? page).getD .unbound
        let fresh := !unit.resident
        let entry := { entry with
          units := .paged (pages.insert page { unit with resident := true, allocated := allocated })
          chargedBytes := entry.chargedBytes.replace unit.allocated allocated
          chargedPages := entry.chargedPages.add fresh.toNat }
        (fresh, { s with
          entries := s.setResident id entry
          residentBytes := s.residentBytes.replace unit.allocated allocated
          residentPages := s.residentPages.add fresh.toNat })
      else (false, s)

def clearPage (s : BlockIndex) (id : BlockId) (page : Nat) : Bool × BlockIndex :=
  match (s.slot id).resident with
  | none => (false, s)
  | some entry =>
    match entry.units with
    | .whole _ => (false, s)
    | .paged pages =>
      match pages.get? page with
      | none => (false, s)
      | some unit =>
        if unit.resident then
          let entry := { entry with
            units := .paged (if unit.bound || unit.policy
              then pages.insert page { unit with resident := false, allocated := 0 }
              else pages.erase page)
            chargedBytes := entry.chargedBytes.replace unit.allocated 0
            chargedPages := entry.chargedPages.sub 1 }
          (true, { s with
            entries := s.setResident id entry
            residentBytes := s.residentBytes.replace unit.allocated 0
            residentPages := s.residentPages.sub 1 })
        else (false, s)

def remove (s : BlockIndex) (id : BlockId) : Option StoredMeta × BlockIndex :=
  match (s.slot id).resident with
  | none => (none, s)
  | some removed =>
    (some (removed.metadata id),
      { entries :=
          if (s.slot id).lifecycle || (s.slot id).tracked
          then s.entries.insert id { s.slot id with resident := none }
          else s.entries.erase id
        residentBlocks := s.residentBlocks.sub 1
        residentBytes := s.residentBytes.replace removed.chargedBytes.value 0
        residentPages := s.residentPages.sub removed.chargedPages.value })

/-- One turn of the publishing loop of `try_restore_allocated`. -/
def publish (s : BlockIndex) (id : BlockId) (entry : IndexedBlock) : BlockIndex :=
  match (s.slot id).resident with
  | some old =>
    { s with
      entries := s.setResident id entry
      residentBytes := (s.residentBytes.sub old.chargedBytes.value).add entry.chargedBytes.value
      residentPages := (s.residentPages.sub old.chargedPages.value).add entry.chargedPages.value }
  | none =>
    { entries := s.setResident id entry
      residentBlocks := s.residentBlocks.add 1
      residentBytes := s.residentBytes.add entry.chargedBytes.value
      residentPages := s.residentPages.add entry.chargedPages.value }

def publishAll (s : BlockIndex) (built : List (BlockId × IndexedBlock)) : BlockIndex :=
  built.foldl (fun s e => s.publish e.1 e.2) s

def build {τ ε : Type} (decode : τ → Except ε (StoredMeta × Allocation)) (item : τ) :
    Option (Except ε (BlockId × IndexedBlock)) :=
  match decode item with
  | .error e => some (.error e)
  | .ok (m, allocated) => (IndexedBlock.allocated m allocated).map fun entry => .ok (m.id, entry)

def buildAll {τ ε : Type} (input : List τ) (decode : τ → Except ε (StoredMeta × Allocation)) :
    Option (Except ε (List (BlockId × IndexedBlock))) :=
  (input.mapM (build decode)).map fun results => results.mapM id

/-- All entries are built before the first is published. -/
def tryRestoreAllocated {τ ε : Type} (s : BlockIndex) (input : List τ)
    (decode : τ → Except ε (StoredMeta × Allocation)) : Option (Except ε BlockIndex) :=
  (buildAll input decode).map fun built => built.map s.publishAll

/-- The block's lifecycle and policy records come and go without the resident entry; a new lifecycle
binds the handles of the block's pages. -/
def shareBlock (s : BlockIndex) (id : BlockId) (lifecycle tracked : Bool) : BlockIndex :=
  let resident := (s.slot id).resident.map fun entry => if lifecycle then entry.bindPages else entry
  { s with entries := s.entries.insert id ⟨resident, lifecycle, tracked⟩ }

/-- The lifecycle and the policy use a page's entry or let it go; an entry without use, data or
charge leaves the table. -/
def sharePage (s : BlockIndex) (id : BlockId) (page : Nat) (bound policy : Bool) : BlockIndex :=
  match (s.slot id).resident with
  | none => s
  | some entry =>
    match entry.units with
    | .whole _ => s
    | .paged pages =>
      let unit := { (pages.get? page).getD .unbound with bound := bound, policy := policy }
      let pages := if unit.resident || unit.allocated != 0 || bound || policy
        then pages.insert page unit
        else pages.erase page
      { s with entries := s.setResident id { entry with units := .paged pages } }

end BlockIndex

section Exact

def IndexedUnits.bytes : IndexedUnits → Nat
  | whole allocated => allocated
  | paged pages => pages.total fun _ unit => unit.allocated

def IndexedUnits.pages : IndexedUnits → Nat
  | whole _ => 0
  | paged pages => pages.total fun _ unit => unit.resident.toNat

def IndexedUnits.one (_ : IndexedUnits) : Nat := 1

/-- The entry's own charges are the sums over its units. -/
structure IndexedBlock.Charged (entry : IndexedBlock) : Prop where
  bytes : entry.chargedBytes = .holding entry.units.bytes
  pages : entry.chargedPages = .holding entry.units.pages

def DirectoryEntry.measure (f : IndexedUnits → Nat) (d : DirectoryEntry) : Nat :=
  match d.resident with
  | some entry => f entry.units
  | none => 0

def BlockIndex.sum (s : BlockIndex) (f : IndexedUnits → Nat) : Nat :=
  s.entries.total fun _ d => d.measure f

/-- The counters hold what the entries add up to, and no counter ever underflowed. -/
structure BlockIndex.Accounted (s : BlockIndex) : Prop where
  blocks : s.residentBlocks = .holding (s.sum IndexedUnits.one)
  pages : s.residentPages = .holding (s.sum IndexedUnits.pages)
  bytes : s.residentBytes = .holding (s.sum IndexedUnits.bytes)
  charged : ∀ id d entry, s.entries.get? id = some d → d.resident = some entry → entry.Charged

structure BlockIndex.Room (s : BlockIndex) : Prop where
  blocks : s.sum IndexedUnits.one < 2 ^ 64
  pages : s.sum IndexedUnits.pages < 2 ^ 64
  bytes : s.sum IndexedUnits.bytes < 2 ^ 64

end Exact

variable {al : Allocation}

variable {m : StoredMeta} {page : Nat}

namespace IndexedBlock

theorem pages_presentPages (present : PresentBitmap) :
    (presentPages present).total (fun _ unit => unit.resident.toNat) = present.count := by
  rw [PresentBitmap.count_eq_length]
  have grows : ∀ (l : List Nat) (pages : Table Nat PageUnit), l.Nodup →
      (∀ p ∈ l, pages.get? p = none) →
      (l.foldl (fun pages page => pages.insert page { PageUnit.unbound with resident := true })
        pages).total (fun _ unit => unit.resident.toNat) =
        l.length + pages.total fun _ unit => unit.resident.toNat := by
    intro l
    induction l with
    | nil => simp
    | cons p l ih =>
      intro pages nodup fresh
      obtain ⟨new, rest⟩ := List.nodup_cons.mp nodup
      have others : ∀ q ∈ l,
          (pages.insert p { PageUnit.unbound with resident := true }).get? q = none := by
        intro q mem
        have other : q ≠ p := fun same => new (same ▸ mem)
        rw [get?_insert_of_ne other]
        exact fresh q (List.mem_cons_of_mem p mem)
      rw [List.foldl_cons, ih _ rest others, total_insert,
        erase_of_absent (fresh p List.mem_cons_self)]
      simp only [Bool.toNat_true, List.length_cons]
      omega
  rw [presentPages, grows present.pages .empty present.nodup_pages fun p _ => get?_empty]
  simp

variable {pageCount : Nat}

theorem pages_allocatePages {pages pages' : Table Nat PageUnit}
    (done : allocatePages pageCount pages al = some pages') :
    pages'.total (fun _ unit => unit.resident.toNat) =
      pages.total fun _ unit => unit.resident.toNat := by
  induction al generalizing pages with
  | nil =>
    cases done
    rfl
  | cons a _ ih =>
    obtain ⟨page, _⟩ := a
    cases page with
    | none => cases done
    | some page =>
      rw [allocatePages] at done
      split at done
      · rw [ih done, total_insert,
          total_getD (m := pages) (k := page) (d := PageUnit.unbound) rfl]
      · cases done

theorem pages_allocateUnits {units units' : IndexedUnits}
    (done : allocateUnits pageCount al units = some units') : units'.pages = units.pages := by
  cases units with
  | whole =>
    obtain ⟨_, _, rfl⟩ := map_eq_some_iff.mp done
    rfl
  | paged =>
    obtain ⟨_, allocated, rfl⟩ := map_eq_some_iff.mp done
    exact pages_allocatePages allocated

theorem allocatedBytes_eq {units : IndexedUnits} (fits : units.bytes < 2 ^ 64) :
    units.allocatedBytes = units.bytes := by
  cases units with
  | whole => rfl
  | paged => exact mod_eq_of_lt fits

theorem charged_ofMeta (m : StoredMeta) :
    (ofMeta m).chargedPages = .holding (ofMeta m).units.pages := by
  unfold ofMeta
  cases m.form with
  | whole => rfl
  | paged _ present => exact congrArg holding (pages_presentPages present).symm

variable {entry : IndexedBlock}

theorem charged_allocated (built : allocated m al = some entry)
    (fits : entry.units.bytes < 2 ^ 64) : entry.Charged := by
  obtain ⟨units, done, rfl⟩ := map_eq_some_iff.mp built
  refine ⟨congrArg holding (allocatedBytes_eq fits), ?_⟩
  rw [pages_allocateUnits done, charged_ofMeta]

theorem bytes_bindPages (entry : IndexedBlock) :
    entry.bindPages.units.bytes = entry.units.bytes := by
  unfold bindPages
  cases same : entry.units with
  | whole => rw [same]
  | paged => simp [IndexedUnits.bytes, total, Function.comp_def]

theorem pages_bindPages (entry : IndexedBlock) :
    entry.bindPages.units.pages = entry.units.pages := by
  unfold bindPages
  cases same : entry.units with
  | whole => rw [same]
  | paged pages => simp [IndexedUnits.pages, total, Function.comp_def]

theorem Charged.bindPages (h : entry.Charged) : entry.bindPages.Charged := by
  have bytes : entry.bindPages.chargedBytes = entry.chargedBytes := by
    unfold IndexedBlock.bindPages
    split <;> rfl
  have pages : entry.bindPages.chargedPages = entry.chargedPages := by
    unfold IndexedBlock.bindPages
    split <;> rfl
  exact ⟨by rw [bytes, bytes_bindPages, h.bytes], by rw [pages, pages_bindPages, h.pages]⟩

end IndexedBlock

namespace BlockIndex

variable {s t : BlockIndex} {id : BlockId} {f : IndexedUnits → Nat}

def others (s : BlockIndex) (id : BlockId) (f : IndexedUnits → Nat) : Nat :=
  (s.entries.erase id).total fun _ d => d.measure f

theorem sum_eq (s : BlockIndex) (id : BlockId) (f : IndexedUnits → Nat) :
    s.sum f = (s.slot id).measure f + s.others id f :=
  total_getD rfl

variable {d : DirectoryEntry} {entry : IndexedBlock}

theorem sum_insert (id : BlockId) (entries : t.entries = s.entries.insert id d) :
    t.sum f = d.measure f + s.others id f := by
  rw [sum, entries, total_insert]
  rfl

variable (h : s.Accounted)
include h

theorem charged_slot (found : (s.slot id).resident = some entry) : entry.Charged := by
  unfold slot at found
  cases known : s.entries.get? id with
  | none =>
    rw [known] at found
    cases found
  | some d =>
    rw [known] at found
    exact h.charged id d entry known found

theorem Accounted.change (id : BlockId) (entries : t.entries = s.entries.insert id d)
    (charged : ∀ entry, d.resident = some entry → entry.Charged)
    (blocks : t.residentBlocks = .holding (d.measure IndexedUnits.one + s.others id
      IndexedUnits.one))
    (pages : t.residentPages = .holding (d.measure IndexedUnits.pages + s.others id
      IndexedUnits.pages))
    (bytes : t.residentBytes = .holding (d.measure IndexedUnits.bytes + s.others id
      IndexedUnits.bytes)) :
    t.Accounted where
  blocks := by rw [blocks, sum_insert id entries]
  pages := by rw [pages, sum_insert id entries]
  bytes := by rw [bytes, sum_insert id entries]
  charged j e entry known found := by
    rw [entries, get?_insert] at known
    split at known
    · cases known
      exact charged entry found
    · exact h.charged j e entry known found

theorem oldBytes_eq :
    ((s.slot id).resident.map fun old => old.chargedBytes.value).getD 0 =
      (s.slot id).measure IndexedUnits.bytes := by
  unfold DirectoryEntry.measure
  cases found : (s.slot id).resident with
  | none => rfl
  | some => simp [(charged_slot h found).bytes, holding]

theorem oldPages_eq :
    ((s.slot id).resident.map fun old => old.chargedPages.value).getD 0 =
      (s.slot id).measure IndexedUnits.pages := by
  unfold DirectoryEntry.measure
  cases found : (s.slot id).resident with
  | none => rfl
  | some => simp [(charged_slot h found).pages, holding]

omit h

theorem measure_some (found : d.resident = some entry) : d.measure f = f entry.units := by
  rw [DirectoryEntry.measure, found]

theorem measure_none (found : d.resident = none) : d.measure f = 0 := by
  rw [DirectoryEntry.measure, found]

include h

theorem Accounted.commitShared (room : s.Room)
    (done : s.commitShared m al = some t) (fits : t.Room) : t.Accounted := by
  obtain ⟨entry, built, rfl⟩ := map_eq_some_iff.mp done
  set bound := if (s.slot m.id).lifecycle then entry.bindPages else entry with boundIs
  have bytes : bound.units.bytes = entry.units.bytes := by
    rw [boundIs]
    split
    · exact entry.bytes_bindPages
    · rfl
  have pages : bound.units.pages = entry.units.pages := by
    rw [boundIs]
    split
    · exact entry.pages_bindPages
    · rfl
  have oldPages := room.pages
  have newBytes := fits.bytes
  have newPages := fits.pages
  have newBlocks := fits.blocks
  rw [sum_insert m.id rfl] at newBytes newPages newBlocks
  rw [sum_eq s m.id] at oldPages
  change bound.units.bytes + _ < _ at newBytes
  change bound.units.pages + _ < _ at newPages
  have charged : entry.Charged := IndexedBlock.charged_allocated built (by omega)
  refine h.change m.id rfl ?_ ?_ ?_ ?_
  · intro e found
    cases found
    rw [boundIs]
    split
    · exact charged.bindPages
    · exact charged
  · rw [h.blocks, sum_eq s m.id]
    cases found : (s.slot m.id).resident with
    | some =>
      rw [measure_some found]
      rfl
    | none =>
      rw [measure_none found, zero_add]
      exact add_holding newBlocks
  · change (if _ ≤ entry.chargedPages.value then _ else _) =
      holding (bound.units.pages + s.others m.id IndexedUnits.pages)
    rw [oldPages_eq h, h.pages, sum_eq s m.id, charged.pages, pages]
    change (if (s.slot m.id).measure IndexedUnits.pages ≤ entry.units.pages
      then add _ (entry.units.pages - _) else sub _ (_ - entry.units.pages)) = _
    split
    · rename_i more
      rw [add_holding (by omega), ← Nat.add_assoc, Nat.sub_add_cancel more]
    · rename_i less
      obtain ⟨gone, split⟩ := Nat.exists_eq_add_of_le (Nat.le_of_not_le less)
      rw [split, Nat.add_sub_cancel_left, Nat.add_comm entry.units.pages gone, Nat.add_assoc,
        sub_holding (by omega)]
  · change s.residentBytes.replace _ entry.chargedBytes.value =
      holding (bound.units.bytes + s.others m.id IndexedUnits.bytes)
    rw [bytes] at newBytes
    rw [oldBytes_eq h, h.bytes, sum_eq s m.id, charged.bytes, bytes]
    exact replace_holding newBytes

theorem Accounted.initPaged {pageSize len : Nat}
    (fits : (s.initPaged id pageSize len).2.Room) : (s.initPaged id pageSize len).2.Accounted := by
  unfold BlockIndex.initPaged at fits ⊢
  cases found : (s.slot id).resident with
  | some =>
    exact h
  | none =>
    rw [found] at fits
    have blocks := fits.blocks
    have empty :
      (IndexedBlock.ofMeta ⟨id, .paged pageSize (.new (pageCount id pageSize)), len⟩).units =
        .paged .empty := by
      simp [IndexedBlock.ofMeta, IndexedBlock.presentPages]
    refine h.change id rfl ?_ ?_ ?_ ?_
    · intro _ same
      cases same
      refine ⟨?_, IndexedBlock.charged_ofMeta _⟩
      rw [empty]
      rfl
    · rw [h.blocks, sum_eq s id, measure_none found, zero_add]
      exact add_holding blocks
    · rw [measure_some rfl, empty]
      exact h.pages.trans (congrArg _ (by rw [sum_eq s id, measure_none found]; rfl))
    · rw [measure_some rfl, empty]
      exact h.bytes.trans (congrArg _ (by rw [sum_eq s id, measure_none found]; rfl))

omit h

/-- One page of a paged entry changes from `old` to `new`; `turn` is what happens to the page
counts. -/
theorem Accounted.changePage {pages pages' : Table Nat PageUnit} (old new : PageUnit)
    (turn : Counter 64 → Counter 64) (h : s.Accounted) (room : s.Room)
    (found : (s.slot id).resident = some entry) (units : entry.units = .paged pages)
    (changed : ∀ w : PageUnit → Nat, w .unbound = 0 → ∃ rest,
      pages.total (fun _ => w) = w old + rest ∧ pages'.total (fun _ => w) = w new + rest)
    (turned : ∀ n, old.resident.toNat + n < 2 ^ 64 → new.resident.toNat + n < 2 ^ 64 →
      turn (.holding (old.resident.toNat + n)) = .holding (new.resident.toNat + n))
    (same : t = { s with
      entries := s.setResident id { entry with
        units := .paged pages'
        chargedBytes := entry.chargedBytes.replace old.allocated new.allocated
        chargedPages := turn entry.chargedPages }
      residentBytes := s.residentBytes.replace old.allocated new.allocated
      residentPages := turn s.residentPages }) (fits : t.Room) : t.Accounted := by
  have charged := charged_slot h found
  obtain ⟨bytes, oldBytes, newBytes⟩ := changed (fun unit => unit.allocated) rfl
  obtain ⟨count, oldPages, newPages⟩ := changed (fun unit => unit.resident.toNat) rfl
  have wasBytes : entry.units.bytes = old.allocated + bytes := by rw [units]; exact oldBytes
  have wasPages : entry.units.pages = old.resident.toNat + count := by rw [units]; exact oldPages
  have isBytes : (IndexedUnits.paged pages').bytes = new.allocated + bytes := newBytes
  have isPages : (IndexedUnits.paged pages').pages = new.resident.toNat + count := newPages
  have entries := congrArg BlockIndex.entries same
  have oldPagesFit := room.pages
  have newBytesFit := fits.bytes
  have newPagesFit := fits.pages
  rw [sum_insert id entries, measure_some rfl] at newBytesFit newPagesFit
  rw [sum_eq s id, measure_some found, wasPages, add_assoc] at oldPagesFit
  rw [isBytes, add_assoc] at newBytesFit
  rw [isPages, add_assoc] at newPagesFit
  refine h.change id entries ?_ ?_ ?_ ?_
  · intro e now
    cases now
    refine ⟨?_, ?_⟩
    · rw [charged.bytes, wasBytes, isBytes]
      exact replace_holding (by omega)
    · rw [charged.pages, wasPages, isPages]
      exact turned count (by omega) (by omega)
  · rw [same]
    rw [h.blocks, sum_eq s id, measure_some found]
    rfl
  · rw [same, measure_some rfl, isPages, add_assoc]
    rw [h.pages, sum_eq s id, measure_some found, wasPages, add_assoc]
    exact turned _ oldPagesFit newPagesFit
  · rw [same, measure_some rfl, isBytes, add_assoc]
    rw [h.bytes, sum_eq s id, measure_some found, wasBytes, add_assoc]
    exact replace_holding newBytesFit

include h

theorem Accounted.markPageAllocated {allocated : Nat} (room : s.Room)
    (fits : (s.markPageAllocated id page allocated).2.Room) :
    (s.markPageAllocated id page allocated).2.Accounted := by
  unfold BlockIndex.markPageAllocated at fits ⊢
  split at fits
  · exact h
  rename_i entry found
  split at fits
  · exact h
  rename_i pages units
  split at fits
  · rename_i inside
    simp only [inside, if_true]
    set unit := (pages.get? page).getD .unbound
    refine Accounted.changePage unit { unit with resident := true, allocated := allocated }
      (fun c => c.add (!unit.resident).toNat) h room found units ?_ ?_ rfl fits
    · intro w zero
      exact ⟨_, total_getD zero, total_insert⟩
    · intro n _ new
      change 1 + n < _ at new
      change add _ _ = .holding (1 + n)
      cases unit.resident with
      | true =>
        change add _ 0 = _
        rw [add_holding (by change 0 + (1 + n) < _; omega), zero_add]
        rfl
      | false =>
        change add (.holding (0 + n)) 1 = _
        rw [zero_add]
        exact add_holding new
  · rename_i outside
    simp only [outside, if_false]
    exact h

theorem Accounted.clearPage (room : s.Room) (fits : (s.clearPage id page).2.Room) :
    (s.clearPage id page).2.Accounted := by
  unfold BlockIndex.clearPage at fits ⊢
  split at fits
  · exact h
  rename_i entry found
  split at fits
  · exact h
  rename_i pages units
  split at fits
  · exact h
  rename_i unit known
  split at fits
  · rename_i resident
    simp only [resident, if_true]
    refine Accounted.changePage unit { unit with resident := false, allocated := 0 }
      (fun c => c.sub 1) h room found units ?_ ?_ rfl fits
    · intro w zero
      refine ⟨(pages.erase page).total fun _ => w, total_eq known, ?_⟩
      split
      · exact total_insert
      · rename_i unused
        have gone : ({ unit with resident := false, allocated := 0 } : PageUnit) = .unbound := by
          simp only [Bool.or_eq_true, not_or, Bool.not_eq_true] at unused
          rw [unused.1, unused.2]
          rfl
        rw [gone, zero, zero_add]
    · intro n old _
      rw [resident] at old ⊢
      change sub _ 1 = .holding (0 + n)
      rw [zero_add]
      exact sub_holding old
  · rename_i absent
    simp only [absent]
    exact h

theorem Accounted.remove (room : s.Room) : (s.remove id).2.Accounted := by
  unfold BlockIndex.remove
  split
  · exact h
  rename_i removed found
  have charged := charged_slot h found
  have blocksFit := room.blocks
  have pagesFit := room.pages
  have bytesFit := room.bytes
  rw [sum_eq s id, measure_some found] at blocksFit pagesFit bytesFit
  -- a slot that stays has no resident block, so its measure is zero as if it were gone
  have rest (f : IndexedUnits → Nat) : (if (s.slot id).lifecycle || (s.slot id).tracked
      then s.entries.insert id { s.slot id with resident := none }
      else s.entries.erase id).total (fun _ d => d.measure f) = s.others id f := by
    split
    · rw [total_insert, measure_none rfl, zero_add]
      rfl
    · rfl
  refine ⟨?_, ?_, ?_, ?_⟩
  · change s.residentBlocks.sub 1 = .holding (total _ _)
    rw [rest, h.blocks, sum_eq s id, measure_some found]
    exact sub_holding blocksFit
  · change s.residentPages.sub _ = .holding (total _ _)
    rw [rest, h.pages, sum_eq s id, measure_some found, charged.pages]
    exact sub_holding pagesFit
  · change s.residentBytes.replace _ 0 = .holding (total _ _)
    rw [rest, h.bytes, sum_eq s id, measure_some found, charged.bytes]
    change replace _ removed.units.bytes 0 = _
    rw [replace_holding (by omega), zero_add]
  · intro j d entry known resident
    split at known
    · rw [get?_insert] at known
      split at known
      · cases known
        cases resident
      · exact h.charged j d entry known resident
    · rw [get?_erase] at known
      split at known
      · cases known
      · exact h.charged j d entry known resident

theorem Accounted.publish (room : s.Room) (built : IndexedBlock.allocated m al = some entry)
    (fits : (s.publish id entry).Room) : (s.publish id entry).Accounted := by
  have entries : (s.publish id entry).entries = s.setResident id entry := by
    unfold BlockIndex.publish
    split <;> rfl
  have newBytes := fits.bytes
  have newPages := fits.pages
  have newBlocks := fits.blocks
  rw [sum_insert id entries, measure_some rfl] at newBytes newPages newBlocks
  have charged : entry.Charged := IndexedBlock.charged_allocated built (by omega)
  have stored : ∀ e, some entry = some e → e.Charged := by
    intro e same
    cases same
    exact charged
  unfold BlockIndex.publish at entries ⊢
  cases found : (s.slot id).resident with
  | none =>
    refine h.change id rfl stored ?_ ?_ ?_
    · rw [measure_some rfl, h.blocks, sum_eq s id, measure_none found, zero_add]
      exact add_holding newBlocks
    · rw [measure_some rfl, h.pages, sum_eq s id, measure_none found, zero_add, charged.pages]
      exact add_holding newPages
    · rw [measure_some rfl, h.bytes, sum_eq s id, measure_none found, zero_add, charged.bytes]
      exact add_holding newBytes
  | some old =>
    have before := charged_slot h found
    have oldBytes := room.bytes
    have oldPages := room.pages
    rw [sum_eq s id, measure_some found] at oldBytes oldPages
    refine h.change id rfl stored ?_ ?_ ?_
    · rw [measure_some rfl, h.blocks, sum_eq s id, measure_some found]
      rfl
    · change (s.residentPages.sub old.chargedPages.value).add entry.chargedPages.value = _
      rw [measure_some rfl, h.pages, sum_eq s id, measure_some found, charged.pages, before.pages]
      change (sub _ old.units.pages).add entry.units.pages = _
      rw [sub_holding oldPages]
      exact add_holding newPages
    · change (s.residentBytes.sub old.chargedBytes.value).add entry.chargedBytes.value = _
      rw [measure_some rfl, h.bytes, sum_eq s id, measure_some found, charged.bytes, before.bytes]
      change (sub _ old.units.bytes).add entry.units.bytes = _
      rw [sub_holding oldBytes]
      exact add_holding newBytes

omit h

/-- The totals fit after each entry that a bulk restore publishes. -/
def RoomAlong (s : BlockIndex) (built : List (BlockId × IndexedBlock)) : Prop :=
  ∀ n, (s.publishAll (built.take n)).Room

variable {built : List (BlockId × IndexedBlock)}

include h in
theorem Accounted.publishAll (made : ∀ e ∈ built, ∃ m al, IndexedBlock.allocated m al = some e.2)
    (fits : s.RoomAlong built) : (s.publishAll built).Accounted := by
  induction built generalizing s with
  | nil => exact h
  | cons e _ ih =>
    obtain ⟨m, _, one⟩ := made e List.mem_cons_self
    have next := h.publish (fits 0) one (fits 1)
    exact ih next (fun e mem => made e (List.mem_cons_of_mem _ mem)) fun n => fits (n + 1)

include h

theorem Accounted.shareBlock {lifecycle tracked : Bool} :
    (s.shareBlock id lifecycle tracked).Accounted := by
  set resident := (s.slot id).resident.map fun entry => if lifecycle then entry.bindPages else entry
    with residentIs
  have charged : ∀ entry, resident = some entry → entry.Charged := by
    intro entry same
    obtain ⟨_, found, rfl⟩ := map_eq_some_iff.mp same
    have before := charged_slot h found
    split
    · exact before.bindPages
    · exact before
  have same (f : IndexedUnits → Nat) (keeps : ∀ entry : IndexedBlock, f entry.bindPages.units = f
    entry.units) :
      DirectoryEntry.measure f ⟨resident, lifecycle, tracked⟩ = (s.slot id).measure f := by
    unfold DirectoryEntry.measure
    rw [residentIs]
    cases (s.slot id).resident with
    | none => rfl
    | some entry =>
      cases lifecycle with
      | true => exact keeps entry
      | false => rfl
  refine h.change id (d := ⟨resident, lifecycle, tracked⟩) rfl charged ?_ ?_ ?_
  · rw [same _ fun _ => rfl, ← sum_eq]
    exact h.blocks
  · rw [same _ IndexedBlock.pages_bindPages, ← sum_eq]
    exact h.pages
  · rw [same _ IndexedBlock.bytes_bindPages, ← sum_eq]
    exact h.bytes

theorem Accounted.sharePage {bound policy : Bool} :
    (s.sharePage id page bound policy).Accounted := by
  unfold BlockIndex.sharePage
  split
  · exact h
  rename_i entry found
  split
  · exact h
  rename_i pages units
  set unit := { (pages.get? page).getD .unbound with bound := bound, policy := policy } with unitIs
  set pages' := if unit.resident || unit.allocated != 0 || bound || policy
    then pages.insert page unit else pages.erase page with pagesIs
  -- neither the bytes nor the residency of any page changes
  have same (w : PageUnit → Nat) (zero : w .unbound = 0)
      (keeps : ∀ (u : PageUnit) (b p : Bool), w { u with bound := b, policy := p } = w u) :
      pages'.total (fun _ => w) = pages.total fun _ => w := by
    rw [total_getD (m := pages) (k := page) zero, ← keeps _ bound policy, ← unitIs, pagesIs]
    split
    · exact total_insert
    · rename_i unused
      have gone : unit = .unbound := by
        simp only [Bool.or_eq_true, bne_iff_ne, not_or, Bool.not_eq_true, not_not] at unused
        obtain ⟨⟨⟨resident, allocated⟩, free⟩, untracked⟩ := unused
        have parts : unit = ⟨unit.resident, unit.allocated, bound, policy⟩ := rfl
        rw [parts, resident, allocated, free, untracked]
        rfl
      rw [gone, zero, zero_add]
  have bytes : (IndexedUnits.paged pages').bytes = entry.units.bytes := by
    rw [units]
    exact same (fun unit => unit.allocated) rfl fun _ _ _ => rfl
  have count : (IndexedUnits.paged pages').pages = entry.units.pages := by
    rw [units]
    exact same (fun unit => unit.resident.toNat) rfl fun _ _ _ => rfl
  have charged := charged_slot h found
  refine h.change id rfl ?_ ?_ ?_ ?_
  · intro e now
    cases now
    exact ⟨by rw [bytes]; exact charged.bytes, by rw [count]; exact charged.pages⟩
  · rw [h.blocks, sum_eq s id, measure_some found]
    rfl
  · rw [measure_some rfl, count, ← measure_some (f := IndexedUnits.pages) found, ← sum_eq]
    exact h.pages
  · rw [measure_some rfl, bytes, ← measure_some (f := IndexedUnits.bytes) found, ← sum_eq]
    exact h.bytes

omit h

theorem buildAll_ok {τ ε : Type} {decode : τ → Except ε (StoredMeta × Allocation)} {input : List τ}
    (done : buildAll input decode = some (.ok built)) :
    ∀ e ∈ built, ∃ m al, IndexedBlock.allocated m al = some e.2 := by
  intro e mem
  obtain ⟨_, decoded, collected⟩ := map_eq_some_iff.mp done
  obtain ⟨result, held, same⟩ := Fallible.mem_of_mapM_ok collected mem
  obtain ⟨_, _, made⟩ := Fallible.mem_of_mapM decoded held
  rw [show result = .ok e from same] at made
  unfold build at made
  split at made
  · cases made
  · obtain ⟨_, allocated, same⟩ := map_eq_some_iff.mp made
    cases same
    exact ⟨_, _, allocated⟩

end BlockIndex

/-- The calls on a block index.  The input of a bulk restore is what its items decode to.  The last
two stand for the page lifecycle and the eviction policy, which share the directory. -/
inductive IndexOp
  | commitShared (m : StoredMeta) (allocated : Allocation)
  | initPaged (id : BlockId) (pageSize len : Nat)
  | markPageAllocated (id : BlockId) (page allocated : Nat)
  | clearPage (id : BlockId) (page : Nat)
  | remove (id : BlockId)
  | restoreAllocated (input : List (Except String (StoredMeta × Allocation)))
  | shareBlock (id : BlockId) (lifecycle tracked : Bool)
  | sharePage (id : BlockId) (page : Nat) (bound policy : Bool)

namespace BlockIndex

variable {s : BlockIndex}

/-- A call that fails, by an assertion or a decode error, changes nothing. -/
def step (s : BlockIndex) : IndexOp → BlockIndex
  | .commitShared m allocated => (s.commitShared m allocated).getD s
  | .initPaged id pageSize len => (s.initPaged id pageSize len).2
  | .markPageAllocated id page allocated => (s.markPageAllocated id page allocated).2
  | .clearPage id page => (s.clearPage id page).2
  | .remove id => (s.remove id).2
  | .restoreAllocated input =>
    match s.tryRestoreAllocated input id with
    | some (.ok t) => t
    | _ => s
  | .shareBlock id lifecycle tracked => s.shareBlock id lifecycle tracked
  | .sharePage id page bound policy => s.sharePage id page bound policy

/-- The exact totals fit after the call and after each entry it publishes. -/
def Fitting (s : BlockIndex) (op : IndexOp) : Prop :=
  (s.step op).Room ∧
    match op with
    | .restoreAllocated input => ∀ built, buildAll input id = some (.ok built) → s.RoomAlong built
    | _ => True

/-- Every operation that fits keeps the counters at what the entries add up to. -/
theorem Accounted.step {op : IndexOp} (h : s.Accounted) (room : s.Room) (fits : s.Fitting op) :
    (s.step op).Accounted := by
  obtain ⟨after, along⟩ := fits
  cases op with
  | commitShared m al =>
    change ((s.commitShared m al).getD s).Room at after
    change ((s.commitShared m al).getD s).Accounted
    cases done : s.commitShared m al with
    | none => exact h
    | some =>
      rw [done] at after
      exact h.commitShared room done after
  | initPaged => exact h.initPaged after
  | markPageAllocated => exact h.markPageAllocated room after
  | clearPage => exact h.clearPage room after
  | remove => exact h.remove room
  | restoreAllocated input =>
    unfold BlockIndex.step
    simp only [tryRestoreAllocated]
    cases made : buildAll input id with
    | none => exact h
    | some result =>
      cases result with
      | error => exact h
      | ok built => exact h.publishAll (buildAll_ok made) (along built made)
  | shareBlock => exact h.shareBlock
  | sharePage => exact h.sharePage

def FittingStep (s t : BlockIndex) : Prop := ∃ op, s.Fitting op ∧ t = s.step op

theorem room_new : new.Room where
  blocks := by decide
  pages := by decide
  bytes := by decide

open Relation in
/-- As long as the exact totals fit into 64 bits, the counters are exact after every call, each
entry is charged for its own units, and no counter has underflowed. -/
theorem accounted_of_fitting_run (run : ReflTransGen FittingStep new s) : s.Accounted := by
  have keeps : ∀ s t, FittingStep s t → s.Accounted ∧ s.Room → t.Accounted ∧ t.Room := by
    rintro s t ⟨_, fits, rfl⟩ ⟨h, room⟩
    exact ⟨h.step room fits, fits.1⟩
  refine (Transition.kept_by_run keeps ⟨⟨rfl, rfl, rfl, fun id d entry known _ => ?_⟩, room_new⟩
    run).1
  cases known

def sampleCalls : List IndexOp :=
  [.initPaged (sampleBlock 0 'v') 4 8, .markPageAllocated (sampleBlock 0 'v') 1 4096,
    .markPageAllocated (sampleBlock 0 'v') 1 8192, .clearPage (sampleBlock 0 'v') 1,
    .commitShared ⟨sampleBlock 0 'v', .whole, 8⟩ [(none, 512)]]

theorem fitting_sampleCalls (n : Nat) (h : n < 5) :
    ((sampleCalls.take (n + 1)).foldl step new).Room := by
  have each : ∀ n < 5, ((sampleCalls.take (n + 1)).foldl step new).sum IndexedUnits.one < 2 ^ 64 ∧
      ((sampleCalls.take (n + 1)).foldl step new).sum IndexedUnits.pages < 2 ^ 64 ∧
      ((sampleCalls.take (n + 1)).foldl step new).sum IndexedUnits.bytes < 2 ^ 64 := by
    decide +kernel
  exact ⟨(each n h).1, (each n h).2.1, (each n h).2.2⟩

open Relation in
theorem accounted_sampleCalls : (sampleCalls.foldl step new).Accounted := by
  refine accounted_of_fitting_run ?_
  refine .head ⟨.initPaged (sampleBlock 0 'v') 4 8, ⟨fitting_sampleCalls 0 (by decide), trivial⟩,
    rfl⟩ ?_
  refine .head ⟨.markPageAllocated (sampleBlock 0 'v') 1 4096,
    ⟨fitting_sampleCalls 1 (by decide), trivial⟩, rfl⟩ ?_
  refine .head ⟨.markPageAllocated (sampleBlock 0 'v') 1 8192,
    ⟨fitting_sampleCalls 2 (by decide), trivial⟩, rfl⟩ ?_
  refine .head ⟨.clearPage (sampleBlock 0 'v') 1, ⟨fitting_sampleCalls 3 (by decide), trivial⟩, rfl⟩
    ?_
  exact .single ⟨.commitShared ⟨sampleBlock 0 'v', .whole, 8⟩ [(none, 512)],
    ⟨fitting_sampleCalls 4 (by decide), trivial⟩, rfl⟩

/-- Two blocks whose bytes do not fit together; the counter saturates, and removing the first block
takes the second one's bytes with it. -/
theorem saturated_counter_loses_a_block :
    let s := [IndexOp.commitShared ⟨sampleBlock 0 'v', .whole, 8⟩ [(none, 2 ^ 64 - 1)],
      .commitShared ⟨sampleBlock 8 'v', .whole, 8⟩ [(none, 1)], .remove (sampleBlock 0 'v')].foldl
      step new
    s.residentBytes.value = 0 ∧ s.sum IndexedUnits.bytes = 1 := by
  decide +kernel

end BlockIndex

end Talon.Worker
