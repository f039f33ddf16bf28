import Mathlib.Algebra.BigOperators.Group.Finset.Piecewise
import Mathlib.Algebra.Order.BigOperators.Group.Finset

/-!
# The hash index of the small-object store

`small_store/lookup.rs`: linear probing over a table of handles.  A control byte keeps five bits of
the hash beside the flags of an entry, and a removed entry leaves a mark behind so that probes go on
past it.
-/

set_option autoImplicit false

namespace Talon.SmallStore

open List Function
open Finset (range)

structure Lookup where
  capacity : Nat := 0
  handles : Nat → Nat := fun _ => 0
  control : Nat → Nat := fun _ => 0
  len : Nat := 0
  deleted : Nat := 0
  epoch : Nat := 0

namespace Lookup

/-- `EMPTY`. -/
def vacant : Nat := 0

/-- `DELETED`. -/
def tombstone : Nat := 2 ^ 32 - 1

def live (handle : Nat) : Prop := handle ≠ vacant ∧ handle ≠ tombstone
deriving Decidable

/-- `hash >> 59`; the `FINGERPRINT` bits of a control byte are the low five, the flags the others.
-/
def fingerprint (hash : Nat) : Nat := hash / 2 ^ 59 % 32

section Model

variable (l : Lookup)

def changed : Option Lookup :=
  if l.epoch + 1 < 2 ^ 64 then some { l with epoch := l.epoch + 1 } else none

def needsReserve (additional : Nat) : Bool := (l.len + l.deleted + additional) * 5 > l.capacity * 4

def flags (slot : Nat) : Nat := l.control slot / 32 * 32

def entry (slot : Nat) : Option (Nat × Nat) :=
  if slot < l.capacity ∧ live (l.handles slot) then some (l.handles slot, l.flags slot) else none

/-- `iter`, without the slots. -/
def iter : List (Nat × Nat) := (List.range l.capacity).filterMap l.entry

/-- The slots in the order in which a loop visits them. -/
def probe (hash : Nat) : List Nat := (List.range l.capacity).rotate (hash % l.capacity)

def findFrom (hash : Nat) (equal : Nat → Nat → Bool) : List Nat → Option Nat
  | [] => none
  | slot :: slots =>
    if l.handles slot = vacant then none
    else if l.handles slot ≠ tombstone ∧ l.control slot % 32 = fingerprint hash ∧
        equal (l.handles slot) (l.flags slot) then some slot
    else findFrom hash equal slots

def find (hash : Nat) (equal : Nat → Nat → Bool) : Option Nat := l.findFrom hash equal
    (l.probe hash)

/-- The first removed slot that the loop passes, and the empty one at which it stops. -/
def freeFrom (removed : Option Nat) : List Nat → Option (Option Nat × Nat)
  | [] => none
  | slot :: slots =>
    if l.handles slot = vacant then some (removed, slot)
    else freeFrom (if l.handles slot = tombstone then removed.or (some slot) else removed) slots

def write (slot handle control : Nat) : Lookup :=
  { l with handles := update l.handles slot handle, control := update l.control slot control }

/-- `insert`; `none` is a panic. -/
def insert (hash handle flags : Nat) : Option (Nat × Lookup) := do
  guard (live handle)
  let (removed, free) ← l.freeFrom none (l.probe hash)
  let slot := removed.getD free
  let next ← { l.write slot handle (fingerprint hash + flags / 32 * 32) with
    len := l.len + 1, deleted := l.deleted - removed.isSome.toNat }.changed
  return (slot, next)

/-- `remove`; `none` is a panic. -/
def remove (slot : Nat) : Option (Nat × Lookup) := do
  guard (slot < l.capacity ∧ live (l.handles slot))
  let next ← { l.write slot tombstone (l.control slot) with
    len := l.len - 1, deleted := l.deleted + 1 }.changed
  return (l.flags slot, next)

def setFlags (slot flags : Nat) : Lookup :=
  l.write slot (l.handles slot) (l.control slot % 32 + flags / 32 * 32)

def fresh (target : Nat) : Lookup :=
  { capacity := ((target * 5 + 3) / 4 + 63) / 64 * 64, epoch := l.epoch }

def refill (hash : Nat → Nat) (next : Lookup) (e : Nat × Nat) : Option Lookup :=
  (next.insert (hash e.1) e.1 e.2).map Prod.snd

def rebuild (additional : Nat) (hash : Nat → Nat) : Option Lookup := do
  let next ← (l.fresh (max (l.len + additional) 16)).changed
  l.iter.foldlM (refill hash) next

end Model

/-- An entry as its caller knows it: the hash it was inserted with, its handle and its flags. -/
abbrev Entry := Nat × Nat × Nat

section Slots

variable {l : Lookup} {origin : Nat → Nat} {slot hash handle control o : Nat}

/-- What a slot contributes, when the entry in it was inserted with the hash `o`. -/
def shown (o handle control : Nat) : Multiset Entry :=
  if live handle then {(o, handle, control / 32 * 32)} else 0

def mark (handle : Nat) : Nat := if handle = tombstone then 1 else 0

def entryAt (l : Lookup) (origin : Nat → Nat) (slot : Nat) : Multiset Entry :=
  shown (origin slot) (l.handles slot) (l.control slot)

def Reaches (l : Lookup) (hash slot : Nat) : Prop :=
  ∃ before after, l.probe hash = before ++ slot :: after ∧ ∀ s ∈ before, l.handles s ≠ vacant

theorem mem_probe : slot ∈ l.probe hash ↔ slot < l.capacity := by
  rw [probe, mem_rotate, List.mem_range]

theorem Reaches.inside (h : l.Reaches hash slot) : slot < l.capacity := by
  obtain ⟨before, after, split, -⟩ := h
  have mem : slot ∈ l.probe hash := split ▸ by simp
  exact mem_probe.mp mem

/-- A probe goes on past a removed slot, so only a write that empties a slot could cut it. -/
theorem Reaches.write (h : l.Reaches hash slot) {s len deleted epoch : Nat}
    (kept : handle = vacant → l.handles s = vacant) :
    Reaches { l.write s handle control with len, deleted, epoch } hash slot := by
  obtain ⟨before, after, split, full⟩ := h
  refine ⟨before, after, split, fun t mem => ?_⟩
  by_cases same : t = s
  · subst same
    simpa [Lookup.write] using mt kept (full t mem)
  · simpa [Lookup.write, same] using full t mem

theorem sum_update {M : Type} [AddCommMonoid M] [PartialOrder M] [Sub M] [OrderedSub M]
    [AddLeftReflectLE M] {n : Nat} (f : Nat → M) (inside : slot < n) (b : M) :
    ∑ i ∈ range n, update f slot b i = ∑ i ∈ range n, f i - f slot + b := by
  have mem := Finset.mem_range.mpr inside
  rw [Finset.sum_update_of_mem mem, ← Finset.add_sum_erase _ f mem, Finset.sdiff_singleton_eq_erase,
    add_tsub_cancel_left, add_comm]

theorem entryAt_write : (l.write slot handle control).entryAt (update origin slot o) =
    update (l.entryAt origin) slot (shown o handle control) := by
  funext s
  by_cases same : s = slot
  · subst same
    simp [entryAt, write]
  · simp [entryAt, write, same]

variable {equal : Nat → Nat → Bool} {slots : List Nat}

theorem findFrom_sound
    (found : l.findFrom hash equal slots = some slot) : slot ∈ slots ∧ live (l.handles slot) ∧
      l.control slot % 32 = fingerprint hash ∧ equal (l.handles slot) (l.flags slot) := by
  fun_induction findFrom with
  | case1 => cases found
  | case2 => cases found
  | case3 s slots full hit =>
    cases found
    exact ⟨mem_cons_self, ⟨full, hit.1⟩, hit.2⟩
  | case4 s slots full miss ih => exact (ih found).imp_left (mem_cons_of_mem _)

theorem findFrom_isSome {before after : List Nat}
    (full : ∀ s ∈ before, l.handles s ≠ vacant) (used : live (l.handles slot))
    (print : l.control slot % 32 = fingerprint hash) (hit : equal (l.handles slot) (l.flags slot)) :
    (l.findFrom hash equal (before ++ slot :: after)).isSome := by
  induction before with
  | nil => simp [findFrom, used.1, used.2, print, hit]
  | cons s before ih =>
    rw [cons_append, findFrom, if_neg (full s mem_cons_self)]
    split
    · rfl
    · exact ih fun t mem => full t (mem_cons_of_mem _ mem)

theorem freeFrom_or {removed : Option Nat} : l.freeFrom removed slots =
    (l.freeFrom none slots).map fun r => (removed.or r.1, r.2) := by
  induction slots generalizing removed with
  | nil => rfl
  | cons s slots ih =>
    rw [freeFrom, freeFrom]
    split
    · simp
    · split
      · rw [ih, @ih (Option.or none _)]
        simp [comp_def]
      · exact ih

theorem freeFrom_spec (room : ∃ s ∈ slots, l.handles s = vacant) :
    ∃ removed free before after, l.freeFrom none slots = some (removed, free) ∧
      slots = before ++ removed.getD free :: after ∧ (∀ s ∈ before, l.handles s ≠ vacant) ∧
      l.handles (removed.getD free) = if removed.isSome then tombstone else vacant := by
  induction slots with
  | nil => simp at room
  | cons s slots ih =>
    rw [freeFrom]
    by_cases empty : l.handles s = vacant
    · exact ⟨none, s, [], slots, if_pos empty, rfl, by simp, empty⟩
    have rest : ∃ s ∈ slots, l.handles s = vacant := by simpa [empty] using room
    rw [if_neg empty]
    obtain ⟨removed, free, before, after, done, rfl, full, there⟩ := ih rest
    rw [freeFrom_or, done]
    by_cases gone : l.handles s = tombstone
    · exact ⟨some s, free, [], _, by simp [gone], rfl, by simp, gone⟩
    · exact ⟨removed, free, s :: before, after, by simp [gone], rfl, by simpa using ⟨empty, full⟩,
        there⟩

end Slots

/-- The table holds the entries `es`, and `room` more of them fit. -/
structure Ok (l : Lookup) (origin : Nat → Nat) (es : Multiset Entry) (room : Nat) : Prop where
  entries : ∑ s ∈ range l.capacity, l.entryAt origin s = es
  tombs : ∑ s ∈ range l.capacity, mark (l.handles s) = l.deleted
  len_eq : l.len = es.card
  chain : ∀ s < l.capacity, live (l.handles s) →
    l.Reaches (origin s) s ∧ l.control s % 32 = fingerprint (origin s)
  load : (l.len + l.deleted + room) * 5 ≤ l.capacity * 4

section Steps

variable {l : Lookup} {origin : Nat → Nat} {es : Multiset Entry} {room slot handle control o : Nat}

theorem Ok.write (ok : l.Ok origin es room) (inside : slot < l.capacity)
    (kept : handle = vacant → l.handles slot = vacant) {tags : Nat → Nat}
    (tag : update origin slot o = tags)
    (chain : live handle → l.Reaches o slot ∧ control % 32 = fingerprint o) {len deleted n : Nat}
    {new : Multiset Entry} (entries : new = es - l.entryAt origin slot + shown o handle control)
    (len_eq : len = new.card)
    (deleted_eq : deleted = l.deleted - mark (l.handles slot) + mark handle)
    (load : (len + deleted + n) * 5 ≤ l.capacity * 4) (epoch : Nat) :
    Ok { l.write slot handle control with len, deleted, epoch } tags new n := by
  subst tag
  refine ⟨?_, ?_, len_eq, fun s within used => ?_, load⟩
  · rw [entries, ← ok.entries]
    exact (congrArg (Finset.sum _) entryAt_write).trans (sum_update _ inside _)
  · have sum := sum_update (mark ∘ l.handles) inside (mark handle)
    rw [← comp_update] at sum
    exact sum.trans (deleted_eq ▸ ok.tombs ▸ rfl)
  · by_cases same : s = slot
    · subst same
      have print := chain (by simpa [Lookup.write] using used)
      simpa [Lookup.write] using print.imp_left (·.write kept)
    · have print := ok.chain s within (by simpa [Lookup.write, same] using used)
      simpa [Lookup.write, same] using print.imp_left (·.write kept)

theorem Ok.vacant (ok : l.Ok origin es room) (some : 0 < l.capacity) (hash : Nat) :
    ∃ s ∈ l.probe hash, l.handles s = vacant := by
  by_contra none
  have one : ∀ s ∈ Finset.range l.capacity, (l.entryAt origin s).card + mark (l.handles s) = 1 := by
    intro s mem
    have full : l.handles s ≠ Lookup.vacant :=
      fun empty => none ⟨s, mem_probe.mpr (Finset.mem_range.mp mem), empty⟩
    by_cases gone : l.handles s = tombstone <;> simp [entryAt, shown, mark, live, full, gone]
  have count := Finset.sum_congr rfl one
  rw [Finset.sum_add_distrib, ← Multiset.card_sum, ok.entries, ok.tombs, ← ok.len_eq] at count
  have load := ok.load
  simp at count
  omega

theorem Ok.insert (ok : l.Ok origin es (room + 1)) (valid : live handle) (hash flags : Nat) :
    ∃ slot next, Ok next (update origin slot hash) (es + {(hash, handle, flags / 32 * 32)}) room ∧
      next.handles = update l.handles slot handle ∧ next.epoch = l.epoch + 1 ∧
      l.insert hash handle flags = if l.epoch + 1 < 2 ^ 64 then some (slot, next) else none := by
  have load := ok.load
  obtain ⟨removed, free, before, after, done, split, full, there⟩ :=
    freeFrom_spec (ok.vacant (by omega) hash)
  have reach : l.Reaches hash (removed.getD free) := ⟨before, after, split, full⟩
  have small : fingerprint hash < 32 := Nat.mod_lt _ (by decide)
  have new : shown hash handle (fingerprint hash + flags / 32 * 32) =
      {(hash, handle, flags / 32 * 32)} := by
    rw [shown, if_pos valid]
    congr 3
    omega
  have old : l.entryAt origin (removed.getD free) = 0 ∧
      mark (l.handles (removed.getD free)) = removed.isSome.toNat := by
    rw [entryAt, there]
    cases removed <;> exact ⟨rfl, rfl⟩
  refine ⟨removed.getD free,
    { l.write (removed.getD free) handle (fingerprint hash + flags / 32 * 32) with
    len := l.len + 1, deleted := l.deleted - removed.isSome.toNat, epoch := l.epoch + 1 },
    ok.write reach.inside (absurd · valid.1) rfl (fun _ => ⟨reach, by omega⟩)
    (by rw [new, old.1, tsub_zero])
      (by simp [ok.len_eq]) (by rw [old.2, mark, if_neg valid.2, add_zero])
      (by omega) _, rfl, rfl, ?_⟩
  simp only [Lookup.insert, done, changed, guard, if_pos valid, pure_bind, Option.bind_eq_bind,
    Option.bind_some]
  change Option.bind (if l.epoch + 1 < 2 ^ 64 then _ else _) _ = _
  split <;> rfl

theorem Ok.entryAt_le (ok : l.Ok origin es room) (inside : slot < l.capacity) :
    l.entryAt origin slot ≤ es :=
  ok.entries ▸ Finset.single_le_sum_of_canonicallyOrdered (Finset.mem_range.mpr inside)

theorem Ok.remove (ok : l.Ok origin es room) {next : Lookup} {flags : Nat}
    (done : l.remove slot = some (flags, next)) :
    Ok next origin (es - l.entryAt origin slot) room := by
  simp only [Lookup.remove, guard, changed] at done
  split at done
  case isFalse => cases done
  rename_i used
  split at done
  case isFalse => cases done
  cases done
  have old : l.entryAt origin slot = {(origin slot, l.handles slot, l.flags slot)} := if_pos used.2
  have held := Multiset.card_le_card (ok.entryAt_le used.1)
  have card : l.len - 1 = (es - l.entryAt origin slot).card := by
    rw [Multiset.card_sub (ok.entryAt_le used.1), old, Multiset.card_singleton, ok.len_eq]
  rw [old, Multiset.card_singleton, ← ok.len_eq] at held
  refine ok.write used.1 (absurd · (by decide)) (update_eq_self slot origin)
    (fun bad => absurd rfl bad.2) (add_zero _).symm
    card ?_ ?_ _
  · rw [mark, if_neg used.2.2]
    rfl
  · have load := ok.load
    omega

theorem Ok.setFlags (ok : l.Ok origin es room) (inside : slot < l.capacity) (flags : Nat) :
    Ok (l.setFlags slot flags) origin
      (es - l.entryAt origin slot + shown (origin slot) (l.handles slot) flags) room := by
  have old := ok.entryAt_le inside
  have new : shown (origin slot) (l.handles slot) (l.control slot % 32 + flags / 32 * 32) =
      shown (origin slot) (l.handles slot) flags := by
    unfold shown
    congr 4
    omega
  have marked : mark (l.handles slot) ≤ l.deleted := ok.tombs ▸
    Finset.single_le_sum_of_canonicallyOrdered (f := fun s => mark (l.handles s))
    (Finset.mem_range.mpr inside)
  refine ok.write inside id (update_eq_self slot origin) (fun used => ?_) (by rw [new]) ?_
    (Nat.sub_add_cancel marked).symm ok.load _
  · have print := ok.chain slot inside used
    exact ⟨print.1, by omega⟩
  · have card : (shown (origin slot) (l.handles slot) flags).card =
        (l.entryAt origin slot).card := by
      unfold entryAt shown
      split <;> rfl
    rw [Multiset.card_add, card, ← Multiset.card_add, tsub_add_cancel_of_le old, ok.len_eq]

theorem Ok.iter_eq (ok : l.Ok origin es room) :
    (l.iter : Multiset (Nat × Nat)) = es.map Prod.snd := by
  have upTo (n : Nat) (within : n ≤ l.capacity) :
    (((List.range n).filterMap l.entry : List _) : Multiset _) =
      (∑ s ∈ range n, l.entryAt origin s).map Prod.snd := by
    induction n with
    | zero => simp
    | succ n ih =>
      rw [List.range_succ, filterMap_append, ← Multiset.coe_add, ih (Nat.le_of_succ_le within),
        Finset.sum_range_succ, Multiset.map_add]
      by_cases used : live (l.handles n) <;> simp [entry, entryAt, shown, used,
        Nat.lt_of_succ_le within, flags]
  exact (upTo _ le_rfl).trans (ok.entries ▸ rfl)

theorem Ok.refill {hash : Nat → Nat} {xs : List (Nat × Nat)}
    (valid : ∀ e ∈ xs, live e.1 ∧ e.2 / 32 * 32 = e.2)
    (ok : l.Ok (hash ∘ l.handles) es (room + xs.length)) :
    (∀ next, xs.foldlM (refill hash) l = some next →
      Ok next (hash ∘ next.handles) (es + ↑(xs.map fun e => (hash e.1, e))) room) ∧
    (l.epoch + xs.length < 2 ^ 64 → (xs.foldlM (refill hash) l).isSome) := by
  induction xs generalizing l es with
  | nil =>
    refine ⟨fun next done => ?_, fun _ => rfl⟩
    cases done
    simpa using ok
  | cons e xs ih =>
    obtain ⟨slot, next, ok, handles, epoch, done⟩ := ok.insert (valid e mem_cons_self).1
      (hash e.1) e.2
    rw [foldlM_cons, Lookup.refill, done]
    split
    case isFalse full => exact ⟨fun _ bad => (by cases bad), fun fits => absurd fits
      (by simp; omega)⟩
    rw [← comp_update, ← handles, (valid e mem_cons_self).2] at ok
    obtain ⟨same, rest⟩ := ih (fun e' mem => valid e' (mem_cons_of_mem _ mem)) ok
    refine ⟨fun last last_eq => ?_, fun fits => rest (by simp at fits; omega)⟩
    have all := same last last_eq
    rwa [add_assoc, Multiset.singleton_add, Multiset.cons_coe] at all

theorem Ok.rebuild (ok : l.Ok origin es room) (additional : Nat) (hash : Nat → Nat) :
    (∀ next, l.rebuild additional hash = some next →
      Ok next (hash ∘ next.handles) (es.map fun e => (hash e.2.1, e.2)) additional) ∧
    (l.epoch + 1 + l.len < 2 ^ 64 → (l.rebuild additional hash).isSome) := by
  have valid (e : Nat × Nat) (mem : e ∈ l.iter) : live e.1 ∧ e.2 / 32 * 32 = e.2 := by
    obtain ⟨slot, -, shown⟩ := mem_filterMap.mp mem
    unfold entry at shown
    split at shown
    · rename_i used
      cases shown
      exact ⟨used.2, by simp [flags]⟩
    · cases shown
  have size : l.iter.length = l.len := by
    rw [ok.len_eq, ← Multiset.card_map Prod.snd, ← ok.iter_eq, Multiset.coe_card]
  have start : Ok { l.fresh (max (l.len + additional) 16) with epoch := l.epoch + 1 }
    (hash ∘ fun _ => 0) 0
      (additional + l.iter.length) := by
    refine ⟨?_, ?_, rfl, ?_, ?_⟩
    · simp [entryAt, shown, live, fresh, Lookup.vacant]
    · simp [mark, fresh, tombstone]
    · simp [live, fresh, Lookup.vacant]
    · simp only [fresh, size]
      omega
  obtain ⟨held, fits⟩ := start.refill valid
  have all : (0 : Multiset Entry) + ↑(l.iter.map fun e => (hash e.1, e)) = es.map fun e =>
      (hash e.2.1, e.2) := by
    rw [zero_add, ← Multiset.map_coe, ok.iter_eq, Multiset.map_map]
    rfl
  rw [all] at held
  rw [Lookup.rebuild, changed]
  split
  · exact ⟨held, fun small => fits (size ▸ small)⟩
  · rename_i full
    exact ⟨fun _ bad => (by cases bad), fun small => absurd (Nat.lt_of_add_right_lt small) full⟩

variable {equal : Nat → Nat → Bool}

theorem Ok.find_sound (ok : l.Ok origin es room) {hash : Nat}
    (found : l.find hash equal = some slot) :
    ∃ e ∈ es, l.entry slot = some e.2 ∧ fingerprint e.1 = fingerprint hash ∧ equal e.2.1 e.2.2 := by
  obtain ⟨mem, used, print, hit⟩ := findFrom_sound found
  have inside := mem_probe.mp mem
  refine ⟨(origin slot, l.handles slot, l.flags slot), ?_, if_pos ⟨inside, used⟩, ?_, hit⟩
  · exact Multiset.singleton_le.mp ((if_pos used).symm.trans_le (ok.entryAt_le inside))
  · exact (ok.chain slot inside used).2.symm.trans print

theorem Ok.find_isSome (ok : l.Ok origin es room) {e : Entry} (mem : e ∈ es)
    (hit : equal e.2.1 e.2.2) : (l.find e.1 equal).isSome := by
  rw [← ok.entries, Multiset.mem_sum] at mem
  obtain ⟨s, inside, mem⟩ := mem
  rw [entryAt, shown] at mem
  split at mem
  case isFalse => cases mem
  rename_i used
  obtain rfl := Multiset.mem_singleton.mp mem
  obtain ⟨⟨before, after, split, full⟩, print⟩ := ok.chain s (Finset.mem_range.mp inside) used
  rw [find, split]
  exact findFrom_isSome full used print hit

end Steps

/-- What calls lead to: a table, the hash with which the entry of each slot was inserted, the
entries that were inserted and not removed, and how many more have been reserved. -/
inductive Reached : Lookup → (Nat → Nat) → Multiset Entry → Nat → Prop
  | default (origin : Nat → Nat) : Reached {} origin 0 0
  | reserve {l origin es room} (h : Reached l origin es room) {n : Nat}
      (enough : l.needsReserve n = false) :
      Reached l origin es n
  | rebuild {l origin es room} (h : Reached l origin es room) (n : Nat) (hash : Nat → Nat)
      {next : Lookup}
      (known : ∀ e ∈ es, hash e.2.1 = e.1) (done : l.rebuild n hash = some next) :
      Reached next (hash ∘ next.handles) es n
  | insert {l origin es room} (h : Reached l origin es (room + 1)) (hash handle flags : Nat)
      {slot : Nat}
      {next : Lookup} (done : l.insert hash handle flags = some (slot, next)) :
      Reached next (update origin slot hash) (es + {(hash, handle, flags / 32 * 32)}) room
  | remove {l origin es room} (h : Reached l origin es room) {slot flags : Nat} {next : Lookup}
      (done : l.remove slot = some (flags, next)) :
      Reached next origin (es - l.entryAt origin slot) room
  | setFlags {l origin es room} (h : Reached l origin es room) {slot : Nat}
      (inside : slot < l.capacity)
      (flags : Nat) : Reached (l.setFlags slot flags) origin
        (es - l.entryAt origin slot + shown (origin slot) (l.handles slot) flags) room

section Runs

variable {l : Lookup} {origin : Nat → Nat} {es : Multiset Entry} {room : Nat}

theorem Reached.ok (h : Reached l origin es room) : l.Ok origin es room := by
  induction h with
  | default origin => exact ⟨rfl, rfl, rfl, fun s bad => (by cases bad), le_rfl⟩
  | reserve h enough ok => exact ⟨ok.entries, ok.tombs, ok.len_eq, ok.chain, by simpa [needsReserve]
      using enough⟩
  | rebuild h n hash known done ok =>
    have held := (ok.rebuild n hash).1 _ done
    rwa [Multiset.map_congr rfl fun e mem => congrArg (·, e.2) (known e mem),
      Multiset.map_id'] at held
  | insert h hash handle flags done ok =>
    by_cases valid : live handle
    · obtain ⟨slot', next', ok', -, -, eq⟩ := ok.insert valid hash flags
      rw [eq] at done
      split at done
      · cases done
        exact ok'
      · cases done
    · simp [Lookup.insert, guard, valid, failure] at done
  | remove h done ok => exact ok.remove done
  | setFlags h inside flags ok => exact ok.setFlags inside flags

/-- Over any calls the counters are exact, an empty slot ends every probe, insertions into reserved
room succeed, and `find` sees each entry under its hash. -/
theorem lookup_exact (h : Reached l origin es room) :
    l.len = es.card ∧ ∑ s ∈ range l.capacity, mark (l.handles s) = l.deleted ∧
    (l.len + l.deleted) * 5 ≤ l.capacity * 4 ∧
    (0 < l.capacity → ∃ s < l.capacity, l.handles s = vacant) ∧
    (∀ hash handle flags, 0 < room → live handle → l.epoch + 1 < 2 ^ 64 →
      (l.insert hash handle flags).isSome) ∧
    (∀ additional hash, l.epoch + 1 + l.len < 2 ^ 64 → (l.rebuild additional hash).isSome) ∧
    ∀ hash equal,
      (∀ slot, l.find hash equal = some slot →
        ∃ e ∈ es, l.entry slot = some e.2 ∧ fingerprint e.1 = fingerprint hash ∧
          equal e.2.1 e.2.2) ∧
      ((∃ e ∈ es, e.1 = hash ∧ equal e.2.1 e.2.2) → (l.find hash equal).isSome) ∧
      ((∀ e ∈ es, equal e.2.1 e.2.2 → e.1 = hash) →
        ((l.find hash equal).isSome ↔ ∃ e ∈ es, e.1 = hash ∧ equal e.2.1 e.2.2)) := by
  have ok := h.ok
  have found {hash equal} (some : ∃ e ∈ es, e.1 = hash ∧ equal e.2.1 e.2.2) :
      (l.find hash equal).isSome := by
    obtain ⟨e, mem, rfl, hit⟩ := some
    exact ok.find_isSome mem hit
  refine ⟨ok.len_eq, ok.tombs, by have := ok.load; omega,
    fun some => (ok.vacant some 0).imp fun _ => .imp_left mem_probe.mp,
      fun hash handle flags more valid fits => ?_,
    fun additional hash => (ok.rebuild additional hash).2, fun hash equal =>
      ⟨fun slot => ok.find_sound, found, fun only => ⟨fun some => ?_, found⟩⟩⟩
  · obtain ⟨n, rfl⟩ := Nat.exists_eq_add_of_lt more
    rw [Nat.zero_add] at ok
    obtain ⟨slot, next, -, -, -, eq⟩ := ok.insert valid hash flags
    rw [eq, if_pos fits]
    rfl
  · obtain ⟨slot, found⟩ := Option.isSome_iff_exists.mp some
    obtain ⟨e, mem, -, -, hit⟩ := ok.find_sound found
    exact ⟨e, mem, only e mem hit, hit⟩

/-- Two hashes that start at one slot; the entry of the first has been removed. -/
theorem lookup_exact_collision : ∃ l origin, Reached l origin {(64, 2, 32)} 1 ∧ l.deleted = 1 ∧
    (l.find 64 fun handle _ => handle = 2).isSome ∧
      ¬ (l.find 0 fun handle _ => handle = 1).isSome := by
  have start := (Reached.default id).rebuild 3 id (by simp) rfl
  have two := (start.insert 0 1 0 rfl).insert 64 2 32 rfl
  have removed := two.remove (show Lookup.remove _ 0 = some (0, _) from rfl)
  rw [show (_ : Multiset Entry) - _ = {(64, 2, 32)} by decide] at removed
  obtain ⟨-, -, -, -, -, -, finds⟩ := lookup_exact removed
  refine ⟨_, _, removed, rfl, (finds 64 _).2.1 ⟨_, Multiset.mem_singleton_self _, rfl, rfl⟩, ?_⟩
  rw [(finds 0 _).2.2 (by simp)]
  simp

/-- Rebuilding an empty table only counts the epoch. -/
theorem reached_epoch {n : Nat} (fits : n + 1 < 2 ^ 64) :
    ∃ origin, Reached { capacity := 64, epoch := n + 1 } origin 0 1 := by
  induction n with
  | zero => exact ⟨_, (Reached.default id).rebuild 1 id (by simp) rfl⟩
  | succ n ih =>
    obtain ⟨origin, reached⟩ := ih (by omega)
    have none : iter { capacity := 64, epoch := n + 1 } = [] := by simp [iter, entry, live, vacant]
    refine ⟨_, reached.rebuild 1 id (by simp) ?_⟩
    rw [rebuild, changed, fresh, if_pos fits, none]
    simp

/-- `find` compares five bits of a hash, so the caller's test decides; a rebuild with other hashes
hides what is there; `insert` panics on the two reserved handles and, as `rebuild`, when the epoch
is exhausted. -/
theorem find_other_hash :
    (∃ l origin es room, Reached l origin es room ∧ (l.find 64 fun _ _ => true).isSome ∧
      ¬ ∃ e ∈ es, e.1 = 64) ∧
    (∃ l origin room, Reached l origin {(0, 1, 0)} room ∧
      ∃ next, l.rebuild 1 (fun _ => 1) = some next ∧
        (next.find 0 fun handle _ => handle = 1) = none) ∧
    (∃ l origin es, Reached l origin es 1 ∧ l.insert 0 vacant 0 = none ∧
      l.insert 0 tombstone 0 = none) ∧
    ∃ l origin es, Reached l origin es 1 ∧ l.insert 0 1 0 = none ∧ l.rebuild 1 id = none := by
  have empty := (Reached.default id).rebuild 1 id (by simp) rfl
  obtain ⟨origin, last⟩ := reached_epoch (n := 2 ^ 64 - 2) (by decide)
  have one := empty.insert 0 1 0 rfl
  exact ⟨⟨_, _, _, _, one, by decide, by simp⟩, ⟨_, _, _, one, _, rfl, by decide⟩,
    ⟨_, _, _, empty, by decide, by decide⟩, _, origin, _, last, rfl, rfl⟩

end Runs

end Lookup

end Talon.SmallStore
