import Talon.Lib.Extents
import Talon.Lib.SortedMap

/-!
# The compact page map

`page_table.rs`: the pages of a block are kept in one inline slot, in a sorted array of up to four
or in a tree.  Whatever form it has, the map answers like the ordered map of its pages; only a range
whose start lies behind its end shows the form, since the tree alone refuses it.
-/

set_option autoImplicit false

namespace Talon.Worker

open List Option

variable {V : Type}

/-- `RangeBounds<u32>`, one end of it. -/
inductive PageBound
  | included (page : Nat)
  | excluded (page : Nat)
  | unbounded

namespace PageBound

/-- `RangeBounds::contains`. -/
def contains (start stop : PageBound) (page : Nat) : Bool :=
  (match start with
    | included s => s ≤ page
    | excluded s => s < page
    | unbounded => true) &&
  match stop with
    | included e => page ≤ e
    | excluded e => page < e
    | unbounded => true

/-- The ranges on which `BTreeMap::range` panics. -/
def inverted : PageBound → PageBound → Bool
  | excluded s, excluded e => e ≤ s
  | included s, included e | included s, excluded e | excluded s, included e => e < s
  | _, _ => false

end PageBound

inductive PageMap (V : Type)
  | one (slot : Option (Nat × V))
  | few (pages : List (Nat × V))
  | many (pages : SortedMap Nat V)

namespace PageMap

/-- `binary_search_by_key` of a sorted array: where the page is or has its place. -/
def search (pages : List (Nat × V)) (key : Nat) : Except Nat Nat :=
  let place := (pages.takeWhile fun e => e.1 < key).length
  if (pages[place]?).any fun e => e.1 == key then .ok place else .error place

def default : PageMap V := one none

def iter : PageMap V → List (Nat × V)
  | one slot => slot.toList
  | few pages => pages
  | many pages => pages.entries

def len : PageMap V → Nat
  | one slot => slot.isSome.toNat
  | few pages => pages.length
  | many pages => pages.entries.length

/-- `get_mut`: the value, and what a write through the reference makes of the map. -/
def getMut (p : PageMap V) (key : Nat) : Option (V × (V → PageMap V)) :=
  match p with
  | one slot => (slot.filter fun e => e.1 == key).map fun e => (e.2, fun v => one (some (e.1, v)))
  | few pages =>
    match search pages key with
    | .ok i => pages[i]?.map fun e => (e.2, fun v => few (pages.set i (e.1, v)))
    | .error _ => none
  | many pages => (pages.get? key).map fun old => (old, fun v => many (pages.insert key v))

/-- `get` searches as `get_mut` does. -/
def get (p : PageMap V) (key : Nat) : Option V := (p.getMut key).map Prod.fst

/-- An inline slot with another page becomes an array. -/
def spill (p : PageMap V) (key : Nat) : PageMap V :=
  match p with
  | one (some old) => if old.1 ≠ key then few [old] else p
  | _ => p

/-- A full array without the page becomes a tree. -/
def plant (p : PageMap V) (key : Nat) : PageMap V :=
  match p with
  | few pages =>
    match search pages key with
    | .error _ => if pages.length = 4 then many (SortedMap.empty.insertAll pages) else p
    | .ok _ => p
  | _ => p

/-- `get_or_insert_with`: whether the value is a new one, the value, and what a write through the
reference makes of the map; `none` is an index out of bounds. -/
def getOrInsertWith (p : PageMap V) (key : Nat) (create : V) :
    Option (Bool × V × (V → PageMap V)) :=
  match (p.spill key).plant key with
  | one none => some (true, create, fun v => one (some (key, v)))
  | one (some e) => some (false, e.2, fun v => one (some (e.1, v)))
  | few pages =>
    match search pages key with
    | .ok i => pages[i]?.map fun e => (false, e.2, fun v => few (pages.set i (e.1, v)))
    | .error i => some (true, create, fun v => few (pages.insertIdx i (key, v)))
  | many pages =>
    some ((pages.get? key).isNone, (pages.get? key).getD create, fun v => many (pages.insert key v))

/-- The value stays in the closure if the page is there, and then replaces the old one. -/
def insert (p : PageMap V) (key : Nat) (value : V) : Option (Option V × PageMap V) :=
  (p.getOrInsertWith key value).map fun (new, old, write) =>
    (if new then none else some old, write value)

/-- A tree of four pages becomes an array, and an array of one page an inline slot. -/
def shrink (p : PageMap V) : PageMap V :=
  let p := match p with
    | many pages => if pages.entries.length ≤ 4 then few pages.entries else p
    | _ => p
  match p with
  | few pages => if pages.length ≤ 1 then one pages.getLast? else p
  | _ => p

def remove (p : PageMap V) (key : Nat) : Option V × PageMap V :=
  match p with
  | one slot => if slot.any fun e => e.1 == key then (slot.map Prod.snd, one none)
      else (none, one slot)
  | few pages =>
    match search pages key with
    | .ok i => (pages[i]?.map Prod.snd, (few (pages.eraseIdx i)).shrink)
    | .error _ => (none, (few pages).shrink)
  | many pages => (pages.get? key, (many (pages.erase key)).shrink)

/-- `iter_mut`, with what the caller makes of each value. -/
def iterMut (p : PageMap V) (f : Nat → V → V) : PageMap V :=
  match p with
  | one slot => one (slot.map fun e => (e.1, f e.1 e.2))
  | few pages => few (pages.map fun e => (e.1, f e.1 e.2))
  | many pages => many (pages.map f)

/-- `range`; `none` is the panic of the tree. -/
def range (p : PageMap V) (start stop : PageBound) : Option (List (Nat × V)) :=
  match p with
  | one slot => some (slot.filter fun e => start.contains stop e.1).toList
  | few pages => some (pages.filter fun e => start.contains stop e.1)
  | many pages =>
    if start.inverted stop then none else some (pages.entries.filter fun e =>
      start.contains stop e.1)

end PageMap

/-- The forms that calls lead to, and the ordered map that the same calls make.  A caller writes
through the references it is given. -/
inductive PageMap.Reached : PageMap V → SortedMap Nat V → Prop
  | default : Reached .default .empty
  | getOrInsertWith {p m new v write} (key : Nat) (create : V) (h : Reached p m)
      (done : p.getOrInsertWith key create = some (new, v, write)) (w : V) :
      Reached (write w) (m.insert key w)
  | getMut {p m key v write} (h : Reached p m) (done : p.getMut key = some (v, write)) (w : V) :
      Reached (write w) (m.insert key w)
  | remove {p m} (key : Nat) (h : Reached p m) : Reached (p.remove key).2 (m.erase key)
  | clear {p m} (h : Reached p m) : Reached .default .empty
  | iterMut {p m} (f : Nat → V → V) (h : Reached p m) : Reached (p.iterMut f) (m.map f)

namespace PageMap

/-- The map has the pages of `m`, and a tree only for more than four. -/
def Shows : PageMap V → SortedMap Nat V → Prop
  | one slot, m => m.entries = slot.toList
  | few pages, m => m.entries = pages ∧ pages.length ≤ 4
  | many pages, m => pages = m ∧ 4 < m.entries.length

variable {p : PageMap V} {m : SortedMap Nat V} {key : Nat} {slot : Option (Nat × V)}

section Search

theorem search_some {v : V} (found : m.get? key = some v) : ∃ i, search m.entries key = .ok i ∧
    m.entries[i]? = some (key, v) ∧ (∀ w, (m.insert key w).entries = m.entries.set i (key, w)) ∧
    (m.erase key).entries = m.entries.eraseIdx i := by
  have split := m.entries_around (k := key)
  have erased := m.entries_erase (k := key)
  have inserted (w : V) : (m.insert key w).entries = _ ++ (key, w) :: _ := rfl
  rw [search, Extents.takeWhile_eq_filter m.sorted]
  generalize m.entries.filter (fun e => e.1 < key) = front at *
  generalize m.entries.filter (fun e => key < e.1) = back at *
  exact ⟨front.length, by simp [split, found], by simp [split, found], by simp [inserted,
    split, found], by simp [erased, split, found, eraseIdx_append_of_length_le]⟩

theorem search_none (absent : m.get? key = none) : ∃ i, search m.entries key = .error i ∧
    ∀ w, (m.insert key w).entries = m.entries.insertIdx i (key, w) ∧
      (m.insert key w).entries.length = m.entries.length + 1 := by
  have split := m.entries_around (k := key)
  have inserted (w : V) : (m.insert key w).entries = _ ++ (key, w) :: _ := rfl
  have high : ∀ e ∈ m.entries.filter (fun e => key < e.1), key < e.1 := by simp
  rw [search, Extents.takeWhile_eq_filter m.sorted]
  generalize m.entries.filter (fun e => e.1 < key) = front at *
  generalize m.entries.filter (fun e => key < e.1) = back at *
  refine ⟨front.length, ?_, fun w => ?_⟩
  · cases back with
    | nil => simp [split, absent]
    | cons e back => simp [split, absent, (high e mem_cons_self).ne']
  · simp [inserted, split, absent, Extents.insertIdx_length, Nat.add_assoc]

end Search

theorem Shows.iter_eq (h : p.Shows m) : p.iter = m.entries := by
  cases p with
  | one slot => exact h.symm
  | few pages => exact h.1.symm
  | many pages => rw [iter, h.1]

theorem Shows.len_eq (h : p.Shows m) : p.len = m.entries.length := by
  rw [← h.iter_eq]
  cases p with
  | one slot => cases slot <;> rfl
  | few pages => rfl
  | many pages => rfl

theorem get?_of_one (h : m.entries = slot.toList) :
    m.get? key = (slot.filter fun e => e.1 == key).map Prod.snd := by
  rw [SortedMap.get?, h]
  cases slot with
  | none => rfl
  | some e => by_cases same : e.1 = key <;> simp [same, Option.filter]

/-- A write through a reference to the value of a key. -/
abbrev Writes (m : SortedMap Nat V) (key : Nat) (write : V → PageMap V) : Prop :=
  ∀ w, (write w).Shows (m.insert key w)

theorem writes_one {e : Nat × V} (h : m.entries = [e]) :
    Writes m e.1 fun w => one (some (e.1, w)) := by
  intro w
  simp [Shows, SortedMap.insert, h]

theorem writes_many (large : 4 < m.entries.length) :
    Writes m key fun w => many (m.insert key w) := by
  intro w
  refine ⟨rfl, ?_⟩
  cases found : m.get? key with
  | none =>
    obtain ⟨_, _, put⟩ := search_none found
    rw [(put w).2]
    omega
  | some v =>
    obtain ⟨_, _, _, set, _⟩ := search_some found
    simpa [set] using large

theorem Shows.getMut (h : p.Shows m) (key : Nat) : p.getMut key = none ∧ m.get? key = none ∨
    ∃ v write, p.getMut key = some (v, write) ∧ m.get? key = some v ∧ Writes m key write := by
  cases p with
  | one slot =>
    rw [get?_of_one h]
    cases slot with
    | none => exact .inl ⟨rfl, rfl⟩
    | some e =>
      by_cases same : e.1 = key
      · subst same
        exact .inr ⟨e.2, _, by simp [PageMap.getMut, Option.filter], by simp [Option.filter],
          writes_one h⟩
      · exact .inl (by simp [PageMap.getMut, Option.filter, same])
  | few pages =>
    obtain ⟨rfl, small⟩ := h
    rw [PageMap.getMut]
    cases found : m.get? key with
    | none =>
      obtain ⟨i, place, -⟩ := search_none found
      exact .inl ⟨by rw [place], rfl⟩
    | some v =>
      obtain ⟨i, place, here, set, -⟩ := search_some found
      simp only [place, here, map_some]
      exact .inr ⟨v, _, rfl, rfl, fun w => ⟨set w, by simpa using small⟩⟩
  | many pages =>
    obtain ⟨rfl, large⟩ := h
    cases found : pages.get? key with
    | none => exact .inl ⟨by rw [PageMap.getMut, found]; rfl, rfl⟩
    | some v => exact .inr ⟨v, _, by rw [PageMap.getMut, found]; rfl, rfl, writes_many large⟩

theorem Shows.get_eq (h : p.Shows m) (key : Nat) : p.get key = m.get? key := by
  rcases h.getMut key with ⟨made, absent⟩ | ⟨v, write, made, found, -⟩
  · rw [get, made, absent, map_none]
  · rw [get, made, found, map_some]

theorem Shows.spill (h : p.Shows m) (key : Nat) : (p.spill key).Shows m := by
  unfold PageMap.spill
  split
  · split
    · exact ⟨h, by simp⟩
    · exact h
  · exact h

theorem Shows.getOrInsertWith (h : p.Shows m) (key : Nat) (create : V) : ∃ write,
    p.getOrInsertWith key create = some ((m.get? key).isNone, (m.get? key).getD create, write) ∧
      Writes m key write := by
  have shows := h.spill key
  have own : ∀ e, p.spill key = one (some e) → e.1 = key := by
    intro e same
    unfold PageMap.spill at same
    split at same
    · split at same
      · cases same
      · rename_i old other
        cases same
        exact not_not.mp other
    · rename_i none_
      exact absurd same (none_ e)
  unfold PageMap.getOrInsertWith
  generalize p.spill key = q at *
  cases q with
  | one slot =>
    cases slot with
    | none =>
      cases SortedMap.eq_of_entries (n := .empty) shows
      exact ⟨_, rfl, fun w => rfl⟩
    | some e =>
      cases own e rfl
      have value : m.get? e.1 = some e.2 := by simp [get?_of_one shows, Option.filter]
      rw [value]
      exact ⟨_, rfl, writes_one shows⟩
  | few pages =>
    obtain ⟨rfl, small⟩ := shows
    cases found : m.get? key with
    | none =>
      obtain ⟨i, place, put⟩ := search_none found
      by_cases full : m.entries.length = 4
      · -- the tree has four pages until the new one is inserted
        simp only [plant, place, full, if_true, SortedMap.insertAll_entries, found]
        exact ⟨_, rfl, fun w => ⟨rfl, by have := (put w).2; omega⟩⟩
      · simp only [plant, place, full, if_false]
        refine ⟨_, rfl, fun w => ⟨(put w).1, ?_⟩⟩
        rw [← (put w).1, (put w).2]
        omega
    | some v =>
      obtain ⟨i, place, here, set, -⟩ := search_some found
      simp only [plant, place, here, map_some]
      exact ⟨_, rfl, fun w => ⟨set w, by simpa using small⟩⟩
  | many pages =>
    obtain ⟨rfl, large⟩ := shows
    exact ⟨_, rfl, writes_many large⟩

theorem Shows.plant_iter (h : p.Shows m) (key : Nat) : (p.plant key).iter = m.entries := by
  unfold plant
  split
  · obtain ⟨rfl, -⟩ := h
    split
    · split
      · rw [SortedMap.insertAll_entries, iter]
      · rfl
    · rfl
  · exact h.iter_eq

theorem few_shrink (short : m.entries.length ≤ 4) : (few m.entries).shrink.Shows m := by
  rw [shrink]
  split
  · rename_i last
    generalize found : m.entries = l at last
    match l with
    | [] => exact found
    | [e] => exact found
  · exact ⟨rfl, short⟩

theorem many_shrink (m : SortedMap Nat V) : (many m).shrink.Shows m := by
  by_cases short : m.entries.length ≤ 4
  · have array : (many m).shrink = (few m.entries).shrink := by simp [shrink, short]
    exact array ▸ few_shrink short
  · have tree : (many m).shrink = many m := by simp [shrink, short]
    rw [tree]
    exact ⟨rfl, Nat.lt_of_not_le short⟩

theorem Shows.remove (h : p.Shows m) (key : Nat) :
    (p.remove key).1 = m.get? key ∧ (p.remove key).2.Shows (m.erase key) := by
  cases p with
  | one slot =>
    have pages : m.entries = slot.toList := h
    rw [get?_of_one h]
    cases slot with
    | none => simp [PageMap.remove, Shows, SortedMap.erase, pages]
    | some e =>
      by_cases same : e.1 = key <;>
        simp [PageMap.remove, Shows, SortedMap.erase, pages, Option.filter, same]
  | few pages =>
    obtain ⟨rfl, small⟩ := h
    cases found : m.get? key with
    | none =>
      obtain ⟨i, place, -⟩ := search_none found
      rw [SortedMap.erase_of_none found, PageMap.remove, place]
      exact ⟨rfl, few_shrink small⟩
    | some v =>
      obtain ⟨i, place, here, -, erased⟩ := search_some found
      simp only [PageMap.remove, place, here, map_some, true_and, ← erased]
      refine few_shrink ?_
      rw [erased]
      exact (length_eraseIdx_le _ _).trans small
  | many pages =>
    obtain ⟨rfl, -⟩ := h
    exact ⟨rfl, many_shrink _⟩

theorem Shows.iterMut (h : p.Shows m) (f : Nat → V → V) : (p.iterMut f).Shows (m.map f) := by
  cases p with
  | one slot => cases slot <;> simp [Shows, PageMap.iterMut, SortedMap.map,
      show m.entries = _ from h]
  | few pages =>
    obtain ⟨rfl, small⟩ := h
    exact ⟨rfl, by simpa using small⟩
  | many pages =>
    obtain ⟨rfl, large⟩ := h
    exact ⟨rfl, by simpa [SortedMap.map] using large⟩

theorem Shows.range (h : p.Shows m) (start stop : PageBound) :
    p.range start stop = if start.inverted stop = true ∧ 4 < m.entries.length then none
      else some (m.entries.filter fun e => start.contains stop e.1) := by
  cases p with
  | one slot =>
    rw [show m.entries = slot.toList from h]
    cases slot <;> simp [PageMap.range, filter, filter_cons, apply_ite]
  | few pages =>
    obtain ⟨rfl, small⟩ := h
    rw [PageMap.range, if_neg fun tree => absurd tree.2 (Nat.not_lt.mpr small)]
  | many pages =>
    obtain ⟨rfl, large⟩ := h
    simp only [PageMap.range, large, and_true]

theorem Reached.shows (h : Reached p m) : p.Shows m := by
  induction h with
  | default => rfl
  | getOrInsertWith key create _ done w ih =>
    obtain ⟨_, made, writes⟩ := ih.getOrInsertWith key create
    cases made.symm.trans done
    exact writes w
  | getMut _ done w ih =>
    rcases ih.getMut _ with ⟨absent, _⟩ | ⟨_, _, made, _, writes⟩
    · cases absent.symm.trans done
    · cases made.symm.trans done
      exact writes w
  | remove key _ ih => exact (ih.remove key).2
  | clear => rfl
  | iterMut f _ ih => exact ih.iterMut f

/-- Whatever form the map has, every call gives the answer of the ordered map, whose pages it has in
increasing order; changing the form keeps them.  A range gives its pages, except that an inverted
one panics on five or more. -/
theorem page_map_ordered (h : Reached p m) :
    p.iter = m.entries ∧ p.iter.Pairwise (fun a b => a.1 < b.1) ∧ p.len = m.entries.length ∧
    (∀ start stop, p.range start stop = if start.inverted stop = true ∧ 4 < p.len then none
      else some (m.entries.filter fun e => PageBound.contains start stop e.1)) ∧
    ∀ key, p.get key = m.get? key ∧ (p.remove key).1 = m.get? key ∧
      (∀ create, ∃ write, p.getOrInsertWith key create =
        some ((m.get? key).isNone, (m.get? key).getD create, write)) ∧
      (∀ value, (p.insert key value).map Prod.fst = some (m.get? key)) ∧
      (p.spill key).iter = p.iter ∧ ((p.spill key).plant key).iter = p.iter := by
  have shows := h.shows
  have pages := shows.iter_eq
  refine ⟨pages, pages ▸ m.sorted, shows.len_eq, fun start stop =>
    shows.len_eq ▸ shows.range start stop,
    fun key => ⟨shows.get_eq key, (shows.remove key).1, fun create => ?_, fun value => ?_,
      (shows.spill key).iter_eq.trans pages.symm, ((shows.spill key).plant_iter key).trans
      pages.symm⟩⟩
  · obtain ⟨write, given, _⟩ := shows.getOrInsertWith key create
    exact ⟨write, given⟩
  · obtain ⟨write, given, _⟩ := shows.getOrInsertWith key value
    rw [insert, given]
    cases m.get? key <;> rfl

theorem exists_five_pages : ∃ (p : PageMap Bool) (m : SortedMap Nat Bool), p.Reached m ∧
    m.entries = [(0, true), (1, false), (2, true), (3, false), (4, true)] := by
  have two := Reached.getOrInsertWith 3 true (Reached.getOrInsertWith 1 true .default rfl false) rfl
    false
  have four := Reached.getOrInsertWith 2 true (Reached.getOrInsertWith 4 true two rfl true) rfl true
  exact ⟨_, _, Reached.getOrInsertWith 0 true four rfl true, rfl⟩

/-- A tree of five pages answers a range, refuses an inverted one and becomes an array again. -/
theorem page_map_ordered_five :
    ∃ (p : PageMap Bool) (m : SortedMap Nat Bool), p.Reached m ∧ p.len = 5 ∧
    p.range (.included 1) (.excluded 3) = some [(1, false), (2, true)] ∧
    p.range (.included 3) (.excluded 1) = none ∧ (p.remove 3).2.len = 4 := by
  obtain ⟨p, m, reached, pages⟩ := exists_five_pages
  obtain ⟨-, -, len, range, -⟩ := page_map_ordered reached
  obtain ⟨-, -, removed, -⟩ := page_map_ordered (reached.remove 3)
  refine ⟨p, m, reached, by rw [len, pages]; rfl, ?_, ?_, ?_⟩
  · rw [range, len, pages]; rfl
  · rw [range, len, pages]; rfl
  · rw [removed, SortedMap.entries_erase, pages]; rfl

/-- Five pages refuse a range that holds none of them. -/
theorem inverted_range_panics : ∃ (p : PageMap Bool) (m : SortedMap Nat Bool), p.Reached m ∧
    p.range (.included 5) (.excluded 3) = none ∧
    m.entries.filter (fun e => PageBound.contains (.included 5) (.excluded 3) e.1) = [] := by
  obtain ⟨p, m, reached, pages⟩ := exists_five_pages
  refine ⟨p, m, reached, ?_, by rw [pages]; rfl⟩
  rw [reached.shows.range, pages]
  rfl

end PageMap

end Talon.Worker
