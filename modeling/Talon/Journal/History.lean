import Talon.Journal.Writer

/-!
# Histories and what a machine makes of them

The records of a stream in the order of their LSNs, the state they lead to, and what the machine has
to promise: that restoring one of its snapshots rebuilds the state.  "Rebuilds" is meant up to a
relation `same` that `apply` keeps, because a machine may store the same state in several ways;
equality is one such relation.
-/

set_option autoImplicit false

namespace Talon.Journal

open Wire List Nat

namespace Machine

variable (M : Machine)

def replay (first : Nat) (s : M.State) (records : List M.Record) : Result M.State :=
  (number first records).foldlM (fun s r => M.apply s r.1 r.2) s

def restoreAll (s : M.State) (items : List Bytes) : Result M.State :=
  items.foldlM (fun s b => do
    let r ← M.decodeSnapshot b
    M.restore s r) s

def run (initial : M.State) (history : List (Entry M)) : Result M.State :=
  M.replay 0 initial (history.map Entry.record)

/-- The machine's contract: a snapshot of a state it has reached rebuilds that state. -/
structure Rebuilds (initial : M.State) (same : M.State → M.State → Prop) : Prop where
  start : same initial initial
  apply : ∀ (s t s' : M.State) (lsn : Nat) (r : M.Record), same s t → M.apply s lsn r = .ok s' →
    ∃ t', M.apply t lsn r = .ok t' ∧ same s' t'
  restore : ∀ (history : List (Entry M)) (s t : M.State) (items : List Bytes),
    M.run initial history = .ok s → same s t → M.snapshot t = .ok (items.map .ok) →
      ∃ u, M.restoreAll initial items = .ok u ∧ same s u

/-- Records that are read back from their bytes and that the machine accepts one after the other. -/
structure Accepts (initial : M.State) (history : List (Entry M)) : Prop where
  decodes : ∀ e ∈ history, M.decode e.bytes = .ok e.record
  runs : ∃ s, M.run initial history = .ok s

structure Good (initial : M.State) (same : M.State → M.State → Prop) (history : List (Entry M)) :
    Prop where
  rebuilds : M.Rebuilds initial same
  accepted : M.Accepts initial history

/-- The state after the first `n` records, unless the machine or one of them is at fault. -/
def Reflects (initial : M.State) (same : M.State → M.State → Prop) (history : List (Entry M))
    (n : Nat) (u : M.State) : Prop :=
  M.Good initial same (history.take n) →
    ∃ s, M.run initial (history.take n) = .ok s ∧ same s u

/-- The records above `first` and up to `stop`, as they are read back, lead from one state to
another. -/
def Replays (history : List (Entry M)) (first : Nat) (s : M.State) (stop : Nat) (t : M.State) :
    Prop :=
  ∃ records, List.Forall₂ (fun e r => M.decode e.bytes = .ok r) ((history.take stop).drop first)
    records ∧ M.replay first s records = .ok t

variable {M}

theorem replay_append (first : Nat) (s : M.State) (front back : List M.Record) :
    M.replay first s (front ++ back) =
      M.replay first s front >>= fun s => M.replay (first + front.length) s back := by
  rw [replay, number_append, foldlM_append]
  rfl

variable {history : List (Entry M)} {initial : M.State} {same : M.State → M.State → Prop}

theorem Replays.trans {a b c : Nat} {s t u : M.State} (first : M.Replays history a s b t)
    (rest : M.Replays history b t c u) (low : a ≤ b) (high : b ≤ c) (inside : c ≤ history.length) :
    M.Replays history a s c u := by
  obtain ⟨front, decoded, replayed⟩ := first
  obtain ⟨back, decoded', replayed'⟩ := rest
  have split : (history.take c).drop a = (history.take b).drop a ++ (history.take c).drop b := by
    rw [← take_append_drop (b - a) ((history.take c).drop a), drop_drop,
      Nat.add_sub_cancel' low, drop_take, drop_take, take_take,
      min_eq_left (by omega), ← drop_take]
  have length : a + front.length = b := by
    rw [← decoded.length_eq, length_drop, length_take]
    omega
  refine ⟨front ++ back, ?_, ?_⟩
  · rw [split]
    exact rel_append decoded decoded'
  · rw [replay_append, replayed, length]
    exact replayed'

theorem Rebuilds.replay (h : M.Rebuilds initial same) {first : Nat} {s t s' : M.State}
    {records : List M.Record} (alike : same s t) (run : M.replay first s records = .ok s') :
    ∃ t', M.replay first t records = .ok t' ∧ same s' t' := by
  induction records generalizing first s t with
  | nil =>
    cases run
    exact ⟨t, rfl, alike⟩
  | cons r records ih =>
    change (M.apply s (first + 1) r >>= fun s => M.replay (first + 1) s records) = _ at run
    cases applied : M.apply s (first + 1) r with
    | error =>
      rw [applied] at run
      cases run
    | ok =>
      rw [applied, ok_bind] at run
      obtain ⟨_, applied', alike'⟩ := h.apply _ _ _ _ _ alike applied
      obtain ⟨t', rest, final⟩ := ih alike' run
      refine ⟨t', ?_, final⟩
      change (M.apply t (first + 1) r >>= fun s => M.replay (first + 1) s records) = _
      rw [applied', ok_bind]
      exact rest

theorem run_split {s : M.State} (run : M.run initial history = .ok s) {n : Nat}
    (inside : n ≤ history.length) :
    ∃ t, M.run initial (history.take n) = .ok t ∧
      M.replay n t ((history.drop n).map Entry.record) = .ok s := by
  have length : ((history.take n).map Entry.record).length = n := by
    rw [length_map, length_take, min_eq_left inside]
  rw [Machine.run, ← take_append_drop n history, map_append, replay_append, length,
    zero_add] at run
  cases front : M.replay 0 initial ((history.take n).map Entry.record) with
  | error =>
    rw [front] at run
    cases run
  | ok t =>
    rw [front, ok_bind] at run
    exact ⟨t, front, run⟩

theorem Accepts.take (h : M.Accepts initial history) (n : Nat) :
    M.Accepts initial (history.take n) := by
  refine ⟨fun e mem => h.decodes e (mem_of_mem_take mem), ?_⟩
  by_cases inside : n ≤ history.length
  · obtain ⟨s, run⟩ := h.runs
    obtain ⟨t, front, -⟩ := run_split run inside
    exact ⟨t, front⟩
  · rw [take_of_length_le (by omega)]
    exact h.runs

theorem Good.take (h : M.Good initial same history) (n : Nat) :
    M.Good initial same (history.take n) :=
  ⟨h.rebuilds, h.accepted.take n⟩

theorem Good.shorter {n m : Nat} (h : M.Good initial same (history.take m)) (order : n ≤ m) :
    M.Good initial same (history.take n) := by
  have cut := h.take n
  rwa [take_take, min_eq_left order] at cut

theorem reflects_congr {history' : List (Entry M)} {n : Nat} {u : M.State}
    (agree : history'.take n = history.take n) (h : M.Reflects initial same history n u) :
    M.Reflects initial same history' n u := by
  unfold Reflects
  rw [agree]
  exact h

end Machine

/-! ## Replaying files -/

section Files

variable {M : Machine} {initial : M.State} {xxh3 : Hash}

variable {first : Nat}

theorem foldlM_visitLog (s : M.State) (records : List M.Record)
    (fits : first + records.length < 2 ^ 64) :
    (number first records).foldlM (fun s r => visitLog M s r.1 r.2) (first, s) =
      (M.replay first s records).map fun s => (first + records.length, s) := by
  induction records generalizing first s with
  | nil => rfl
  | cons r records ih =>
    rw [length_cons] at fits
    have accepted : ¬ (first + 1 ≥ 2 ^ 64 ∨ first + 1 ≠ first + 1) := by omega
    rw [number, foldlM_cons]
    change (visitLog M (first, s) (first + 1) r >>= _) =
      (M.apply s (first + 1) r >>= fun s => M.replay (first + 1) s records).map _
    rw [visitLog, if_neg accepted]
    cases M.apply s (first + 1) r with
    | error => rfl
    | ok s' =>
      rw [ok_bind, ok_bind]
      refine (ih s' (by omega)).trans ?_
      rw [length_cons, add_assoc, add_comm 1]

theorem foldlM_visitSnapshot (s : M.State) (records : List M.SnapshotRecord) :
    (number first records).foldlM (fun s r => visitSnapshot M s r.1 r.2) (first, s) =
      (records.foldlM M.restore s).map fun s => (first + records.length, s) := by
  induction records generalizing first s with
  | nil => rfl
  | cons r _ ih =>
    rw [number, foldlM_cons, foldlM_cons]
    rw [visitSnapshot, if_neg (not_not.mpr rfl)]
    cases M.restore s r with
    | error => rfl
    | ok s' =>
      rw [ok_bind, ok_bind]
      refine (ih s').trans ?_
      rw [length_cons, add_assoc, add_comm 1]

variable {items : List Bytes}

theorem restoreAll_ok {s u : M.State} (h : M.restoreAll s items = .ok u) :
    ∃ records, List.Forall₂ (fun b r => M.decodeSnapshot b = .ok r) items records ∧
      records.foldlM M.restore s = .ok u := by
  induction items generalizing s with
  | nil => exact ⟨[], .nil, h⟩
  | cons b _ ih =>
    rw [Machine.restoreAll, foldlM_cons] at h
    cases decoded : M.decodeSnapshot b with
    | error =>
      rw [decoded] at h
      cases h
    | ok r =>
      rw [decoded, ok_bind] at h
      cases restored : M.restore s r with
      | error =>
        rw [restored] at h
        cases h
      | ok =>
        rw [restored, ok_bind] at h
        obtain ⟨records, rest, final⟩ := ih h
        refine ⟨r :: records, .cons decoded rest, ?_⟩
        rw [foldlM_cons, restored, ok_bind]
        exact final

variable (xxh3) in
theorem restoreSnapshot_frames {c : Current} {u : M.State}
    (numbered : Numbered 0 items) (bytes : (frames xxh3 0 items).length = c.bytes)
    (records : items.length = c.records) (restored : M.restoreAll initial items = .ok u) :
    restoreSnapshot xxh3 M initial c (frames xxh3 0 items) = .ok u := by
  obtain ⟨decoded, each, final⟩ := restoreAll_ok restored
  have whole : (false = true ∧ Torn xxh3 []) ∨ ([] : Bytes) = [] := .inr rfl
  have reading := read_frames whole (visitSnapshot M) numbered each (0, initial)
  rw [append_nil, foldlM_visitSnapshot, final] at reading
  have count : 0 + decoded.length = c.records := by
    rw [zero_add, ← each.length_eq, records]
  rw [restoreSnapshot, if_neg (not_not.mpr bytes), reading]
  change (if 0 + decoded.length ≠ c.records then Except.error _ else Except.ok u) = _
  rw [if_neg (not_not.mpr count)]

end Files

end Talon.Journal
