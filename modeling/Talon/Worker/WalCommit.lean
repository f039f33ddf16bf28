import Mathlib.Algebra.Order.Ring.Nat

/-!
# Group commit of the write-ahead log

A batcher decides when appended records are synced.  Positions count bytes and times nanoseconds.
The timer only says when a sync should begin: a record may be acknowledged once a sync that began
after its append is complete.
-/

set_option autoImplicit false

namespace Talon.Worker

open List Option

structure Batcher where
  appended : Nat
  durable : Nat
  inFlight : Option Nat
  sinceFirstPending : Nat
  hasPending : Bool

inductive FlushTrigger
  | byteThreshold
  | deadline
  | explicit

namespace Batcher

def flushBytes : Nat := 1024 * 1024

def flushInterval : Nat := 2000000

def new : Batcher := ⟨0, 0, none, 0, false⟩

def append (b : Batcher) (bytes : Nat) : Nat × Batcher :=
  (b.appended + bytes,
    { b with
      appended := b.appended + bytes
      hasPending := true
      sinceFirstPending := if b.hasPending then b.sinceFirstPending else 0 })

def pendingBytes (b : Batcher) : Nat := b.appended - b.durable

def shouldFlush (b : Batcher) : Option FlushTrigger :=
  if b.inFlight.isSome || !b.hasPending then none
  else if flushBytes ≤ b.pendingBytes then some .byteThreshold
  else if flushInterval ≤ b.sinceFirstPending then some .deadline
  else none

def tick (b : Batcher) (elapsed : Nat) : Option FlushTrigger × Batcher :=
  let b := if b.hasPending then { b with sinceFirstPending := b.sinceFirstPending + elapsed } else b
  (b.shouldFlush, b)

def beginFlush (b : Batcher) : Option Nat × Batcher :=
  if b.inFlight.isSome || !b.hasPending then (none, b)
  else
    (some b.appended, { b with inFlight := some b.appended, sinceFirstPending := 0, hasPending := false })

/-- `none` is the panic of a completion without a flush. -/
def completeFlush (b : Batcher) : Option (Nat × Batcher) :=
  b.inFlight.map fun covered =>
    (covered, { b with
      inFlight := none
      durable := covered
      hasPending := b.hasPending || decide (covered < b.appended) })

def isDurable (b : Batcher) (position : Nat) : Bool := decide (position ≤ b.durable)

inductive Op
  | append (bytes : Nat)
  | tick (elapsed : Nat)
  | beginFlush
  | completeFlush
deriving DecidableEq

/-- `none` is a panic, or a position past the range of `u64`. -/
def apply (b : Batcher) : Op → Option Batcher
  | .append bytes => if b.appended + bytes < 2 ^ 64 then some (b.append bytes).2 else none
  | .tick elapsed => some (b.tick elapsed).2
  | .beginFlush => some b.beginFlush.2
  | .completeFlush => b.completeFlush.map Prod.snd

def run (b : Batcher) (ops : List Op) : Option Batcher := ops.foldlM apply b

/-- How far the syncs cover what was appended, the one in flight included. -/
def covered (b : Batcher) : Nat := b.inFlight.getD b.durable

/-- The positions are in order, and what no sync covers is pending. -/
structure Ok (b : Batcher) : Prop where
  durable : b.durable ≤ b.covered
  covered : b.covered ≤ b.appended
  pending : b.covered < b.appended → b.hasPending = true

/-- Only the beginning of a sync covers more, and only a completion makes what is covered durable.
-/
structure Moved (b : Batcher) (op : Op) (c : Batcher) : Prop where
  ok : c.Ok
  appended : b.appended ≤ c.appended
  covered : c.covered = if op = .beginFlush ∧ b.inFlight = none then b.appended else b.covered
  durable : c.durable = if op = .completeFlush then b.covered else b.durable

variable {b c : Batcher} {op : Op} {ops later : List Op} {n p : Nat}

theorem apply_append_iff :
    b.apply (.append n) = some c ↔ b.appended + n < 2 ^ 64 ∧ (b.append n).2 = c := by
  simp [apply]

theorem Ok.apply (ok : b.Ok) (done : b.apply op = some c) : Moved b op c := by
  obtain ⟨low, high, pending⟩ := ok
  cases op with
  | append n =>
    obtain ⟨_, rfl⟩ := apply_append_iff.mp done
    exact ⟨⟨low, high.trans (Nat.le_add_right _ n), fun _ => rfl⟩, Nat.le_add_right _ n, rfl, rfl⟩
  | tick n =>
    cases done
    unfold tick
    split <;> exact ⟨⟨low, high, pending⟩, le_rfl, rfl, rfl⟩
  | beginFlush =>
    cases done
    unfold beginFlush
    split
    · refine ⟨⟨low, high, pending⟩, le_rfl, ?_, rfl⟩
      grind
    · have free : b.inFlight = none := by simp_all
      exact ⟨⟨low.trans high, le_rfl, fun more => absurd more (lt_irrefl _)⟩, le_rfl,
        (if_pos ⟨rfl, free⟩).symm, rfl⟩
  | completeFlush =>
    obtain ⟨_, completed, rfl⟩ := map_eq_some_iff.mp done
    obtain ⟨x, held, rfl⟩ := map_eq_some_iff.mp completed
    have flight : b.covered = x := by simp [Batcher.covered, held]
    rw [flight] at high
    exact ⟨⟨le_rfl, high, fun more => Bool.or_eq_true_iff.mpr (.inr (decide_eq_true more))⟩, le_rfl,
      flight.symm, flight.symm⟩

/-- Along every run the positions stay in order and only grow. -/
theorem Ok.run (ok : b.Ok) (done : b.run ops = some c) :
    c.Ok ∧ b.appended ≤ c.appended ∧ b.covered ≤ c.covered ∧ b.durable ≤ c.durable := by
  induction ops generalizing b with
  | nil =>
    cases done
    exact ⟨ok, le_rfl, le_rfl, le_rfl⟩
  | cons op ops ih =>
    obtain ⟨d, first, rest⟩ := bind_eq_some_iff.mp done
    have moved := ok.apply first
    obtain ⟨cok, appended, covered, durable⟩ := ih moved.ok rest
    refine ⟨cok, moved.appended.trans appended, ?_, ?_⟩
    · grind [moved.covered, ok.covered]
    · grind [moved.durable, ok.durable]

theorem mem_of_covered (ok : b.Ok) (done : b.run ops = some c) (waits : b.durable < p)
    (safe : p ≤ c.durable) : .completeFlush ∈ ops := by
  induction ops generalizing b with
  | nil =>
    cases done
    omega
  | cons op ops ih =>
    obtain ⟨d, first, rest⟩ := bind_eq_some_iff.mp done
    have moved := ok.apply first
    by_cases completes : op = .completeFlush
    · exact completes ▸ mem_cons_self
    · refine mem_cons_of_mem _ (ih moved.ok rest ?_)
      rwa [moved.durable, if_neg completes]

/-- A position that no sync covers yet becomes durable: a sync begins and completes. -/
theorem exists_sync (ok : b.Ok) (done : b.run ops = some c) (waits : b.covered < p)
    (safe : p ≤ c.durable) :
    ∃ before during after d, ops = before ++ .beginFlush :: (during ++ .completeFlush :: after) ∧
      b.run before = some d ∧ d.inFlight = none := by
  induction ops generalizing b with
  | nil =>
    cases done
    exact absurd (safe.trans ok.durable) (not_le.mpr waits)
  | cons op ops ih =>
    obtain ⟨d, first, rest⟩ := bind_eq_some_iff.mp done
    have moved := ok.apply first
    by_cases still : d.covered < p
    · obtain ⟨before, during, after, e, rfl, ran, free⟩ := ih moved.ok rest still
      exact ⟨op :: before, during, after, e, rfl, bind_eq_some_iff.mpr ⟨d, first, ran⟩, free⟩
    · have here := moved.covered
      split at here
      · rename_i begins
        obtain ⟨rfl, free⟩ := begins
        have late : d.durable < p := moved.durable.trans_lt (ok.durable.trans_lt waits)
        obtain ⟨during, after, rfl⟩ := append_of_mem (mem_of_covered moved.ok rest late safe)
        exact ⟨[], during, after, b, rfl, rfl, free⟩
      · omega

theorem ok_new : new.Ok := ⟨le_rfl, le_rfl, fun more => absurd more (lt_irrefl _)⟩

/-- A record is durable exactly if a sync that began after its append is complete. -/
theorem durable_iff_synced (bytes : 0 < n) (reached : new.run ops = some b)
    (done : b.run (.append n :: later) = some c) :
    c.isDurable (b.append n).1 = true ↔
      ∃ before during after d, later = before ++ .beginFlush ::
        (during ++ .completeFlush :: after) ∧
        (b.append n).2.run before = some d ∧ d.inFlight = none := by
  have ok := (ok_new.run reached).1
  obtain ⟨_, appends, done⟩ := bind_eq_some_iff.mp done
  obtain ⟨_, rfl⟩ := apply_append_iff.mp appends
  have moved := ok.apply appends
  rw [isDurable, decide_eq_true_eq]
  constructor
  · exact exists_sync moved.ok done
      (moved.covered.trans_lt (ok.covered.trans_lt (Nat.lt_add_of_pos_right bytes)))
  · rintro ⟨before, during, after, d, rfl, ran, free⟩
    simp only [foldlM_append, foldlM_cons, bind_eq_bind, bind_eq_some_iff] at done
    obtain ⟨_, ran', e, begun, f, waited, g, completed, rest⟩ := done
    obtain rfl := some.inj (ran.symm.trans ran')
    obtain ⟨dok, appended, _⟩ := moved.ok.run ran
    have covers : Moved d .beginFlush e := dok.apply begun
    obtain ⟨fok, _, kept, _⟩ := covers.ok.run waited
    have synced : Moved f .completeFlush g := fok.apply completed
    calc (b.append n).1 ≤ d.appended := appended
      _ = e.covered := (covers.covered.trans (if_pos ⟨rfl, free⟩)).symm
      _ ≤ f.covered := kept
      _ = g.durable := synced.durable.symm
      _ ≤ c.durable := (synced.ok.run rest).2.2.2

/-- A record that is appended during a sync waits for the next one. -/
theorem durable_iff_synced_next : ∃ b c : Batcher, new.run [.append 64, .beginFlush] = some b ∧
    b.run [.append 8, .completeFlush, .beginFlush, .completeFlush] = some c ∧ c.isDurable 72 = true := by
  have reached : new.run [.append 64, .beginFlush] = some ⟨64, 0, some 64, 0, false⟩ := rfl
  have done : run ⟨64, 0, some 64, 0, false⟩ [.append 8, .completeFlush, .beginFlush, .completeFlush] =
    some ⟨72, 72, none, 0, false⟩ := rfl
  exact ⟨_, _, reached, done, (durable_iff_synced (by decide) reached done).mpr
    ⟨[.completeFlush], [], [], _, rfl, rfl, rfl⟩⟩

def Op.elapsed : Op → Nat
  | .tick n => n
  | _ => 0

theorem waits_of_run (free : b.inFlight = none) (pending : b.hasPending = true)
    (done : b.run ops = some c) (quiet : ∀ op ∈ ops, op ≠ .beginFlush ∧ op ≠ .completeFlush) :
    c.inFlight = none ∧ c.hasPending = true ∧ b.sinceFirstPending + (ops.map Op.elapsed).sum ≤
      c.sinceFirstPending := by
  induction ops generalizing b with
  | nil =>
    cases done
    exact ⟨free, pending, le_rfl⟩
  | cons op ops ih =>
    obtain ⟨d, first, rest⟩ := bind_eq_some_iff.mp done
    have later := fun op mem => quiet op (mem_cons_of_mem _ mem)
    cases op with
    | append n =>
      obtain ⟨_, rfl⟩ := apply_append_iff.mp first
      simpa [append, pending, Op.elapsed] using ih (b := (b.append n).2) free rfl rest later
    | tick n =>
      cases first
      simpa [tick, pending, Op.elapsed, Nat.add_assoc] using ih (by simpa [tick, pending])
        (by simp [tick, pending]) rest later
    | beginFlush => exact absurd rfl (quiet _ mem_cons_self).1
    | completeFlush => exact absurd rfl (quiet _ mem_cons_self).2

/-- While no sync is in flight, what waits is due after the interval, however many records arrive.
-/
theorem flush_due (reached : new.run ops = some b) (free : b.inFlight = none)
    (waits : b.durable < b.appended) (done : b.run later = some c)
    (quiet : ∀ op ∈ later, op ≠ .beginFlush ∧ op ≠ .completeFlush)
    (long : flushInterval ≤ (later.map Op.elapsed).sum) :
    c.shouldFlush ≠ none ∧ c.beginFlush.1 = some c.appended := by
  have pending : b.hasPending = true := (ok_new.run reached).1.pending (by rwa [covered, free])
  obtain ⟨free', pending', since⟩ := waits_of_run free pending done quiet
  have due : flushInterval ≤ c.sinceFirstPending := long.trans ((Nat.le_add_left _ _).trans since)
  constructor
  · simp [shouldFlush, free', pending', due, ite_eq_iff]
  · simp [beginFlush, free', pending']

theorem flush_due_later : ∃ b c : Batcher, new.run [.append 64] = some b ∧
    b.run [.tick 1500000, .append 8, .tick 500000] = some c ∧ c.shouldFlush ≠ none := by
  have reached : new.run [.append 64] = some ⟨64, 0, none, 0, true⟩ := rfl
  have done : run ⟨64, 0, none, 0, true⟩ [.tick 1500000, .append 8, .tick 500000] =
    some ⟨72, 0, none, 2000000, true⟩ := rfl
  exact ⟨_, _, reached, done, (flush_due reached rfl (by decide) done (by decide) (by decide)).1⟩

end Batcher

end Talon.Worker
