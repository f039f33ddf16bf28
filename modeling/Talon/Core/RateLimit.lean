import Mathlib.Algebra.BigOperators.Group.List.Lemmas
import Mathlib.Algebra.Order.BigOperators.Group.List
import Mathlib.Algebra.BigOperators.Ring.List
import Talon.Lib.Transition

/-!
# Rate-limit cells

A cell of the generic cell rate algorithm: one atomic word holds the theoretical arrival time, and a
charge moves it by a compare-and-swap loop.  Callers supply their own times, in no particular order.
-/

set_option autoImplicit false

namespace Talon.Core

open Relation List

def nanosPerSec : Nat := 1000000000

def u64Max : Nat := 2 ^ 64 - 1

/-- `Gcra` without its atomic word `tat_nanos`, which the operations take and return. -/
structure Gcra where
  rate : Nat
  toleranceNanos : Nat
  rate_pos : 0 < rate

structure Charge where
  cost : Nat
  nowNanos : Nat

inductive RateDecision
  | admitted
  | throttled (retryAfter : Nat)
deriving DecidableEq

namespace Gcra

variable (cell : Gcra)

def advance (cost : Nat) : Nat := nanosPerSec * cost / cell.rate

def increment (cost : Nat) : Nat := min (cell.advance cost) u64Max

def ceiling (cost : Nat) : Nat := max cell.toleranceNanos (cell.increment cost)

def newTat (c : Charge) (tat : Nat) : Nat := min (max tat c.nowNanos + cell.increment c.cost) u64Max

/-- One turn of the loop of `charge_at` on the word it loaded: the word to swap in, or the delay. -/
def attempt (c : Charge) (tat : Nat) : Except Nat Nat :=
  if cell.newTat c tat - c.nowNanos ≤ cell.ceiling c.cost then .ok (cell.newTat c tat)
  else .error (cell.newTat c tat - cell.ceiling c.cost - c.nowNanos)

/-- `charge_at` with no other caller: the decision and the word it leaves. -/
def chargeAt (c : Charge) (tat : Nat) : RateDecision × Nat :=
  if c.cost = 0 then (.admitted, tat)
  else match cell.attempt c tat with
    | .ok new => (.admitted, new)
    | .error delay => (.throttled delay, tat)

/-- Neither the advance nor the new arrival time saturates. -/
def Unsaturated (c : Charge) (tat : Nat) : Prop := max tat c.nowNanos + cell.advance c.cost ≤ u64Max

instance (c : Charge) (tat : Nat) : Decidable (cell.Unsaturated c tat) := Nat.decLe ..

variable {cell} {c : Charge} {tat new delay : Nat}

variable (fits : cell.Unsaturated c tat)
include fits

theorem Unsaturated.increment_eq : cell.increment c.cost = cell.advance c.cost :=
  Nat.min_eq_left (le_trans (Nat.le_add_left ..) fits)

theorem Unsaturated.newTat_eq : cell.newTat c tat = max tat c.nowNanos + cell.advance c.cost := by
  rw [newTat, fits.increment_eq]
  exact Nat.min_eq_left fits

theorem attempt_ok (done : cell.attempt c tat = .ok new) :
    new = max tat c.nowNanos + cell.advance c.cost ∧
      new ≤ c.nowNanos + max cell.toleranceNanos (cell.advance c.cost) := by
  simp only [attempt, ceiling, fits.increment_eq, fits.newTat_eq] at done
  split at done
  · cases done
    exact ⟨rfl, by omega⟩
  · cases done

/-- A charge is throttled while the word is ahead of its time, until the backlog is down to the
ceiling. -/
theorem chargeAt_throttled_iff :
    (cell.chargeAt c tat).1 = .throttled delay ↔ c.cost ≠ 0 ∧ 0 < delay ∧
      c.nowNanos + delay + max cell.toleranceNanos (cell.advance c.cost) = tat + cell.advance
        c.cost := by
  simp only [chargeAt, attempt, ceiling, fits.increment_eq, fits.newTat_eq]
  generalize cell.advance c.cost = inc
  by_cases free : c.cost = 0
  · simp [free]
  · rw [if_neg free]
    split <;> rename_i tried <;> split at tried <;> cases tried
    · simp only [reduceCtorEq, false_iff]
      omega
    · simp only [RateDecision.throttled.injEq]
      omega

omit fits

theorem chargeAt_throttled_snd (done : (cell.chargeAt c tat).1 = .throttled delay) :
    (cell.chargeAt c tat).2 = tat := by
  unfold chargeAt at done ⊢
  split
  · rfl
  · cases tried : cell.attempt c tat <;> simp_all

end Gcra

/-- A caller inside `charge_at`, with the word it loaded and not yet used. -/
structure Turn where
  charge : Charge
  loaded : Option Nat
  costs : charge.cost ≠ 0

/-- The word of the cell, the callers inside `charge_at`, and the charges admitted, newest first. -/
structure Charging (ι : Type*) where
  tatNanos : Nat
  turns : ι → Option Turn
  admitted : List Charge

variable {ι : Type*} [DecidableEq ι] {cell : Gcra}

open Function in
inductive Charging.Step (cell : Gcra) : Charging ι → Charging ι → Prop
  | free {s c} (i : ι) : s.turns i = none → c.cost = 0 →
      Step cell s { s with admitted := c :: s.admitted }
  | call {s c} (i : ι) (costs : c.cost ≠ 0) : s.turns i = none →
      Step cell s { s with turns := update s.turns i (some ⟨c, none, costs⟩) }
  | load {s c costs} (i : ι) : s.turns i = some ⟨c, none, costs⟩ →
      Step cell s { s with turns := update s.turns i (some ⟨c, some s.tatNanos, costs⟩) }
  | won {s c costs n} (i : ι) : s.turns i = some ⟨c, some s.tatNanos, costs⟩ →
      cell.attempt c s.tatNanos = .ok n → cell.Unsaturated c s.tatNanos →
      Step cell s ⟨n, update s.turns i none, c :: s.admitted⟩
  -- the weak exchange may fail although the word is the loaded one
  | lost {s c tat costs new} (i : ι) : s.turns i = some ⟨c, some tat, costs⟩ →
      cell.attempt c tat = .ok new →
      Step cell s { s with turns := update s.turns i (some ⟨c, none, costs⟩) }
  | throttled {s c tat costs delay} (i : ι) : s.turns i = some ⟨c, some tat, costs⟩ →
      cell.attempt c tat = .error delay → Step cell s { s with turns := update s.turns i none }

namespace Charging

def InWindow (a b : Nat) (charges : List Charge) : Prop := ∀ c ∈ charges, a ≤ c.nowNanos ∧
    c.nowNanos ≤ b

def advances (cell : Gcra) (charges : List Charge) : List Nat := charges.map fun c =>
    cell.advance c.cost

def greatest (l : List Nat) : Nat := l.foldr max 0

/-- Some of the charges admitted in a window: what they advanced is still ahead of the window's
start, and within the burst of its end. -/
def Paced (cell : Gcra) (s : Charging ι) : Prop :=
  ∀ a b charges, charges.Sublist s.admitted → InWindow a b charges →
    (advances cell charges).sum ≤ s.tatNanos - a ∧
    (advances cell charges).sum ≤ b - a + max cell.toleranceNanos (greatest (advances cell charges))

/-- Every step of a call keeps the pace; only the exchange that admits moves `tatNanos`. -/
theorem Paced.step {s t : Charging ι} (h : Paced cell s) (step : Step cell s t) : Paced cell t := by
  cases step with
  | call | load | lost | throttled => exact h
  | @free c _ _ zero =>
    intro a b charges sub inside
    rcases sublist_cons_iff.mp sub with older | ⟨rest, rfl, older⟩
    · exact h a b charges older inside
    · have none : cell.advance c.cost = 0 := by simp [Gcra.advance, zero]
      have := h a b rest older fun x mem => inside x (.tail _ mem)
      simpa [advances, greatest, none] using this
  | @won c _ _ _ _ done fits =>
    obtain ⟨rfl, burst⟩ := Gcra.attempt_ok fits done
    intro a b charges sub inside
    rcases sublist_cons_iff.mp sub with older | ⟨rest, rfl, older⟩
    · obtain ⟨ahead, within⟩ := h a b charges older inside
      refine ⟨le_trans ahead (Nat.sub_le_sub_right ?_ a), within⟩
      exact le_trans (Nat.le_max_left ..) (Nat.le_add_right ..)
    · obtain ⟨ahead, -⟩ := h a b rest older fun x mem => inside x (.tail _ mem)
      obtain ⟨_, _⟩ := inside c (.head _)
      simp only [advances, greatest, map_cons, sum_cons, foldr_cons] at ahead ⊢
      generalize cell.advance c.cost = inc at burst ⊢
      exact ⟨by omega, by omega⟩

theorem cost_lt_advances {charges : List Charge} (some : charges ≠ []) :
    nanosPerSec * (charges.map Charge.cost).sum <
      cell.rate * ((advances cell charges).sum + charges.length) := by
  have each : ∀ c ∈ charges, nanosPerSec * c.cost < cell.rate * (cell.advance c.cost + 1) := by
    intro c _
    exact Nat.lt_mul_div_succ _ cell.rate_pos
  have total := sum_lt_sum_of_ne_nil some _ _ each
  rw [sum_map_mul_left, sum_map_mul_left, sum_map_add] at total
  simpa [advances] using total

/-- A call that returns decides as `charge_at` does on the word it loaded, which is the word of the
cell if the charge is admitted. -/
theorem Step.returns {s t : Charging ι} (step : Step cell s t) {i : ι} {turn : Turn} {tat : Nat}
    (inside : s.turns i = some turn) (loaded : turn.loaded = some tat)
    (returned : t.turns i = none) :
    (tat = s.tatNanos ∧ cell.chargeAt turn.charge tat = (.admitted, t.tatNanos) ∧
      t.admitted = turn.charge :: s.admitted) ∨
    ∃ delay, cell.chargeAt turn.charge tat = (.throttled delay, tat) ∧ t.tatNanos = s.tatNanos ∧
      t.admitted = s.admitted := by
  have costs := turn.costs
  have mine : ∀ {j : ι} {x : Option Turn}, Function.update s.turns j x i = none → j = i := by
    intro j x gone
    by_contra other
    rw [Function.update_of_ne (Ne.symm other), inside] at gone
    cases gone
  cases step with
  | free j => rw [inside] at returned; cases returned
  | call | load | lost => cases mine returned; simp at returned
  | won j here done =>
    cases mine returned
    obtain rfl := Option.some.inj (inside.symm.trans here)
    obtain rfl := Option.some.inj loaded
    exact .inl ⟨rfl, by simp [Gcra.chargeAt, costs, done], rfl⟩
  | throttled j here done =>
    cases mine returned
    obtain rfl := Option.some.inj (inside.symm.trans here)
    obtain rfl := Option.some.inj loaded
    exact .inr ⟨_, by simp [Gcra.chargeAt, costs, done]; rfl, rfl, rfl⟩

/-- What is admitted in a window of time is bounded by the rate; a call that returns decides as
`charge_at` does alone; and a charge that is throttled stays so exactly until its delay is over. -/
theorem admitted_rate_bounded {s t : Charging ι} (fresh : s.admitted = [])
    (run : ReflTransGen (Step cell) s t) :
    (∀ a b charges, charges.Sublist t.admitted → charges ≠ [] → InWindow a b charges →
      nanosPerSec * (charges.map Charge.cost).sum <
        cell.rate * (b - a + max cell.toleranceNanos (greatest (advances cell charges)) +
          charges.length)) ∧
    (∀ u, Step cell t u → u.admitted = t.admitted → u.tatNanos = t.tatNanos) ∧
    (∀ u i turn tat, Step cell t u → t.turns i = some turn → turn.loaded = some tat →
      u.turns i = none →
      (tat = t.tatNanos ∧ cell.chargeAt turn.charge tat = (.admitted, u.tatNanos) ∧
        u.admitted = turn.charge :: t.admitted) ∨
      ∃ delay, cell.chargeAt turn.charge tat = (.throttled delay, tat) ∧ u.tatNanos = t.tatNanos ∧
        u.admitted = t.admitted) ∧
    ∀ c delay, cell.Unsaturated c t.tatNanos → (cell.chargeAt c t.tatNanos).1 = .throttled delay →
      (cell.chargeAt c t.tatNanos).2 = t.tatNanos ∧
      (∀ earlier < c.nowNanos + delay, ∃ rest,
        (cell.chargeAt { c with nowNanos := earlier } t.tatNanos).1 = .throttled rest) ∧
      (cell.chargeAt { c with nowNanos := c.nowNanos + delay } t.tatNanos).1 = .admitted := by
  have start : Paced cell s := by
    intro a b charges sub _
    rw [fresh, List.sublist_nil] at sub
    simp [sub, advances]
  have paced : Paced cell t := Transition.kept_by_run (fun _ _ step h => h.step step) start run
  refine ⟨fun a b charges sub some inside => ?_, fun u step same => ?_,
    fun u i turn tat step => step.returns, fun c delay fits done => ?_⟩
  · refine lt_of_lt_of_le (cost_lt_advances some) (Nat.mul_le_mul_left _ ?_)
    exact Nat.add_le_add_right (paced a b charges sub inside).2 _
  · cases step with
    | free | call | load | lost | throttled => rfl
    | won => exact absurd same (List.cons_ne_self _ _)
  · obtain ⟨positive, _, _⟩ := (Gcra.chargeAt_throttled_iff fits).mp done
    have calm : ∀ time ≤ max t.tatNanos c.nowNanos,
        cell.Unsaturated { c with nowNanos := time } t.tatNanos := by
      intro _ below
      exact le_trans (Nat.add_le_add_right (max_le (le_max_left ..) below) _) fits
    refine ⟨Gcra.chargeAt_throttled_snd done, fun earlier before => ?_, ?_⟩
    · refine ⟨c.nowNanos + delay - earlier,
        (Gcra.chargeAt_throttled_iff (calm earlier (by omega))).mpr ?_⟩
      exact ⟨positive, by omega, by dsimp only; omega⟩
    · cases again : (cell.chargeAt { c with nowNanos := c.nowNanos + delay } t.tatNanos).1 with
      | admitted => rfl
      | throttled =>
        have := (Gcra.chargeAt_throttled_iff (calm _ (by omega))).mp again
        dsimp only at this
        omega

/-- Two callers load the same word, and the first of them wins the exchange. -/
theorem admitted_rate_bounded_race : ∃ s t : Charging Bool, s.admitted = [] ∧
    ReflTransGen (Step ⟨1, 0, Nat.one_pos⟩) s t ∧ t.admitted = [⟨1, 5⟩] ∧
    nanosPerSec * 1 < 1 *
      (5 - 5 + max 0 (greatest (advances ⟨1, 0, Nat.one_pos⟩ [⟨1, 5⟩])) + 1) := by
  have race : ReflTransGen (Step ⟨1, 0, Nat.one_pos⟩) ⟨0, fun _ => none, []⟩ _ :=
    .tail (.tail (.tail (.tail (.tail .refl (.call (c := ⟨1, 5⟩) false Nat.one_ne_zero rfl))
      (.call (c := ⟨2, 4⟩) true (Nat.succ_ne_zero 1) rfl)) (.load false rfl)) (.load true rfl))
      (.won (n := 1000000005) false rfl (by decide) (by decide))
  have bound := (admitted_rate_bounded rfl race).1 5 5 [⟨1, 5⟩] (List.Sublist.refl _) (by simp)
    (by simp [InWindow])
  exact ⟨_, _, rfl, race, rfl, bound⟩

end Charging

end Talon.Core
