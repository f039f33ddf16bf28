import Mathlib.Data.List.Forall2
import Talon.Lib.Wire

/-!
# Reading bytes as UTF-8, with and without replacement

The bytes are cut into scalar values and maximal invalid stretches.  A strict reader refuses an
invalid stretch; a lossy one puts the replacement character in its place.  The two agree on what
the strict one accepts.
-/

set_option autoImplicit false

namespace Utf8

open Wire (Bytes)
open List

inductive Chunk
  | scalar (bytes : Bytes)
  | invalid
deriving DecidableEq

/-- A scalar value that has begun: the next byte is between `low` and `high`, and `missing` more
follow it. -/
structure Pending where
  read : Bytes
  missing : Nat
  low : UInt8
  high : UInt8
deriving DecidableEq

/-- A first byte.  The narrower ranges exclude overlong forms, surrogates and what is past the last
scalar value. -/
def start (b : UInt8) : List Chunk × Option Pending :=
  if b < 0x80 then ([.scalar [b]], none)
  else if 0xC2 ≤ b ∧ b ≤ 0xDF then ([], some ⟨[b], 0, 0x80, 0xBF⟩)
  else if b = 0xE0 then ([], some ⟨[b], 1, 0xA0, 0xBF⟩)
  else if b = 0xED then ([], some ⟨[b], 1, 0x80, 0x9F⟩)
  else if 0xE1 ≤ b ∧ b ≤ 0xEF then ([], some ⟨[b], 1, 0x80, 0xBF⟩)
  else if b = 0xF0 then ([], some ⟨[b], 2, 0x90, 0xBF⟩)
  else if b = 0xF4 then ([], some ⟨[b], 2, 0x80, 0x8F⟩)
  else if 0xF1 ≤ b ∧ b ≤ 0xF3 then ([], some ⟨[b], 2, 0x80, 0xBF⟩)
  else ([.invalid], none)

/-- A byte that does not continue the pending scalar ends an invalid stretch and is read afresh. -/
def continued (p : Pending) (b : UInt8) : List Chunk × Option Pending :=
  if p.low ≤ b ∧ b ≤ p.high then
    match p.missing with
    | 0 => ([.scalar (p.read ++ [b])], none)
    | n + 1 => ([], some ⟨p.read ++ [b], n, 0x80, 0xBF⟩)
  else (.invalid :: (start b).1, (start b).2)

def step : Option Pending → UInt8 → List Chunk × Option Pending
  | none, b => start b
  | some p, b => continued p b

def chunks : Option Pending → Bytes → List Chunk
  | none, [] => []
  | some _, [] => [.invalid]
  | p, b :: rest => (step p b).1 ++ chunks (step p b).2 rest

namespace Chunk

def isScalar : Chunk → Bool
  | .scalar _ => true
  | .invalid => false

/-- The replacement character stands for an invalid stretch. -/
def text : Chunk → Bytes
  | .scalar bytes => bytes
  | .invalid => [0xEF, 0xBF, 0xBD]

end Chunk

def valid (b : Bytes) : Bool := (chunks none b).all Chunk.isScalar

def lossy (b : Bytes) : Bytes := (chunks none b).flatMap Chunk.text

/-- `String::from_utf8`. -/
def strict (b : Bytes) : Option Bytes := if valid b then some b else none

def pendingBytes : Option Pending → Bytes
  | none => []
  | some p => p.read

variable {b : UInt8}

theorem start_text (scalars : (start b).1.all Chunk.isScalar = true) :
    (start b).1.flatMap Chunk.text ++ pendingBytes (start b).2 = [b] := by
  unfold start at *
  split_ifs at * with one two e0 ed e f0 f4 f
  case neg => cases scalars
  all_goals rfl

variable {p : Option Pending}

theorem step_text (scalars : (step p b).1.all Chunk.isScalar = true) :
    (step p b).1.flatMap Chunk.text ++ pendingBytes (step p b).2 = pendingBytes p ++ [b] := by
  cases p with
  | none => exact start_text scalars
  | some p =>
    obtain ⟨_, missing, _, _⟩ := p
    simp only [step, continued] at scalars ⊢
    split at scalars
    · rename_i inRange
      rw [if_pos inRange]
      cases missing with
      | zero => simp [Chunk.text, pendingBytes]
      | succ => rfl
    · cases scalars

theorem chunks_text {b : Bytes} (scalars : (chunks p b).all Chunk.isScalar = true) :
    (chunks p b).flatMap Chunk.text = pendingBytes p ++ b := by
  induction b generalizing p with
  | nil =>
    cases p with
    | none => rfl
    | some => cases scalars
  | cons b _ ih =>
    simp only [chunks, all_append, Bool.and_eq_true] at scalars
    rw [chunks, flatMap_append, ih scalars.2, ← append_assoc, step_text scalars.1,
      append_assoc, singleton_append]

theorem start_low : ∀ q ∈ (start b).2, ¬ q.low < 0x80 := by
  unfold start
  split_ifs <;> simp

theorem step_low (p : Option Pending) (b : UInt8) : ∀ q ∈ (step p b).2, ¬ q.low < 0x80 := by
  cases p with
  | none => exact start_low
  | some p =>
    simp only [step, continued]
    split_ifs
    · split <;> simp
    · exact start_low

/-- ASCII bytes may be exchanged for each other. -/
theorem valid_of_forall₂ {s t : Bytes}
    (alike : List.Forall₂ (fun b c => c = b ∨ b < 0x80 ∧ c < 0x80) s t) (h : valid s = true) :
    valid t = true := by
  suffices all : ∀ p : Option Pending, (∀ q ∈ p, ¬ q.low < 0x80) →
      (chunks p s).all Chunk.isScalar = true → (chunks p t).all Chunk.isScalar = true from
    all none nofun h
  clear h
  induction alike with
  | nil => exact fun _ _ h => h
  | @cons b c s t first _ ih =>
    intro p pending h
    simp only [chunks, all_append, Bool.and_eq_true] at h ⊢
    rcases first with rfl | ⟨low, low'⟩
    · exact ⟨h.1, ih _ (step_low p c) h.2⟩
    · cases p with
      | none =>
        simp only [step, start, if_pos low, if_pos low'] at h ⊢
        exact ⟨rfl, ih none nofun h.2⟩
      | some p =>
        have outside : ¬ (p.low ≤ b ∧ b ≤ p.high) := fun inside =>
          pending p rfl (UInt8.lt_of_le_of_lt inside.1 low)
        simp [step, continued, outside, Chunk.isScalar] at h

theorem lossy_of_valid {b : Bytes} (h : valid b = true) : lossy b = b :=
  chunks_text h

end Utf8
