import Mathlib.Data.List.Infix
import Talon.Lib.Wire

/-!
# Byte strings and the ways they are cut

The operations of a string type over its UTF-8 bytes: cutting at a separator, trimming, reading a
number.  Joining with a separator loses nothing when no part holds it.
-/

set_option autoImplicit false

namespace Text

open Wire (Bytes)
open List

def ascii (s : String) : Bytes := s.toByteArray.data.toList

/-- `split_once`. -/
def cut (sep : UInt8) : Bytes → Option (Bytes × Bytes)
  | [] => none
  | b :: s =>
    if b = sep then some ([], s)
    else match cut sep s with
      | none => none
      | some (a, rest) => some (b :: a, rest)

/-- `char::is_whitespace` on ASCII. -/
def isSpace (b : UInt8) : Bool := b = 32 ∨ 9 ≤ b ∧ b ≤ 13

/-- `u8::is_ascii_whitespace`, which is without the vertical tab. -/
def isAsciiSpace (b : UInt8) : Bool := b ∈ [32, 9, 10, 12, 13]

/-- `str::trim` on ASCII. -/
def trim (s : Bytes) : Bytes := ((s.dropWhile isSpace).reverse.dropWhile isSpace).reverse

/-- `split_ascii_whitespace`. -/
def words (s : Bytes) : List Bytes := (s.splitOnP isAsciiSpace).filter (· ≠ [])

def joined (sep : UInt8) (parts : List Bytes) : Bytes := [sep].intercalate parts

def isDigit (b : UInt8) : Bool := 48 ≤ b ∧ b ≤ 57

def isLower (b : UInt8) : Bool := 97 ≤ b ∧ b ≤ 122

def isUpper (b : UInt8) : Bool := 65 ≤ b ∧ b ≤ 90

def toLower (b : UInt8) : UInt8 := if isUpper b then b + 32 else b

def digitsValue (s : Bytes) : Nat := s.foldl (fun n b => 10 * n + (b.toNat - 48)) 0

/-- `str::parse` of an unsigned integer of `width` bits: one plus sign is accepted before the
digits. -/
def parseUnsigned (width : Nat) (s : Bytes) : Option Nat :=
  let digits := if s.head? = some 43 then s.tail else s
  if digits ≠ [] ∧ digits.all isDigit ∧ digitsValue digits < 2 ^ width then
    some (digitsValue digits)
  else none

section Cut

variable {sep : UInt8}

theorem cut_some {s a rest : Bytes} (h : cut sep s = some (a, rest)) :
    s = a ++ sep :: rest ∧ sep ∉ a := by
  induction s generalizing a with
  | nil => cases h
  | cons b s ih =>
    rw [cut] at h
    by_cases here : b = sep
    · rw [if_pos here] at h
      cases h
      exact ⟨by rw [here, nil_append], not_mem_nil⟩
    · rw [if_neg here] at h
      split at h
      · cases h
      · rename_i found
        cases h
        obtain ⟨split, free⟩ := ih found
        exact ⟨by rw [split, cons_append], not_mem_cons_of_ne_of_not_mem (Ne.symm here) free⟩

theorem cut_append {a : Bytes} (free : sep ∉ a) (rest : Bytes) :
    cut sep (a ++ sep :: rest) = some (a, rest) := by
  induction a with
  | nil => simp [cut]
  | cons b a ih =>
    simp only [mem_cons, not_or] at free
    rw [cons_append, cut, if_neg (Ne.symm free.1), ih free.2]

theorem not_of_mem_splitOnP {p : UInt8 → Bool} {s part : Bytes} (h : part ∈ s.splitOnP p) :
    ∀ b ∈ part, p b = false := by
  induction s generalizing part with
  | nil =>
    simp only [splitOnP_nil, mem_singleton] at h
    rw [h]
    exact nofun
  | cons c s ih =>
    rw [splitOnP_cons_eq_if_modifyHead] at h
    split_ifs at h with here
    · rcases mem_cons.mp h with rfl | later
      · exact nofun
      · exact ih later
    · cases parts : s.splitOnP p with
      | nil => exact absurd parts (splitOnP_ne_nil p s)
      | cons =>
        rw [parts, modifyHead_cons] at h
        rcases mem_cons.mp h with rfl | later
        · intro b mem
          rcases mem_cons.mp mem with rfl | inside
          · simpa using here
          · exact ih (parts ▸ mem_cons_self) b inside
        · exact ih (parts ▸ mem_cons_of_mem _ later)

theorem notMem_of_mem_splitOn {s part : Bytes} (h : part ∈ s.splitOn sep) : sep ∉ part := by
  intro mem
  have clean := not_of_mem_splitOnP h sep mem
  simp at clean

theorem joined_cons_cons (sep : UInt8) (a b : Bytes) (parts : List Bytes) :
    joined sep (a :: b :: parts) = a ++ sep :: joined sep (b :: parts) := by
  simp [joined, intercalate]

theorem joined_singleton (sep : UInt8) (a : Bytes) : joined sep [a] = a := by
  simp [joined, intercalate]

theorem notMem_joined {b : UInt8} {parts : List Bytes} (other : b ≠ sep)
    (free : ∀ part ∈ parts, b ∉ part) : b ∉ joined sep parts := by
  match parts with
  | [] => exact not_mem_nil
  | [a] =>
    rw [joined_singleton]
    exact free a mem_cons_self
  | a :: c :: parts =>
    rw [joined_cons_cons, mem_append, mem_cons]
    rintro (here | same | later)
    · exact free a mem_cons_self here
    · exact other same
    · exact notMem_joined other (fun part mem => free part (mem_cons_of_mem _ mem)) later

theorem joined_inj {a b : List Bytes} (a_free : ∀ l ∈ a, sep ∉ l) (b_free : ∀ l ∈ b, sep ∉ l)
    (a_some : a ≠ []) (b_some : b ≠ []) (same : joined sep a = joined sep b) : a = b := by
  have cutA := splitOn_intercalate sep a_free a_some
  have cutB := splitOn_intercalate sep b_free b_some
  rw [← cutA, ← cutB]
  exact congrArg (splitOn sep) same

end Cut

end Text
