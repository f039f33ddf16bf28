import Mathlib.Data.Nat.Digits.Defs
import Talon.Gateway.AwsChunked

/-!
# The grammar of an aws-chunked body

What a size line and a trailer say, and what the bytes of a body frame up to a given point, without
the decoder: numbers are hexadecimal text, a trailer is a name, a colon and a value, and the payload
is what the size lines announce.
-/

set_option autoImplicit false

namespace Talon.Gateway.AwsChunked

open Wire (Bytes)
open List Option
open UInt8 (reduceToNat toNat_inj)

/-- A hexadecimal digit of either case. -/
def HexDigit (b value : UInt8) : Prop :=
  b.toNat = 48 + value.toNat ∧ value.toNat < 10 ∨
    (b.toNat = 55 + value.toNat ∨ b.toNat = 87 + value.toNat) ∧
      10 ≤ value.toNat ∧ value.toNat < 16

/-- `<hex>[;ext]`, with white space around a number that may have a plus sign. -/
def SizeLine (line : Bytes) (size : Nat) : Prop :=
  Utf8.valid line = true ∧ size < 2 ^ 64 ∧ ∃ sign digits values,
    trim (line.takeWhile (· ≠ 59)) = sign ++ digits ∧ (sign = [] ∨ sign = [43]) ∧ digits ≠ [] ∧
      Forall₂ HexDigit digits values ∧
      Nat.ofDigits 16 (values.map UInt8.toNat).reverse = size

/-- `<name>:<value>`, where the name is the algorithm's in any case. -/
def TrailerLine (a : ChecksumAlgorithm) (line value : Bytes) : Prop :=
  Utf8.valid line = true ∧ ∃ name rest, line = name ++ 58 :: rest ∧ 58 ∉ name ∧
    (trim name).map Text.toLower = trailerKey a ∧ trim rest = value

/-- The last of the trailers that name the algorithm has the value. -/
def LastTrailer (a : ChecksumAlgorithm) (trailers : List Bytes) (value : Bytes) : Prop :=
  ∃ before line after, trailers = before ++ line :: after ∧ TrailerLine a line value ∧
    ∀ later ∈ after, ∀ other, ¬TrailerLine a later other

/-- The input is read up to `rest`, in a phase: it frames the payload and the trailers so far. -/
inductive Framing (declared : Nat) (input : Bytes) : Phase → Bytes → List Bytes → Bytes → Prop
  | start : Framing declared input .header [] [] input
  | chunk {payload trailers line n rest}
      (before : Framing declared input .header payload trailers (line ++ crlf ++ rest))
      (free : ¬crlf <:+: line) (size : SizeLine line n) (filled : n ≠ 0)
      (room : payload.length + n < 2 ^ 64 ∧ payload.length + n ≤ declared) :
      Framing declared input (.data n) payload trailers rest
  | data {payload trailers data n rest}
      (before : Framing declared input (.data (n + data.length)) payload trailers (data ++ rest))
      (filled : data ≠ []) :
      Framing declared input (if n = 0 then .afterData else .data n) (payload ++ data) trailers rest
  | next {payload trailers rest}
      (before : Framing declared input .afterData payload trailers (crlf ++ rest)) :
      Framing declared input .header payload trailers rest
  | zero {payload trailers line rest}
      (before : Framing declared input .header payload trailers (line ++ crlf ++ rest))
      (free : ¬crlf <:+: line) (size : SizeLine line 0) :
      Framing declared input .trailer payload trailers rest
  | trailer {payload trailers line rest}
      (before : Framing declared input .trailer payload trailers (line ++ crlf ++ rest))
      (free : ¬crlf <:+: line) (filled : line ≠ []) (few : trailers.length < maxTrailers) :
      Framing declared input .trailer payload (trailers ++ [line]) rest

/-- A line of the body, in a phase, that is as long as the limit. -/
def LongLine (declared : Nat) (input : Bytes) (phase : Phase) (line : Bytes) : Prop :=
  (phase = .header ∨ phase = .trailer) ∧ ¬crlf <:+: line ∧ maxChunkHeader ≤ line.length ∧
    ∃ payload trailers rest, Framing declared input phase payload trailers (line ++ crlf ++ rest)

/-- The body breaks off within a trailer that is past the limit. -/
def Overruns (declared : Nat) (input : Bytes) : Prop :=
  ∃ payload trailers rest, Framing declared input .trailer payload trailers rest ∧
    ¬crlf <:+: rest ∧ maxChunkHeader < rest.length

/-- A line as long as the limit occurs only after all of the payload, in a body that overruns. -/
def Steady (declared : Nat) (input : Bytes) : Prop :=
  ∀ phase line, LongLine declared input phase line →
    Overruns declared input ∧ (phase = .header → SizeLine line 0)

section Lines

theorem hexValue_some {b v : UInt8} : Percent.hexValue b = some v ↔ HexDigit b v := by
  have above (low : UInt8) (h : low ≤ b) : (b - low).toNat = b.toNat - low.toNat :=
    UInt8.toNat_sub_of_le _ _ h
  unfold Percent.hexValue HexDigit
  simp only [UInt8.le_iff_toNat_le, reduceToNat] at above ⊢
  have := b.toNat_lt
  split_ifs with digit lower upper
  · rw [some.injEq, ← toNat_inj, above 48 digit.1]
    simp only [reduceToNat]
    omega
  · rw [some.injEq, ← toNat_inj, UInt8.toNat_add, above 97 lower.1]
    simp only [reduceToNat]
    omega
  · rw [some.injEq, ← toNat_inj, UInt8.toNat_add, above 65 upper.1]
    simp only [reduceToNat]
    omega
  · simp only [false_iff]
    omega

theorem foldl_digits (values : List UInt8) :
    values.foldl (fun n v => 16 * n + v.toNat) 0 =
      Nat.ofDigits 16 (values.map UInt8.toNat).reverse := by
  rw [Nat.ofDigits_eq_foldr, foldr_reverse, foldl_map]
  simp only [Nat.cast_id, Nat.add_comm]

theorem mapM_hexValue {digits values : List UInt8} :
    digits.mapM Percent.hexValue = some values ↔ Forall₂ HexDigit digits values := by
  constructor
  · intro read
    exact (Fallible.mapM_some read).imp fun _ _ => hexValue_some.mp
  · intro each
    exact Fallible.mapM_of_forall₂ (each.imp fun _ _ => hexValue_some.mpr)

variable {size : Nat}

theorem fromHexDigits_some {digits : Bytes} :
    fromHexDigits digits = some size ↔ size < 2 ^ 64 ∧ digits ≠ [] ∧ ∃ values,
      Forall₂ HexDigit digits values ∧
      Nat.ofDigits 16 (values.map UInt8.toNat).reverse = size := by
  simp only [← mapM_hexValue, ← foldl_digits, fromHexDigits]
  cases digits.mapM Percent.hexValue <;> cases digits <;> simp
  grind

theorem not_hexDigit_plus {digits values : List UInt8} :
    ¬Forall₂ HexDigit (43 :: digits) values := by
  intro each
  cases each with
  | cons digit _ =>
    unfold HexDigit at digit
    simp only [reduceToNat] at digit
    omega

/-- A plus sign is no digit, so the sign is read in one way. -/
theorem fromHex_some {text : Bytes} :
    fromHex text = some size ↔ size < 2 ^ 64 ∧ ∃ sign digits values, text = sign ++ digits ∧
      (sign = [] ∨ sign = [43]) ∧ digits ≠ [] ∧ Forall₂ HexDigit digits values ∧
      Nat.ofDigits 16 (values.map UInt8.toNat).reverse = size := by
  rw [fromHex, fromHexDigits_some]
  refine and_congr_right fun _ => ⟨?_, ?_⟩
  · rintro ⟨filled, values, each, value⟩
    split at filled
    · rename_i plus
      rw [if_pos plus] at each
      exact ⟨[43], text.tail, values, by rw [singleton_append, cons_head?_tail plus], .inr rfl,
        filled, each, value⟩
    · rename_i plus
      rw [if_neg plus] at each
      exact ⟨[], text, values, rfl, .inl rfl, filled, each, value⟩
  · rintro ⟨_, digits, values, rfl, rfl | rfl, filled, each, value⟩
    · have plus : ¬([] ++ digits).head? = some 43 := by
        intro plus
        rw [nil_append, head?_eq_some_iff] at plus
        obtain ⟨_, rfl⟩ := plus
        exact not_hexDigit_plus each
      rw [if_neg plus]
      exact ⟨filled, values, each, value⟩
    · exact ⟨filled, values, each, value⟩

variable {line : Bytes}

theorem parseChunkSize_ok : parseChunkSize line = .ok size ↔ SizeLine line size := by
  simp only [SizeLine, ← fromHex_some, parseChunkSize]
  by_cases valid : Utf8.valid line = true
  · by_cases blank : trim (line.takeWhile (· ≠ 59)) = []
    · rw [if_pos valid, if_pos blank, blank]
      simp [fromHex, fromHexDigits]
    · rw [if_pos valid, if_neg blank]
      cases fromHex (trim (line.takeWhile (· ≠ 59))) <;> simp [valid]
  · simp [valid]

variable {a : ChecksumAlgorithm}

theorem trailerValue_some {value : Bytes} :
    trailerValue a line = some value ↔ TrailerLine a line value := by
  unfold trailerValue TrailerLine
  constructor
  · intro read
    split at read
    · rename_i valid
      split at read
      · rename_i name rest cut
        split at read
        · rename_i named
          obtain ⟨split, free⟩ := Text.cut_some cut
          exact ⟨valid, name, rest, split, free, named, some.inj read⟩
        · cases read
      · cases read
    · cases read
  · rintro ⟨valid, name, rest, rfl, free, named, rfl⟩
    simp [valid, Text.cut_append free, named]

theorem not_trailerLine : trailerValue a line = none ↔ ∀ value, ¬TrailerLine a line value := by
  simp only [eq_none_iff_forall_ne_some, ne_eq, trailerValue_some]

def lastValue (a : ChecksumAlgorithm) (trailers : List Bytes) : Option Bytes :=
  (trailers.filterMap (trailerValue a)).getLast?

theorem lastValue_some {trailers : List Bytes} {value : Bytes} :
    lastValue a trailers = some value ↔ LastTrailer a trailers value := by
  unfold lastValue LastTrailer
  rw [getLast?_eq_some_iff]
  constructor
  · rintro ⟨_, found⟩
    obtain ⟨front, _, rfl, -, found⟩ := filterMap_eq_append_iff.mp found
    obtain ⟨skipped, line, after, rfl, -, here, silent⟩ := filterMap_eq_cons_iff.mp found
    refine ⟨front ++ skipped, line, after, (append_assoc ..).symm, trailerValue_some.mp here, ?_⟩
    exact fun later mem => not_trailerLine.mp (filterMap_eq_nil_iff.mp silent later mem)
  · rintro ⟨before, line, after, rfl, here, silent⟩
    have none_after : after.filterMap (trailerValue a) = [] :=
      filterMap_eq_nil_iff.mpr fun later mem => not_trailerLine.mpr (silent later mem)
    refine ⟨before.filterMap (trailerValue a), ?_⟩
    rw [filterMap_append, filterMap_cons, trailerValue_some.mpr here, none_after]

end Lines

namespace Framing

variable {declared : Nat} {input payload rest : Bytes} {phase : Phase} {trailers : List Bytes}

theorem live (framing : Framing declared input phase payload trailers rest) :
    phase ≠ .done ∧ phase ≠ .data 0 := by
  cases framing with
  | chunk _ _ _ filled => simp [filled]
  | data => split <;> simp [*]
  | start | next | zero | trailer => exact ⟨nofun, nofun⟩

/-- What is framed up to a point is framed whatever comes after it. -/
theorem moved (framing : Framing declared input phase payload trailers rest) :
    ∃ front, input = front ++ rest ∧
      ∀ other, Framing declared (front ++ other) phase payload trailers other := by
  induction framing with
  | start => exact ⟨[], rfl, fun _ => .start⟩
  | @chunk _ _ line n _ _ free size filled room ih =>
    obtain ⟨front, rfl, read⟩ := ih
    refine ⟨front ++ (line ++ crlf), by simp, fun other => .chunk ?_ free size filled room⟩
    simpa using read (line ++ crlf ++ other)
  | @data _ _ data _ _ _ filled ih =>
    obtain ⟨front, rfl, read⟩ := ih
    refine ⟨front ++ data, by simp, fun other => .data ?_ filled⟩
    simpa using read (data ++ other)
  | next _ ih =>
    obtain ⟨front, rfl, read⟩ := ih
    refine ⟨front ++ crlf, by simp, fun other => .next ?_⟩
    simpa using read (crlf ++ other)
  | @zero _ _ line _ _ free size ih =>
    obtain ⟨front, rfl, read⟩ := ih
    refine ⟨front ++ (line ++ crlf), by simp, fun other => .zero ?_ free size⟩
    simpa using read (line ++ crlf ++ other)
  | @trailer _ _ line _ _ free filled few ih =>
    obtain ⟨front, rfl, read⟩ := ih
    refine ⟨front ++ (line ++ crlf), by simp, fun other => .trailer ?_ free filled few⟩
    simpa using read (line ++ crlf ++ other)

end Framing

theorem not_longLine_of_short {declared : Nat} {input line : Bytes} {phase : Phase}
    (short : input.length < maxChunkHeader) : ¬LongLine declared input phase line := by
  rintro ⟨-, -, long, _, _, _, framing⟩
  obtain ⟨front, rfl, -⟩ := framing.moved
  simp only [length_append] at short
  omega

end Talon.Gateway.AwsChunked
