import Talon.Lib.Text

/-!
# Percent-encoded bytes

A text is read as a list of lexemes, each a plain byte or an escape `%XX`; a percent sign that
starts no escape is plain.  Decoding, checking and re-encoding are all functions of the lexemes, and
a byte that can stand in no escape cuts the lexemes where it cuts the text.
-/

set_option autoImplicit false

namespace Percent

open Wire (Bytes)
open List
open Text (joined)

def sign : UInt8 := 37

def hexValue (b : UInt8) : Option UInt8 :=
  if 48 ≤ b ∧ b ≤ 57 then some (b - 48)
  else if 97 ≤ b ∧ b ≤ 102 then some (b - 97 + 10)
  else if 65 ≤ b ∧ b ≤ 70 then some (b - 65 + 10)
  else none

inductive Lexeme
  | plain (b : UInt8)
  | escaped (b : UInt8)
deriving DecidableEq

namespace Lexeme

def byte : Lexeme → UInt8
  | .plain b => b
  | .escaped b => b

/-- A byte as it is spelled, plain where `keep` names it. -/
def spelled (keep : UInt8 → Bool) (b : UInt8) : Lexeme := if keep b then .plain b else .escaped b

def onPlain (f : UInt8 → UInt8) : Lexeme → Lexeme
  | .plain b => .plain (f b)
  | .escaped b => .escaped b

end Lexeme

/-- The byte that three bytes escape, if they are an escape. -/
def escape (b high low : UInt8) : Option UInt8 :=
  if b = sign then
    match hexValue high, hexValue low with
    | some h, some l => some (h <<< 4 ||| l)
    | _, _ => none
  else none

def lex : Bytes → List Lexeme
  | b :: high :: low :: rest =>
    match escape b high low with
    | some v => .escaped v :: lex rest
    | none => .plain b :: lex (high :: low :: rest)
  | b :: rest => .plain b :: lex rest
  | [] => []

def decode (s : Bytes) : Bytes := (lex s).map Lexeme.byte

def wellFormed (s : Bytes) : Bool := (lex s).all (· ≠ .plain sign)

def hexDigit (n : UInt8) : UInt8 := if n < 10 then 48 + n else 55 + n

/-- The bytes that `keep` names stand for themselves. -/
def encodeByte (keep : UInt8 → Bool) (b : UInt8) : Bytes :=
  if keep b then [b] else [sign, hexDigit (b >>> 4), hexDigit (b &&& 15)]

def encode (keep : UInt8 → Bool) (s : Bytes) : Bytes := s.flatMap (encodeByte keep)

/-- A lexeme in its one spelling: a plain `sep` stays, an escaped one stays escaped. -/
def spell (keep : UInt8 → Bool) (sep : UInt8) : Lexeme → Bytes
  | .plain b => if b = sep then [b] else encodeByte keep b
  | .escaped b => encodeByte keep b

def respell (keep : UInt8 → Bool) (sep : UInt8) (s : Bytes) : Bytes :=
  (lex s).flatMap (spell keep sep)

variable {b : UInt8} {s : Bytes}

section Lex

theorem escape_of_ne (h : b ≠ sign) (high low : UInt8) : escape b high low = none :=
  if_neg h

theorem lex_cons (h : b ≠ sign) (rest : Bytes) : lex (b :: rest) = .plain b :: lex rest := by
  match rest with
  | [] => rfl
  | [_] => rfl
  | high :: low :: rest => simp [lex, escape_of_ne h]

/-- A separator is a byte that can stand in no escape. -/
def Separates (sep : UInt8) : Prop := sep ≠ sign ∧ hexValue sep = none

instance (sep : UInt8) : Decidable (Separates sep) :=
  inferInstanceAs (Decidable (sep ≠ sign ∧ hexValue sep = none))

variable {sep : UInt8}

theorem escape_high (h : Separates sep) (b low : UInt8) : escape b sep low = none := by
  simp [escape, h.2]

theorem escape_low (h : Separates sep) (b high : UInt8) : escape b high sep = none := by
  unfold escape
  rw [h.2]
  split_ifs
  · cases hexValue high <;> rfl
  · rfl

theorem lex_append (h : Separates sep) (a rest : Bytes) :
    lex (a ++ sep :: rest) = lex a ++ .plain sep :: lex rest := by
  induction a using lex.induct with
  | case1 b _ _ _ v found ih =>
    simp [cons_append, lex, found, ih]
  | case2 b _ _ _ none_ ih =>
    simp only [cons_append, lex, none_] at ih ⊢
    rw [ih]
  | case3 b tail short ih =>
    -- An escape that began before the separator would have to reach over it.
    match tail with
    | [] =>
      rw [cons_append, nil_append]
      cases rest with
      | nil => rfl
      | cons =>
        simp only [lex, escape_high h]
        rw [lex_cons h.1]
        rfl
    | [c] =>
      simp only [cons_append, nil_append] at ih ⊢
      simp only [lex, escape_low h] at ih ⊢
      rw [ih]
      rfl
    | high :: low :: tail => exact absurd rfl (short high low tail)
  | case4 => exact lex_cons h.1 rest

theorem head_plain {v : UInt8} (h : .plain v ∈ (lex (b :: s)).head?) : v = b := by
  match s with
  | [] => simpa [lex, eq_comm] using h
  | [_] => simpa [lex, eq_comm] using h
  | high :: low :: rest =>
    simp only [lex] at h
    split at h
    · simp at h
    · simpa [eq_comm] using h

theorem wellFormed_append (h : Separates sep) (a rest : Bytes) :
    wellFormed (a ++ sep :: rest) = (wellFormed a && wellFormed rest) := by
  have other : Lexeme.plain sep ≠ .plain sign := fun same => h.1 (Lexeme.plain.inj same)
  simp [wellFormed, lex_append h, other]

theorem wellFormed_joined (h : Separates sep) (parts : List Bytes) :
    wellFormed (joined sep parts) = parts.all wellFormed := by
  match parts with
  | [] => rfl
  | [a] => simp [Text.joined_singleton]
  | a :: b :: parts =>
    rw [Text.joined_cons_cons, wellFormed_append h, wellFormed_joined h (b :: parts)]
    rfl

theorem decode_joined (h : Separates sep) (parts : List Bytes) :
    decode (joined sep parts) = joined sep (parts.map decode) := by
  match parts with
  | [] => rfl
  | [a] => simp [Text.joined_singleton]
  | a :: b :: parts =>
    have later := decode_joined h (b :: parts)
    rw [map_cons, map_cons, Text.joined_cons_cons, Text.joined_cons_cons, ← map_cons, ← later]
    simp [decode, lex_append h, Lexeme.byte]

theorem lex_eq_nil : lex s = [] ↔ s = [] := by
  constructor
  · intro none_
    match s with
    | [] => rfl
    | [_] => cases none_
    | [_, _] => cases none_
    | b :: high :: low :: rest =>
      simp only [lex] at none_
      split at none_ <;> cases none_
  · rintro rfl
    rfl

theorem mem_of_plain (h : Lexeme.plain b ∈ lex s) : b ∈ s := by
  induction s using lex.induct with
  | case1 c _ _ _ v found ih =>
    simp only [lex, found, mem_cons, reduceCtorEq, false_or] at h
    exact mem_cons_of_mem _ (mem_cons_of_mem _ (mem_cons_of_mem _ (ih h)))
  | case2 c _ _ _ none_ ih =>
    simp only [lex, none_, mem_cons, Lexeme.plain.injEq] at h ih ⊢
    rcases h with same | later
    · exact .inl same
    · exact .inr (ih later)
  | case3 c _ short ih =>
    rw [lex, mem_cons] at h
    · rcases h with same | later
      · exact mem_cons.mpr (.inl (Lexeme.plain.inj same))
      · exact mem_cons_of_mem _ (ih later)
    · exact short
  | case4 => cases h

/-- A change of bytes that makes and breaks no escape changes the plain bytes only. -/
theorem lex_map {f : UInt8 → UInt8} (digits : ∀ b, hexValue (f b) = hexValue b)
    (signs : ∀ b, f b = sign ↔ b = sign) (s : Bytes) :
    lex (s.map f) = (lex s).map (Lexeme.onPlain f) := by
  have same (b high low : UInt8) : escape (f b) (f high) (f low) = escape b high low := by
    simp [escape, digits, signs]
  induction s using lex.induct with
  | case1 b _ _ _ v found ih =>
    simp only [map_cons, lex, same, found, ih, Lexeme.onPlain]
  | case2 b _ _ _ none_ ih =>
    simp only [map_cons, lex, same, none_, Lexeme.onPlain] at ih ⊢
    rw [ih]
  | case3 b tail short ih =>
    match tail with
    | [] => rfl
    | [_] => rfl
    | high :: low :: tail => exact absurd rfl (short high low tail)
  | case4 => rfl

end Lex

section Encode

variable {keep : UInt8 → Bool}

theorem forall_byte {P : UInt8 → Prop} (all : ∀ n : Fin 256, P (UInt8.ofNat n)) (b : UInt8) :
    P b := by
  simpa using all ⟨b.toNat, b.toNat_lt⟩

theorem escape_digits (b : UInt8) :
    escape sign (hexDigit (b >>> 4)) (hexDigit (b &&& 15)) = some b := by
  revert b
  apply forall_byte
  decide +kernel

theorem hexDigit_isDigit (b : UInt8) :
    hexValue (hexDigit (b >>> 4)) ≠ none ∧ hexValue (hexDigit (b &&& 15)) ≠ none := by
  revert b
  apply forall_byte
  decide +kernel

theorem lex_encodeByte (percent : keep sign = false) (b : UInt8) (rest : Bytes) :
    lex (encodeByte keep b ++ rest) = .spelled keep b :: lex rest := by
  unfold encodeByte Lexeme.spelled
  split_ifs with kept
  · have ne : b ≠ sign := fun same => by rw [same, percent] at kept; cases kept
    exact lex_cons ne rest
  · simp [lex, escape_digits]

@[simp] theorem byte_spelled (keep : UInt8 → Bool) (b : UInt8) :
    (Lexeme.spelled keep b).byte = b := by
  unfold Lexeme.spelled
  split_ifs <;> rfl

theorem decode_encode (percent : keep sign = false) (s : Bytes) : decode (encode keep s) = s := by
  induction s with
  | nil => rfl
  | cons b s ih =>
    rw [decode] at ih ⊢
    rw [encode, flatMap_cons, ← encode, lex_encodeByte percent, map_cons, ih, byte_spelled]

variable {sep : UInt8}

theorem notMem_encodeByte (separates : Separates sep) (dropped : keep sep = false)
    (b : UInt8) : sep ∉ encodeByte keep b := by
  intro mem
  unfold encodeByte at mem
  by_cases kept : keep b = true
  · rw [if_pos kept, mem_singleton] at mem
    rw [← mem, dropped] at kept
    cases kept
  · rw [if_neg kept] at mem
    simp only [mem_cons, not_mem_nil, or_false] at mem
    rcases mem with same | same | same
    · exact separates.1 same
    · exact (hexDigit_isDigit b).1 (same ▸ separates.2)
    · exact (hexDigit_isDigit b).2 (same ▸ separates.2)

theorem notMem_encode (separates : Separates sep) (dropped : keep sep = false)
    (s : Bytes) : sep ∉ encode keep s := by
  simp only [encode, mem_flatMap, not_exists, not_and]
  intro b _
  exact notMem_encodeByte separates dropped b

end Encode

section Respell

variable {keep : UInt8 → Bool} {sep : UInt8}

/-- The lexeme that the spelling of a lexeme is read as. -/
def Lexeme.respelled (keep : UInt8 → Bool) (sep : UInt8) : Lexeme → Lexeme
  | .plain b => if b = sep then .plain b else .spelled keep b
  | .escaped b => .spelled keep b

theorem lex_respell (percent : keep sign = false) (separates : Separates sep) (s : Bytes) :
    lex (respell keep sep s) = (lex s).map (Lexeme.respelled keep sep) := by
  unfold respell
  induction lex s with
  | nil => rfl
  | cons x l ih =>
    rw [flatMap_cons, map_cons, ← ih]
    cases x with
    | escaped b => exact lex_encodeByte percent b _
    | plain b =>
      by_cases same : b = sep
      · rw [spell, Lexeme.respelled, if_pos same, if_pos same, same]
        exact lex_cons separates.1 _
      · rw [spell, Lexeme.respelled, if_neg same, if_neg same]
        exact lex_encodeByte percent b _

theorem respelled_iff (dropped : keep sep = false) (x : Lexeme) :
    x.respelled keep sep = .plain sep ↔ x = .plain sep := by
  have other (b : UInt8) : Lexeme.spelled keep b ≠ .plain sep := by
    unfold Lexeme.spelled
    split_ifs with kept
    · rintro ⟨⟩
      rw [dropped] at kept
      cases kept
    · nofun
  cases x with
  | escaped b => exact iff_of_false (other b) nofun
  | plain b =>
    rw [Lexeme.respelled]
    split_ifs with same
    · exact Iff.rfl
    · exact iff_of_false (other b) fun eq => same (Lexeme.plain.inj eq)

theorem notMem_respell_of_ne {c : UInt8} (separates : Separates c) (dropped : keep c = false)
    (ne : c ≠ sep) (s : Bytes) : c ∉ respell keep sep s := by
  simp only [respell, mem_flatMap, not_exists, not_and]
  intro x _
  cases x with
  | escaped b => exact notMem_encodeByte separates dropped b
  | plain b =>
    rw [spell]
    split_ifs with same
    · rw [mem_singleton, same]
      exact ne
    · exact notMem_encodeByte separates dropped b

theorem lex_joined (separates : Separates sep) (parts : List Bytes) :
    lex (joined sep parts) = [.plain sep].intercalate (parts.map lex) := by
  match parts with
  | [] => rfl
  | [a] => simp [Text.joined_singleton]
  | a :: b :: parts =>
    rw [Text.joined_cons_cons, lex_append separates, lex_joined separates (b :: parts)]
    simp [intercalate]

theorem lex_splitOn (separates : Separates sep) (s : Bytes) :
    (s.splitOn sep).map lex = (lex s).splitOn (.plain sep) := by
  have whole := lex_joined separates (s.splitOn sep)
  rw [joined, intercalate_splitOn] at whole
  rw [whole, splitOn_intercalate]
  · intro _ mem inside
    obtain ⟨_, held, rfl⟩ := mem_map.mp mem
    exact Text.notMem_of_mem_splitOn held (mem_of_plain inside)
  · simp [splitOn_ne_nil]

theorem lex_dropWhile (separates : Separates sep) (s : Bytes) :
    lex (s.dropWhile (· = sep)) = (lex s).dropWhile (· = .plain sep) := by
  induction s with
  | nil => rfl
  | cons b s ih =>
    by_cases same : b = sep
    · rw [dropWhile_cons_of_pos (by simpa using same), ih, same, lex_cons separates.1]
      exact (dropWhile_cons_of_pos (by simp)).symm
    · rw [dropWhile_cons_of_neg (by simpa using same)]
      cases read : lex (b :: s) with
      | nil => rfl
      | cons x l =>
        have first : x ≠ .plain sep := by
          rintro rfl
          exact same (head_plain (by rw [read]; rfl)).symm
        rw [dropWhile_cons_of_neg (by simpa using first)]

theorem splitOn_map {α β : Type} [DecidableEq α] [DecidableEq β] {f : α → β} {a : α} {b : β}
    (cuts : ∀ x, f x = b ↔ x = a) (l : List α) :
    (l.map f).splitOn b = (l.splitOn a).map (map f) := by
  unfold splitOn
  induction l with
  | nil => rfl
  | cons x l ih =>
    simp only [map_cons, splitOnP_cons_eq_if_modifyHead, ih, beq_iff_eq, cuts]
    split_ifs
    · rfl
    · cases l.splitOnP (· == a) <;> rfl

/-- The parts that separators cut a text into are decoded as those of its one spelling. -/
theorem parts_respell (percent : keep sign = false) (separates : Separates sep)
    (dropped : keep sep = false) (s : Bytes) :
    (((respell keep sep s).dropWhile (· = sep)).splitOn sep).map decode =
      ((s.dropWhile (· = sep)).splitOn sep).map decode := by
  have read (t : Bytes) : ((t.dropWhile (· = sep)).splitOn sep).map decode =
      (((lex t).dropWhile (· = .plain sep)).splitOn (.plain sep)).map (map Lexeme.byte) := by
    rw [← lex_dropWhile separates, ← lex_splitOn separates, map_map]
    rfl
  have bytes (x : Lexeme) : (x.respelled keep sep).byte = x.byte := by
    cases x with
    | escaped b => exact byte_spelled keep b
    | plain b =>
      rw [Lexeme.respelled]
      split_ifs
      · rfl
      · exact byte_spelled keep b
  rw [read, read, lex_respell percent separates, dropWhile_map, splitOn_map (respelled_iff dropped),
    map_map]
  simp [Function.comp_def, respelled_iff dropped, bytes]

end Respell

end Percent
