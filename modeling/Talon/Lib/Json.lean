import Mathlib.Algebra.Order.Ring.Nat
import Mathlib.Data.Char
import Mathlib.Data.List.Basic

/-!
# Compact JSON text

JSON values and their text without blanks.  A value can be read off the front of its text, so two
values with the same text are the same value.
-/

set_option autoImplicit false

namespace Json

open List

abbrev Text := List Char

def isNumberChar (c : Char) : Bool := c.isDigit || c ∈ ['-', '+', '.', 'e', 'E']

/-- A number stands as the text it is printed as. -/
structure Number where
  text : Text
  nonempty : text ≠ []
  chars : ∀ c ∈ text, isNumberChar c = true
deriving DecidableEq

/-- The fields of an object stand in the order in which they are printed. -/
inductive Value
  | null
  | bool (b : Bool)
  | num (n : Number)
  | str (s : Text)
  | arr (items : List Value)
  | obj (fields : List (Text × Value))

/-! ## Printing -/

def hexDigit (n : Nat) : Char := Nat.digitChar n

def escape (c : Char) : Text :=
  if c = '"' then ['\\', '"']
  else if c = '\\' then ['\\', '\\']
  else if c = '\x08' then ['\\', 'b']
  else if c = '\x0c' then ['\\', 'f']
  else if c = '\n' then ['\\', 'n']
  else if c = '\r' then ['\\', 'r']
  else if c = '\t' then ['\\', 't']
  else if c.toNat < 32 then
    ['\\', 'u', '0', '0', hexDigit (c.toNat / 16), hexDigit (c.toNat % 16)]
  else [c]

def quote (s : Text) : Text := '"' :: s.flatMap escape ++ ['"']

mutual

def print : Value → Text
  | .null => "null".toList
  | .bool true => "true".toList
  | .bool false => "false".toList
  | .num n => n.text
  | .str s => quote s
  | .arr [] => ['[', ']']
  | .arr (x :: rest) => '[' :: print x ++ printItems rest
  | .obj [] => ['\x7b', '\x7d']
  | .obj ((k, x) :: rest) => '\x7b' :: quote k ++ ':' :: print x ++ printFields rest

def printItems : List Value → Text
  | [] => [']']
  | x :: rest => ',' :: print x ++ printItems rest

/-- The fields after the first, with the closing brace. -/
def printFields : List (Text × Value) → Text
  | [] => ['\x7d']
  | (k, x) :: rest => ',' :: quote k ++ ':' :: print x ++ printFields rest

end

/-! ## Strings -/

def hexValue (c : Char) : Nat := if c.toNat < 58 then c.toNat - 48 else c.toNat - 87

def readChar : Text → Option (Char × Text)
  | '\\' :: '"' :: rest => some ('"', rest)
  | '\\' :: '\\' :: rest => some ('\\', rest)
  | '\\' :: 'b' :: rest => some ('\x08', rest)
  | '\\' :: 'f' :: rest => some ('\x0c', rest)
  | '\\' :: 'n' :: rest => some ('\n', rest)
  | '\\' :: 'r' :: rest => some ('\r', rest)
  | '\\' :: 't' :: rest => some ('\t', rest)
  | '\\' :: 'u' :: _ :: _ :: a :: b :: rest =>
    some (Char.ofNat (16 * hexValue a + hexValue b), rest)
  | '"' :: _ => none
  | c :: rest => some (c, rest)
  | [] => none

theorem hexValue_hexDigit {n : Nat} (small : n < 16) : hexValue (hexDigit n) = n := by
  have all : ∀ n < 16, hexValue (hexDigit n) = n := by decide
  exact all n small

variable {c : Char}

theorem readChar_plain (plain : c ≠ '\\') (quoted : c ≠ '"') (rest : Text) :
    readChar (c :: rest) = some (c, rest) := by
  unfold readChar
  split <;> simp_all

theorem readChar_escape (c : Char) (rest : Text) :
    readChar (escape c ++ rest) = some (c, rest) := by
  unfold escape
  iterate 7
    split
    · next same => rw [same]; rfl
  split
  · next control =>
    have high := hexValue_hexDigit (n := c.toNat / 16) (by omega)
    have low := hexValue_hexDigit (n := c.toNat % 16) (by omega)
    have whole : 16 * (c.toNat / 16) + c.toNat % 16 = c.toNat := Nat.div_add_mod _ _
    show some (Char.ofNat (16 * hexValue _ + hexValue _), rest) = _
    rw [high, low, whole, Char.ofNat_toNat]
  · next quoted plain _ _ _ _ _ _ => exact readChar_plain plain quoted rest

/-- A string's body ends at the first quotation mark that is not escaped. -/
theorem body_inj {s t u v : Text}
    (same : s.flatMap escape ++ '"' :: u = t.flatMap escape ++ '"' :: v) : s = t ∧ u = v := by
  induction s generalizing t with
  | nil =>
    cases t with
    | nil => exact ⟨rfl, tail_eq_of_cons_eq same⟩
    | cons =>
      have read := congrArg readChar same
      rw [flatMap_cons, append_assoc, readChar_escape] at read
      cases read
  | cons c s ih =>
    cases t with
    | nil =>
      have read := congrArg readChar same
      rw [flatMap_cons, append_assoc, readChar_escape] at read
      cases read
    | cons =>
      have read := congrArg readChar same
      rw [flatMap_cons, flatMap_cons, append_assoc, append_assoc,
        readChar_escape, readChar_escape] at read
      obtain ⟨head, tail⟩ := Prod.mk.inj (Option.some.inj read)
      obtain ⟨rest, after⟩ := ih tail
      exact ⟨by rw [head, rest], after⟩

theorem quote_inj {s t u v : Text} (same : quote s ++ u = quote t ++ v) : s = t ∧ u = v := by
  simp only [quote, cons_append, append_assoc, nil_append] at same
  exact body_inj (tail_eq_of_cons_eq same)

/-! ## Numbers -/

/-- What follows does not go on with a number. -/
def Stops (rest : Text) : Prop := ∀ c ∈ rest.head?, isNumberChar c = false

theorem stops_cons (other : isNumberChar c = false) (rest : Text) : Stops (c :: rest) := by
  intro d mem
  cases mem
  exact other

theorem number_inj {s t u v : Text} (first : ∀ c ∈ s, isNumberChar c = true)
    (second : ∀ c ∈ t, isNumberChar c = true) (endU : Stops u) (endV : Stops v)
    (same : s ++ u = t ++ v) : s = t ∧ u = v := by
  have cut {s u : Text} (all : ∀ c ∈ s, isNumberChar c = true) (ends : Stops u) :
      (s ++ u).takeWhile isNumberChar = s := by
    rw [takeWhile_append_of_pos all]
    cases u with
    | nil => simp
    | cons c u => simp [ends c rfl]
  obtain rfl : s = t := by rw [← cut first endU, same, cut second endV]
  exact ⟨rfl, append_cancel_left same⟩

/-! ## Values -/

inductive Kind
  | null
  | bool
  | num
  | str
  | arr
  | obj
deriving DecidableEq

def kind : Value → Kind
  | .null => .null
  | .bool _ => .bool
  | .num _ => .num
  | .str _ => .str
  | .arr _ => .arr
  | .obj _ => .obj

/-- The first character tells the kind of the value. -/
def kindOf (c : Char) : Option Kind :=
  if c = 'n' then some .null
  else if c = 't' ∨ c = 'f' then some .bool
  else if c = '"' then some .str
  else if c = '[' then some .arr
  else if c = '\x7b' then some .obj
  else if isNumberChar c then some .num
  else none

theorem kindOf_number (number : isNumberChar c = true) : kindOf c = some .num := by
  have other : ∀ d ∈ ['n', 't', 'f', '"', '[', '\x7b'], c ≠ d := by
    rintro d mem rfl
    have none : ∀ d ∈ ['n', 't', 'f', '"', '[', '\x7b'], isNumberChar d = false := by
      simp [isNumberChar]
    rw [none c mem] at number
    cases number
  simp only [forall_mem_cons] at other
  obtain ⟨n, t, f, q, a, o, _⟩ := other
  simp [kindOf, n, t, f, q, a, o, number]

variable {v : Value}

theorem print_head (v : Value) : ∃ c rest, print v = c :: rest ∧ kindOf c = some (kind v) := by
  cases v with
  | num n =>
    obtain ⟨c, rest, text⟩ := exists_cons_of_ne_nil n.nonempty
    exact ⟨c, rest, text, kindOf_number (n.chars c (text ▸ mem_cons_self))⟩
  | null | str => exact ⟨_, _, rfl, rfl⟩
  | bool b => cases b <;> exact ⟨_, _, rfl, rfl⟩
  | arr items => cases items <;> exact ⟨_, _, rfl, rfl⟩
  | obj fields => cases fields <;> exact ⟨_, _, rfl, rfl⟩

theorem kind_eq {w : Value} {s t : Text} (same : print v ++ s = print w ++ t) :
    kind v = kind w := by
  obtain ⟨c, _, first, kindV⟩ := print_head v
  obtain ⟨d, _, second, kindW⟩ := print_head w
  rw [first, second] at same
  cases (cons.inj same).1
  exact Option.some.inj (kindV.symm.trans kindW)

theorem print_ne_close (v : Value) (s t : Text) : ']' :: s ≠ print v ++ t := by
  intro same
  obtain ⟨c, _, first, known⟩ := print_head v
  rw [first] at same
  cases (cons.inj same).1
  cases known

theorem stops_items (items : List Value) (rest : Text) : Stops (printItems items ++ rest) := by
  cases items <;> exact stops_cons (by decide) _

theorem stops_fields (fields : List (Text × Value)) (rest : Text) :
    Stops (printFields fields ++ rest) := by
  cases fields <;> exact stops_cons (by decide) _

mutual

theorem print_append_inj : ∀ (v w : Value) (s t : Text), Stops s → Stops t →
    print v ++ s = print w ++ t → v = w ∧ s = t
  | .null, w, s, t, _, _, same => by
    cases w <;> cases kind_eq same
    exact ⟨rfl, append_cancel_left same⟩
  | .bool b, w, s, t, _, _, same => by
    cases w <;> cases kind_eq same
    rename_i b'
    cases b <;> cases b' <;> simp [print] at same ⊢ <;> exact same
  | .num n, w, s, t, endS, endT, same => by
    cases w <;> cases kind_eq same
    rename_i m
    obtain ⟨text, rest⟩ := number_inj n.chars m.chars endS endT same
    cases n
    cases m
    cases text
    exact ⟨rfl, rest⟩
  | .str x, w, s, t, _, _, same => by
    cases w <;> cases kind_eq same
    obtain ⟨rfl, rest⟩ := quote_inj same
    exact ⟨rfl, rest⟩
  | .arr [], w, s, t, _, _, same => by
    cases w <;> cases kind_eq same
    rename_i ys
    cases ys with
    | nil => exact ⟨rfl, append_cancel_left same⟩
    | cons y =>
      simp only [print, cons_append, append_assoc, cons.injEq, true_and] at same
      exact absurd same (print_ne_close y _ _)
  | .arr (x :: xs), w, s, t, _, _, same => by
    cases w <;> cases kind_eq same
    rename_i ys
    cases ys with
    | nil =>
      simp only [print, cons_append, append_assoc, cons.injEq, true_and] at same
      exact absurd same.symm (print_ne_close x _ _)
    | cons y ys =>
      obtain ⟨items, rest⟩ := printItems_inj (x :: xs) (y :: ys) s t
        (congrArg (',' :: ·) (tail_eq_of_cons_eq same))
      exact ⟨by rw [items], rest⟩
  | .obj [], w, s, t, _, _, same => by
    cases w <;> cases kind_eq same
    rename_i ys
    cases ys with
    | nil => exact ⟨rfl, append_cancel_left same⟩
    | cons => simp [print, quote] at same
  | .obj ((k, x) :: xs), w, s, t, _, _, same => by
    cases w <;> cases kind_eq same
    rename_i ys
    cases ys with
    | nil => simp [print, quote] at same
    | cons y ys =>
      obtain ⟨fields, rest⟩ := printFields_inj ((k, x) :: xs) (y :: ys) s t
        (congrArg (',' :: ·) (tail_eq_of_cons_eq same))
      exact ⟨by rw [fields], rest⟩

theorem printItems_inj : ∀ (xs ys : List Value) (s t : Text),
    printItems xs ++ s = printItems ys ++ t → xs = ys ∧ s = t
  | [], ys, s, t, same => by
    cases ys with
    | nil => exact ⟨rfl, tail_eq_of_cons_eq same⟩
    | cons y ys => simp [printItems] at same
  | x :: xs, ys, s, t, same => by
    cases ys with
    | nil => simp [printItems] at same
    | cons y ys =>
      simp only [printItems, cons_append, append_assoc, cons.injEq, true_and]
        at same
      obtain ⟨rfl, rest⟩ := print_append_inj x y _ _ (stops_items xs s) (stops_items ys t) same
      obtain ⟨rfl, after⟩ := printItems_inj xs ys s t rest
      exact ⟨rfl, after⟩

theorem printFields_inj : ∀ (xs ys : List (Text × Value)) (s t : Text),
    printFields xs ++ s = printFields ys ++ t → xs = ys ∧ s = t
  | [], ys, s, t, same => by
    cases ys with
    | nil => exact ⟨rfl, tail_eq_of_cons_eq same⟩
    | cons y ys => simp [printFields] at same
  | (k, x) :: xs, ys, s, t, same => by
    cases ys with
    | nil => simp [printFields] at same
    | cons y ys =>
      obtain ⟨l, y⟩ := y
      simp only [printFields, cons_append, append_assoc, cons.injEq, true_and]
        at same
      obtain ⟨rfl, value⟩ := quote_inj same
      have value := tail_eq_of_cons_eq value
      obtain ⟨rfl, rest⟩ := print_append_inj x y _ _ (stops_fields xs s) (stops_fields ys t) value
      obtain ⟨rfl, after⟩ := printFields_inj xs ys s t rest
      exact ⟨rfl, after⟩

end

theorem print_injective : Function.Injective print := by
  intro v w same
  have whole : print v ++ [] = print w ++ [] := by rw [same]
  exact (print_append_inj v w [] [] nofun nofun whole).1

/-! ## Numbers and objects of a record -/

def Number.ofNat (n : Nat) : Number where
  text := Nat.toDigits 10 n
  nonempty := Nat.toDigits_ne_nil
  chars c mem := by simp [isNumberChar, Nat.isDigit_of_mem_toDigits (by decide) (by decide) mem]

theorem Number.ofNat_injective : Function.Injective Number.ofNat := by
  intro n m same
  have text := congrArg Number.text same
  have value := congrArg (Nat.ofDigitChars 10 · 0) text
  simpa [Number.ofNat, Nat.ofDigitChars_ten_toDigits] using value

def present (fields : List (Text × Option Value)) : List (Text × Value) :=
  fields.filterMap fun field => field.2.map (field.1, ·)

theorem mem_present {fields : List (Text × Option Value)} {k : Text} :
    (k, v) ∈ present fields ↔ (k, some v) ∈ fields := by
  simp only [present, mem_filterMap, Option.map_eq_some_iff, Prod.mk.injEq]
  constructor
  · rintro ⟨⟨_, o⟩, mem, _, rfl, rfl, rfl⟩
    exact mem
  · exact fun mem => ⟨(k, some v), mem, v, rfl, rfl, rfl⟩

theorem present_injective {xs ys : List (Text × Option Value)}
    (names : xs.map Prod.fst = ys.map Prod.fst) (once : (xs.map Prod.fst).Nodup)
    (same : present xs = present ys) : xs = ys := by
  induction xs generalizing ys with
  | nil => exact (map_eq_nil_iff.mp names.symm).symm
  | cons x xs ih =>
    obtain ⟨k, o⟩ := x
    cases ys with
    | nil => cases names
    | cons y ys =>
      obtain ⟨l, p⟩ := y
      simp only [map_cons, cons.injEq, nodup_cons] at names once
      obtain ⟨rfl, names⟩ := names
      obtain ⟨fresh, once⟩ := once
      have freshY : k ∉ ys.map Prod.fst := by rwa [← names]
      have absent : ∀ (zs : List (Text × Option Value)) (v : Value), k ∉ zs.map Prod.fst →
          (k, v) ∉ present zs :=
        fun zs v fresh mem => fresh (mem_map.mpr ⟨(k, some v), mem_present.mp mem, rfl⟩)
      cases o with
      | none =>
        cases p with
        | none => rw [ih names once same]
        | some w =>
          have here : (k, w) ∈ present xs := by
            rw [show present xs = present ((k, some w) :: ys) from same]
            exact mem_present.mpr mem_cons_self
          exact absurd here (absent xs w fresh)
      | some v =>
        cases p with
        | none =>
          have here : (k, v) ∈ present ys := by
            rw [show present ys = present ((k, some v) :: xs) from same.symm]
            exact mem_present.mpr mem_cons_self
          exact absurd here (absent ys v freshY)
        | some w =>
          have cons : (k, v) :: present xs = (k, w) :: present ys := same
          obtain ⟨head, tail⟩ := List.cons.inj cons
          cases head
          rw [ih names once tail]

end Json
