import Mathlib.Algebra.Order.Ring.Nat
import Mathlib.Data.List.Basic

/-!
# Bytes of fixed-width numbers and of text

A natural number as `w` bytes, least significant first, a reader that takes such a number from the
front of an input, and the UTF-8 bytes of a text.
-/

set_option autoImplicit false

namespace Wire

open List Option

abbrev Bytes := List UInt8

instance instLawfulBEqBytes : LawfulBEq Bytes := inferInstance

/-- An `io::Result`; the error is its message. -/
abbrev Result := Except String

@[simp]
theorem ok_bind {α β : Type} (a : α) (f : α → Result β) : ((.ok a : Result α) >>= f) = f a := rfl

/-- The `w` bytes of `n`, least significant first; what is above them is dropped. -/
def leBytes : Nat → Nat → Bytes
  | 0, _ => []
  | w + 1, n => UInt8.ofNat n :: leBytes w (n / 256)

def ofLe : Bytes → Nat
  | [] => 0
  | b :: bs => b.toNat + 256 * ofLe bs

@[simp]
theorem length_leBytes (w n : Nat) : (leBytes w n).length = w := by
  induction w generalizing n with
  | zero => rfl
  | succ w ih => rw [leBytes, length_cons, ih]

theorem ofLe_leBytes {w n : Nat} (h : n < 256 ^ w) : ofLe (leBytes w n) = n := by
  induction w generalizing n with
  | zero =>
    simp only [Nat.pow_zero, Nat.lt_one_iff] at h
    rw [h]
    rfl
  | succ w ih =>
    have below : n / 256 < 256 ^ w := by
      rw [Nat.pow_succ] at h
      exact Nat.div_lt_of_lt_mul (by omega)
    rw [leBytes, ofLe, ih below, UInt8.toNat_ofNat']
    omega

theorem ofLe_lt (b : Bytes) : ofLe b < 256 ^ b.length := by
  induction b with
  | nil => exact Nat.one_pos
  | cons x =>
    have byte : x.toNat < 256 := x.toNat_lt
    rw [ofLe, length_cons, Nat.pow_succ]
    omega

theorem leBytes_ofLe (b : Bytes) : leBytes b.length (ofLe b) = b := by
  induction b with
  | nil => rfl
  | cons x bs ih =>
    have byte : x.toNat < 256 := x.toNat_lt
    have rest : (x.toNat + 256 * ofLe bs) / 256 = ofLe bs := by omega
    have low : UInt8.ofNat (x.toNat + 256 * ofLe bs) = x := by
      apply UInt8.toNat_inj.mp
      rw [UInt8.toNat_ofNat']
      omega
    rw [length_cons, leBytes, ofLe, rest, low, ih]

def readExact (w : Nat) (b : Bytes) : Option (Bytes × Bytes) :=
  if w ≤ b.length then some (b.take w, b.drop w) else none

def readLe (w : Nat) (b : Bytes) : Option (Nat × Bytes) :=
  (readExact w b).map fun r => (ofLe r.1, r.2)

theorem readExact_append {w : Nat} {a : Bytes} (h : a.length = w) (rest : Bytes) :
    readExact w (a ++ rest) = some (a, rest) := by
  subst h
  have long : a.length ≤ (a ++ rest).length := by simp
  rw [readExact, if_pos long, take_left, drop_left]

theorem readLe_append {w n : Nat} (h : n < 256 ^ w) (rest : Bytes) :
    readLe w (leBytes w n ++ rest) = some (n, rest) := by
  rw [readLe, readExact_append (length_leBytes w n), map_some, ofLe_leBytes h]

theorem readLe_some {w n : Nat} {b rest : Bytes} (h : readLe w b = some (n, rest)) :
    b = leBytes w n ++ rest ∧ n < 256 ^ w := by
  unfold readLe readExact at h
  split at h
  · rename_i long
    simp only [map_some, some.injEq, Prod.mk.injEq] at h
    obtain ⟨value, tail⟩ := h
    have width : (b.take w).length = w := by simp [long]
    have bytes := leBytes_ofLe (b.take w)
    have bound := ofLe_lt (b.take w)
    rw [width, value] at bytes
    rw [width, value] at bound
    rw [bytes, ← tail, take_append_drop]
    exact ⟨rfl, bound⟩
  · cases h

def utf8 (s : List Char) : Bytes := s.flatMap String.utf8EncodeChar

def ofUtf8 (b : Bytes) : Option (List Char) := b.toByteArray.utf8Decode?.map Array.toList

@[simp]
theorem ofUtf8_utf8 (s : List Char) : ofUtf8 (utf8 s) = some s := by
  have decoded := utf8Decode?_utf8Encode (l := s)
  unfold utf8Encode at decoded
  rw [ofUtf8, utf8, decoded]
  rfl

theorem utf8_of_ofUtf8 {b : Bytes} {s : List Char} (h : ofUtf8 b = some s) : utf8 s = b := by
  obtain ⟨_, decoded, rfl⟩ := map_eq_some_iff.mp h
  have some_ : b.toByteArray.utf8Decode?.isSome = true := by rw [decoded]; rfl
  have encoded := ByteArray.utf8Encode_get_utf8Decode? (b := b.toByteArray) (h := some_)
  simp only [decoded, get_some] at encoded
  unfold utf8Encode at encoded
  have bytes := congrArg (fun a : ByteArray => a.data.toList) encoded
  simpa [utf8] using bytes

end Wire
