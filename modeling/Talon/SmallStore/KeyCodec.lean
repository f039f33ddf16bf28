import Talon.SmallStore.Key

/-!
# The in-memory encoding of identities

`small_store/key_codec.rs`: the strings come first, with zero bytes escaped and two zero bytes at
the end, so that the keys of one bucket and directory share a prefix; a version that is lowercase
hexadecimal is packed.  `decode_encode` says that nothing is lost.
-/

set_option autoImplicit false

namespace Talon.SmallStore.KeyCodec

open Talon.Core Wire

def field : Bytes → Bytes
  | [] => [0, 0]
  | b :: bs => if b = 0 then 0 :: 255 :: field bs else b :: field bs

/-- The bytes up to the terminator, and what follows it.  `none` is the index out of bounds that
a zero byte at the end of the input would be. -/
def unfieldBytes : Bytes → Option (Bytes × Bytes)
  | [] => some ([], [])
  | [b] => if b = 0 then none else some ([b], [])
  | b :: tag :: rest =>
    if b = 0 then
      if tag = 0 then some ([], rest)
      else (unfieldBytes rest).map fun r => (b :: r.1, r.2)
    else (unfieldBytes (tag :: rest)).map fun r => (b :: r.1, r.2)

def unfield (input : Bytes) : Option (Str × Bytes) := do
  let (out, rest) ← unfieldBytes input
  let s ← ofUtf8 out
  return (s, rest)

def isHexDigit (b : UInt8) : Bool := (48 ≤ b && b ≤ 57) || (97 ≤ b && b ≤ 102)

def digit (b : UInt8) : Nat := if b ≤ 57 then b.toNat - 48 else b.toNat - 97 + 10

def packHex : Bytes → Bytes
  | a :: b :: rest => UInt8.ofNat (digit a * 16 + digit b) :: packHex rest
  | _ => []

def hexDigit (n : Nat) : UInt8 := UInt8.ofNat (if n < 10 then 48 + n else 97 + (n - 10))

def unpackHex (bs : Bytes) : Bytes :=
  bs.flatMap fun b => [hexDigit (b.toNat / 16), hexDigit (b.toNat % 16)]

def isHex (version : Bytes) : Bool := version.length % 2 == 0 && version.all isHexDigit

def encodeTag (backend : Backend) (exact offset hex : Bool) : UInt8 :=
  backendTag backend ||| (if exact then 0x80 else 0) ||| (if offset then 0x40 else 0) |||
    (if hex then 0x20 else 0)

def encodeOffset (offset : Nat) : Bytes := if offset ≠ 0 then leBytes 8 offset else []

def encodeVersion (version : Bytes) : Bytes :=
  if isHex version then packHex version else version

def encode (id : SmallKey) : Bytes :=
  let version := utf8 id.block.version
  field (utf8 id.block.object.bucket) ++ field (utf8 id.block.object.objectPath) ++
    encodeTag id.block.object.backend (id.kind = .exactRange) (id.block.offset ≠ 0)
      (isHex version) ::
    (leBytes 4 id.block.blockSize ++ (encodeOffset id.block.offset ++ encodeVersion version))

def decodeBackend (tag : UInt8) : Option Backend :=
  match tag &&& 0x1f with
  | 0 => some .s3
  | 1 => some .gcs
  | 2 => some .azure
  | _ => none

def decodeOffset (tag : UInt8) (input : Bytes) : Option (Nat × Bytes) :=
  if tag &&& 0x40 ≠ 0 then readLe 8 input else some (0, input)

def decodeVersion (tag : UInt8) (input : Bytes) : Option Str :=
  ofUtf8 (if tag &&& 0x20 ≠ 0 then unpackHex input else input)

/-- `none` is a panic of the source: an index out of bounds or bytes that are not UTF-8. -/
def decode (input : Bytes) : Option SmallKey := do
  let (bucket, input) ← unfield input
  let (path, input) ← unfield input
  match input with
  | [] => none
  | tag :: input =>
    let backend ← decodeBackend tag
    let (blockSize, input) ← readLe 4 input
    let (offset, input) ← decodeOffset tag input
    let version ← decodeVersion tag input
    return ⟨⟨⟨backend, bucket, path⟩, offset, blockSize, version⟩,
      if tag &&& 0x80 ≠ 0 then .exactRange else .whole⟩

theorem unfieldBytes_field (b rest : Bytes) : unfieldBytes (field b ++ rest) = some (b, rest) := by
  induction b with
  | nil => rfl
  | cons x bs ih =>
    by_cases zero : x = 0
    · have escaped : field (x :: bs) ++ rest = 0 :: 255 :: (field bs ++ rest) := by
        rw [field, if_pos zero]
        rfl
      rw [escaped, unfieldBytes, if_pos rfl, if_neg (by decide), ih, zero]
      rfl
    · have plain : field (x :: bs) ++ rest = x :: (field bs ++ rest) := by
        rw [field, if_neg zero]
        rfl
      rw [plain]
      cases more : field bs ++ rest with
      | nil =>
        cases bs with
        | nil => cases more
        | cons =>
          rw [field] at more
          split at more <;> cases more
      | cons =>
        rw [more] at ih
        rw [unfieldBytes, if_neg zero, ih]
        rfl

@[simp]
theorem unfield_field (s : Str) (rest : Bytes) :
    unfield (field (utf8 s) ++ rest) = some (s, rest) := by
  unfold unfield
  rw [unfieldBytes_field]
  simp

set_option maxRecDepth 2000 in
theorem hexDigits : ∀ n : Fin 256, isHexDigit (UInt8.ofNat n) = true →
    digit (UInt8.ofNat n) < 16 ∧ hexDigit (digit (UInt8.ofNat n)) = UInt8.ofNat n := by
  decide

theorem digit_spec {b : UInt8} (h : isHexDigit b = true) :
    digit b < 16 ∧ hexDigit (digit b) = b := by
  have all := hexDigits ⟨b.toNat, b.toNat_lt⟩
  rw [UInt8.ofNat_toNat] at all
  exact all h

theorem unpackHex_packHex (v : Bytes) (even : v.length % 2 = 0) (digits : v.all isHexDigit) :
    unpackHex (packHex v) = v := by
  match v, even, digits with
  | [], _, _ => rfl
  | a :: b :: rest, even, digits =>
    simp only [List.all_cons, Bool.and_eq_true] at digits
    obtain ⟨ha, hb, more⟩ := digits
    obtain ⟨_, da⟩ := digit_spec ha
    obtain ⟨_, db⟩ := digit_spec hb
    have byte : (UInt8.ofNat (digit a * 16 + digit b)).toNat = digit a * 16 + digit b := by
      rw [UInt8.toNat_ofNat']
      omega
    have high : (digit a * 16 + digit b) / 16 = digit a := by omega
    have low : (digit a * 16 + digit b) % 16 = digit b := by omega
    have tail := unpackHex_packHex rest (by rw [List.length_cons, List.length_cons] at even; omega)
      more
    rw [packHex, unpackHex, List.flatMap_cons, byte, high, low, da, db]
    change a :: b :: unpackHex (packHex rest) = _
    rw [tail]

section Tag

variable (backend : Backend) (exact offset hex : Bool)

theorem decodeBackend_tag : decodeBackend (encodeTag backend exact offset hex) = some backend := by
  cases backend <;> cases exact <;> cases offset <;> cases hex <;> rfl

theorem tag_exact_bit : encodeTag backend exact offset hex &&& 0x80 ≠ 0 ↔ exact = true := by
  cases backend <;> cases exact <;> cases offset <;> cases hex <;> decide

theorem tag_offset_bit : encodeTag backend exact offset hex &&& 0x40 ≠ 0 ↔ offset = true := by
  cases backend <;> cases exact <;> cases offset <;> cases hex <;> decide

theorem tag_hex_bit : encodeTag backend exact offset hex &&& 0x20 ≠ 0 ↔ hex = true := by
  cases backend <;> cases exact <;> cases offset <;> cases hex <;> decide

theorem decodeOffset_encodeOffset {n : Nat} (h : n < 2 ^ 64) (rest : Bytes) :
    decodeOffset (encodeTag backend exact (n ≠ 0) hex) (encodeOffset n ++ rest) =
      some (n, rest) := by
  unfold decodeOffset encodeOffset
  by_cases zero : n = 0
  · rw [if_neg (by rw [tag_offset_bit]; simp [zero]), if_neg (by simp [zero]), zero]
    rfl
  · rw [if_pos (by rw [tag_offset_bit]; simp [zero]), if_pos zero]
    exact readLe_append h rest

theorem decodeVersion_encodeVersion (version : Str) :
    decodeVersion (encodeTag backend exact offset (isHex (utf8 version)))
      (encodeVersion (utf8 version)) = some version := by
  unfold decodeVersion encodeVersion
  by_cases packed : isHex (utf8 version) = true
  · rw [if_pos ((tag_hex_bit ..).mpr packed), if_pos packed]
    simp only [isHex, Bool.and_eq_true, beq_iff_eq] at packed
    rw [unpackHex_packHex _ packed.1 packed.2, ofUtf8_utf8]
  · rw [if_neg fun bit => packed ((tag_hex_bit ..).mp bit), if_neg packed, ofUtf8_utf8]

end Tag

theorem decode_encode {id : SmallKey} (fits : id.Fits) (kind : ∀ i, id.kind ≠ .page i) :
    decode (encode id) = some id := by
  have size : id.block.blockSize < 256 ^ 4 := fits.blockSize
  unfold decode encode
  simp only [List.append_assoc, unfield_field, Option.bind_eq_bind, Option.bind_some,
    decodeBackend_tag, readLe_append size,
    decodeOffset_encodeOffset _ _ _ fits.offset, decodeVersion_encodeVersion]
  obtain ⟨_, k⟩ := id
  cases k with
  | page i => exact absurd rfl (kind i)
  | whole | exactRange => simp [tag_exact_bit]

end Talon.SmallStore.KeyCodec
