import Talon.Lib.Wire
import Talon.Core.Key

/-!
# Small-object identities and their journal bytes

`small_store/key.rs` and `small_store/format.rs`.  An identity is a block together with the kind of
unit it caches.  `view_encodeKey` says that what `encodeKey` writes is read back as the same
identity.
-/

set_option autoImplicit false

namespace Talon.SmallStore

open Talon.Core Wire

inductive UnitKind
  | whole
  | exactRange
  | page (index : Nat)
deriving DecidableEq

structure SmallKey where
  block : BlockId
  kind : UnitKind
deriving DecidableEq

namespace SmallKey

structure Fits (k : SmallKey) : Prop where
  offset : k.block.offset < 2 ^ 64
  blockSize : k.block.blockSize < 2 ^ 32

def validExtent (k : SmallKey) (len : Nat) : Bool :=
  match k.kind with
  | .whole => decide (k.block.offset = 0 ∧ 0 < len ∧ len < k.block.blockSize)
  | .exactRange =>
    decide (0 < len ∧ len ≤ maxExactReadLen ∧ len = k.block.blockSize ∧
      k.block.offset + len < 2 ^ 64)
  | .page _ => false

end SmallKey

/-! ## The journal encoding -/

def maxKey : Nat := 64 * 1024

def keyLen (id : SmallKey) : Nat :=
  25 + (utf8 id.block.object.bucket).length + (utf8 id.block.object.objectPath).length +
    (utf8 id.block.version).length

def validateKey (id : SmallKey) : Result Unit :=
  match id.kind with
  | .page _ => .error "page is not a small-store key"
  | _ => if keyLen id > maxKey then .error "small object key too long" else .ok ()

def backendTag : Backend → UInt8
  | .s3 => 0
  | .gcs => 1
  | .azure => 2

def encodeString (s : Str) : Bytes := leBytes 4 (utf8 s).length ++ utf8 s

def encodeKey (id : SmallKey) : Result Bytes := do
  validateKey id
  let tag : UInt8 := if id.kind = .exactRange then 0x80 else 0
  return (tag ||| backendTag id.block.object.backend) :: (leBytes 8 id.block.offset ++
    leBytes 4 id.block.blockSize ++ encodeString id.block.object.bucket ++
    encodeString id.block.object.objectPath ++ encodeString id.block.version)

def fill {α : Type} : Option α → Result α
  | some a => .ok a
  | none => .error "failed to fill whole buffer"

def u32 (b : Bytes) : Result (Nat × Bytes) := fill (readLe 4 b)

def u64 (b : Bytes) : Result (Nat × Bytes) := fill (readLe 8 b)

def viewString (b : Bytes) : Result (Str × Bytes) := do
  let (len, b) ← u32 b
  if len > b.length then .error "small object key length"
  else match ofUtf8 (b.take len) with
    | none => .error "small object key UTF-8"
    | some s => .ok (s, b.drop len)

def viewBackend (tag : UInt8) : Result Backend :=
  match tag &&& 0x7f with
  | 0 => .ok .s3
  | 1 => .ok .gcs
  | 2 => .ok .azure
  | _ => .error "small object backend"

def view (bytes : Bytes) : Result SmallKey :=
  if bytes.length > maxKey then .error "small object key too long"
  else match bytes with
    | [] => .error "failed to fill whole buffer"
    | tag :: b => do
      let backend ← viewBackend tag
      let (offset, b) ← u64 b
      let (size, b) ← u32 b
      let (bucket, b) ← viewString b
      let (path, b) ← viewString b
      let (version, b) ← viewString b
      if b.isEmpty then
        .ok ⟨⟨⟨backend, bucket, path⟩, offset, size, version⟩,
          if tag &&& 0x80 ≠ 0 then .exactRange else .whole⟩
      else .error "small object key trailing bytes"

variable {id : SmallKey}

section RoundTrip

@[simp]
theorem u32_leBytes {n : Nat} (h : n < 2 ^ 32) (rest : Bytes) :
    u32 (leBytes 4 n ++ rest) = .ok (n, rest) := by
  rw [u32, readLe_append (by omega)]
  rfl

@[simp]
theorem u64_leBytes {n : Nat} (h : n < 2 ^ 64) (rest : Bytes) :
    u64 (leBytes 8 n ++ rest) = .ok (n, rest) := by
  rw [u64, readLe_append (by omega)]
  rfl

theorem viewString_encodeString {s : Str} (h : (utf8 s).length < 2 ^ 32) (rest : Bytes) :
    viewString (encodeString s ++ rest) = .ok (s, rest) := by
  unfold viewString encodeString
  rw [List.append_assoc, u32_leBytes h]
  simp

theorem viewBackend_tag (b : Backend) (exact : Bool) :
    viewBackend ((if exact then 0x80 else 0) ||| backendTag b) = .ok b := by
  cases b <;> cases exact <;> rfl

theorem tag_exact (b : Backend) (exact : Bool) :
    ((if exact then 0x80 else 0) ||| backendTag b) &&& 0x80 ≠ 0 ↔ exact = true := by
  cases b <;> cases exact <;> decide

theorem validateKey_ok (h : validateKey id = .ok ()) :
    (∀ i, id.kind ≠ .page i) ∧ keyLen id ≤ maxKey := by
  unfold validateKey at h
  cases kind : id.kind with
  | page =>
    rw [kind] at h
    cases h
  | whole | exactRange =>
    simp only [kind] at h
    split at h
    · cases h
    · exact ⟨by simp, by omega⟩

theorem length_encodeString (s : Str) : (encodeString s).length = 4 + (utf8 s).length := by
  simp [encodeString]

theorem encodeKey_ok (valid : validateKey id = .ok ()) :
    ∃ b, encodeKey id = .ok b ∧ b.length = keyLen id := by
  refine ⟨_, by rw [encodeKey, valid]; rfl, ?_⟩
  simp only [List.length_cons, List.length_append, length_leBytes, length_encodeString, keyLen]
  omega

theorem view_encodeKey (fits : id.Fits) {b : Bytes} (h : encodeKey id = .ok b) :
    view b = .ok id := by
  cases valid : validateKey id with
  | error =>
    rw [encodeKey, valid] at h
    cases h
  | ok =>
    obtain ⟨kind, short⟩ := validateKey_ok valid
    obtain ⟨_, same, length⟩ := encodeKey_ok valid
    rw [h] at same
    cases same
    have bounded : ¬ b.length > maxKey := by omega
    unfold keyLen maxKey at short
    unfold view
    rw [if_neg bounded]
    rw [encodeKey, valid] at h
    cases h
    have tag := viewBackend_tag id.block.object.backend (decide (id.kind = .exactRange))
    have exact := tag_exact id.block.object.backend (decide (id.kind = .exactRange))
    simp only [decide_eq_true_eq] at tag exact
    simp only [tag, exact, ok_bind, List.append_assoc, u64_leBytes fits.offset,
      u32_leBytes fits.blockSize]
    rw [viewString_encodeString (by omega), ok_bind, viewString_encodeString (by omega), ok_bind]
    rw [← List.append_nil (encodeString id.block.version), viewString_encodeString (by omega)]
    obtain ⟨_, k⟩ := id
    cases k with
    | page i => exact absurd rfl (kind i)
    | whole | exactRange => rfl

end RoundTrip

end Talon.SmallStore
