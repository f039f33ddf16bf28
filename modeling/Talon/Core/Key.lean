import Mathlib.Algebra.Order.Ring.Nat
import Mathlib.Data.List.Basic

/-!
# Object identities and their namespace paths

The identity of a source object, its rendering as `/<prefix>/<bucket>/<object_path>`, and the blocks
of its versions.
-/

set_option autoImplicit false

namespace Talon.Core

/-- A Rust `String` as its Unicode scalar values. -/
abbrev Str := List Char

instance instLawfulBEqStr : LawfulBEq Str := inferInstance

/-- `char::is_whitespace`, the Unicode property `White_Space`. -/
def isWhitespace (c : Char) : Bool :=
  (9 ≤ c.toNat && c.toNat ≤ 13) || (8192 ≤ c.toNat && c.toNat ≤ 8202) ||
    c.toNat ∈ [32, 133, 160, 5760, 8232, 8233, 8239, 8287, 12288]

/-- `trim().is_empty()`. -/
def isBlank (s : Str) : Bool := s.all isWhitespace

inductive Backend
  | s3
  | gcs
  | azure
deriving DecidableEq

def Backend.pathPrefix : Backend → Str
  | .s3 => "s3".toList
  | .gcs => "gcs".toList
  | .azure => "az".toList

structure ObjectId where
  backend : Backend
  bucket : Str
  objectPath : Str
deriving DecidableEq

/-- A block of one version of an object: `offset` is a `u64`, `blockSize` a `u32`. -/
structure BlockId where
  object : ObjectId
  offset : Nat
  blockSize : Nat
  version : Str
deriving DecidableEq

def sampleObject : ObjectId := ⟨.s3, ['b'], ['o']⟩

def sampleBlock (offset : Nat) (version : Char) : BlockId := ⟨sampleObject, offset, 8, [version]⟩

def maxExactReadLen : Nat := 1 <<< 20

def ObjectId.toPath (o : ObjectId) : Str :=
  '/' :: (o.backend.pathPrefix ++ '/' :: (o.bucket ++ '/' :: o.objectPath))

end Talon.Core
