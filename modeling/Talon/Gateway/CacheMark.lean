import Talon.Lib.Text

/-!
# The client's cache mark

A header whose fields say whether the cache may be read, filled and bypassed.  Of the eight
combinations five have a meaning; the others are refused.
-/

set_option autoImplicit false

namespace Talon.Gateway

open Wire (Bytes)
open Text (ascii)

def s3CacheMarkHeader : Bytes := ascii "x-talon-cache-mark"

inductive CacheLookup
  | on
  | off
deriving DecidableEq

inductive CachePopulation
  | on
  | off
deriving DecidableEq

inductive CacheFallback
  | origin
  | fail
deriving DecidableEq

structure EffectiveDecision where
  lookup : CacheLookup
  population : CachePopulation
  fallback : CacheFallback
deriving DecidableEq

inductive CacheMarkError
  | empty
  | malformedField
  | missingField
  | duplicateField
  | unknownField
  | invalidVersion
  | unsupportedVersion
  | invalidValue
  | contradictoryDecision
deriving DecidableEq

namespace EffectiveDecision

def default : EffectiveDecision := ⟨.on, .on, .origin⟩

def lookupNoFill : EffectiveDecision := ⟨.on, .off, .origin⟩

def originOnly : EffectiveDecision := ⟨.off, .off, .origin⟩

def refresh : EffectiveDecision := ⟨.off, .on, .origin⟩

def cacheOnly : EffectiveDecision := ⟨.on, .off, .fail⟩

structure Fields where
  version : Option Nat
  lookup : Option CacheLookup
  population : Option CachePopulation
  fallback : Option CacheFallback

def parseWord {α : Type} (first : String × α) (second : String × α) (value : Bytes) :
    Except CacheMarkError α :=
  if value = ascii first.1 then .ok first.2
  else if value = ascii second.1 then .ok second.2
  else .error .invalidValue

def parseVersion (value : Bytes) : Except CacheMarkError Nat :=
  match Text.parseUnsigned 32 value with
  | some version => .ok version
  | none => .error .invalidVersion

def setOnce {α : Type} (slot : Option α) (value : α) : Except CacheMarkError (Option α) :=
  if slot.isSome then .error .duplicateField else .ok (some value)

def setField (fields : Fields) (name value : Bytes) : Except CacheMarkError Fields :=
  if name = ascii "v" then do
    let version ← setOnce fields.version (← parseVersion value)
    .ok { fields with version }
  else if name = ascii "lookup" then do
    let lookup ← setOnce fields.lookup (← parseWord ("on", .on) ("off", .off) value)
    .ok { fields with lookup }
  else if name = ascii "populate" then do
    let population ← setOnce fields.population (← parseWord ("on", .on) ("off", .off) value)
    .ok { fields with population }
  else if name = ascii "fallback" then do
    let fallback ← setOnce fields.fallback (← parseWord ("origin", .origin) ("fail", .fail) value)
    .ok { fields with fallback }
  else .error .unknownField

def parseField (fields : Fields) (field : Bytes) : Except CacheMarkError Fields :=
  if Text.trim field = [] then .error .malformedField
  else
    match Text.cut 61 (Text.trim field) with
    | none => .error .malformedField
    | some (name, value) =>
      if Text.trim name = [] ∨ Text.trim value = [] ∨ (Text.trim value).contains 61 then
        .error .malformedField
      else setField fields (Text.trim name) (Text.trim value)

def required {α : Type} : Option α → Except CacheMarkError α
  | some value => .ok value
  | none => .error .missingField

def parse (value : Bytes) : Except CacheMarkError EffectiveDecision :=
  if value = [] then .error .empty
  else do
    let fields ← (value.splitOn 59).foldlM parseField ⟨none, none, none, none⟩
    let version ← required fields.version
    if version ≠ 1 then .error .unsupportedVersion
    else do
      let lookup ← required fields.lookup
      let population ← required fields.population
      let fallback ← required fields.fallback
      let decision : EffectiveDecision := ⟨lookup, population, fallback⟩
      if decision ∈ [default, lookupNoFill, originOnly, refresh, cacheOnly] then .ok decision
      else .error .contradictoryDecision

end EffectiveDecision

end Talon.Gateway
