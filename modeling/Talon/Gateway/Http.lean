import Talon.Lib.Utf8
import Talon.Lib.Percent

/-!
# The HTTP requests the gateway reads

A request as the adapter and the authenticator see it: method, raw path, raw query, and headers
under lower-case names, in the order in which values of one name arrived.
-/

set_option autoImplicit false

namespace Talon.Gateway

open Wire (Bytes)
open Text (ascii)

def isTokenByte (b : UInt8) : Bool :=
  Text.isDigit b || Text.isLower b || Text.isUpper b || b ∈ ascii "!#$%&'*+-.^_`|~"

structure Method where
  text : Bytes
  token : text.all isTokenByte = true
deriving DecidableEq

namespace Method

def get : Method := ⟨ascii "GET", by decide⟩

def head : Method := ⟨ascii "HEAD", by decide⟩

def put : Method := ⟨ascii "PUT", by decide⟩

def post : Method := ⟨ascii "POST", by decide⟩

def delete : Method := ⟨ascii "DELETE", by decide⟩

def options : Method := ⟨ascii "OPTIONS", by decide⟩

theorem ext_text {a b : Method} (h : a.text = b.text) : a = b := by
  cases a
  cases b
  cases h
  rfl

theorem newline_notMem (m : Method) : 10 ∉ m.text := by
  intro mem
  have token := List.all_eq_true.mp m.token 10 mem
  revert token
  decide

end Method

abbrev Headers := List (Bytes × Bytes)

def headerValues (headers : Headers) (name : Bytes) : List Bytes :=
  (headers.filter (·.1 = name)).map (·.2)

def headerValue (headers : Headers) (name : Bytes) : Option Bytes :=
    (headerValues headers name).head?

def containsHeader (headers : Headers) (name : Bytes) : Bool := headers.any (·.1 = name)

/-- `HeaderValue::to_str`: visible ASCII and the tab. -/
def HeaderValue.toStr (value : Bytes) : Option Bytes :=
  if value.all (fun b => b = 9 ∨ 32 ≤ b ∧ b < 127) then some value else none

theorem HeaderValue.toStr_some {value text : Bytes} (h : toStr value = some text) :
    text = value := by
  unfold toStr at h
  split_ifs at h
  exact (Option.some.inj h).symm

/-- What the gateway takes from its libraries: the pairs of a form-encoded query, the bytes behind a
percent-encoded text, and the text of a header value. -/
structure Readers where
  formPairs : Bytes → List (Bytes × Bytes)
  percentDecode : Bytes → Bytes
  toStr : Bytes → Option Bytes
  toStr_some : ∀ {value text : Bytes}, toStr value = some text → text = value

structure Request where
  method : Method
  path : Bytes
  query : Option Bytes
  headers : Headers

end Talon.Gateway
