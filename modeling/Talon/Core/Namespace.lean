import Talon.Core.Key

/-!
# Cache namespaces and credential scopes

The names a request may give to its cache namespace, and the names of the credential scopes within
a namespace.
-/

set_option autoImplicit false

namespace Talon.Core

def maxNamespaceIdBytes : Nat := 255

def defaultNamespace : Str := "default".toList

/-- `str::len`: the bytes of the text. -/
def byteLen (s : Str) : Nat := (s.map Char.utf8Size).sum

inductive NamespaceIdError
  | reserved
  | empty
  | tooLong (len : Nat)
  | unsafePath
deriving DecidableEq

def NamespaceIdError.text : NamespaceIdError → Str
  | .reserved => "namespace name is reserved for worker metadata".toList
  | .empty => "namespace name is empty".toList
  | .tooLong len => "namespace name of ".toList ++ (toString len).toList ++
      " bytes exceeds the maximum namespace id length".toList
  | .unsafePath => ("namespace name must contain only ASCII letters, digits, '.', '_' or '-', " ++
      "and cannot be '.' or '..'").toList

/-- `is_ascii_alphanumeric`; a character outside ASCII has no such byte. -/
def isAsciiAlphanumeric (c : Char) : Bool :=
  ('0' ≤ c && c ≤ '9') || ('A' ≤ c && c ≤ 'Z') || ('a' ≤ c && c ≤ 'z')

def isNamespaceChar (c : Char) : Bool :=
  isAsciiAlphanumeric c || c == '-' || c == '_' || c == '.'

def reservedNames : List Str :=
  ["worker_identity".toList, ".worker.lock".toList, ".paged-catalog".toList]

/-- `NamespaceContext::new`. -/
def namespaceContext (name : Str) : Except NamespaceIdError Str :=
  if name = [] then .error .empty
  else if maxNamespaceIdBytes < byteLen name then .error (.tooLong (byteLen name))
  else if name ∈ reservedNames then .error .reserved
  else if name = ".".toList ∨ name = "..".toList ∨ name.all isNamespaceChar = false then
    .error .unsafePath
  else .ok name

def Accepted (name : Str) : Prop := namespaceContext name = .ok name

instance (name : Str) : Decidable (Accepted name) :=
  inferInstanceAs (Decidable (namespaceContext name = .ok name))

variable {name : Str}

theorem namespaceContext_ok {accepted : Str} (ok : namespaceContext name = .ok accepted) :
    accepted = name ∧ name ∉ reservedNames ∧ name.all isNamespaceChar = true := by
  unfold namespaceContext at ok
  split at ok
  · cases ok
  · split at ok
    · cases ok
    · split at ok
      · cases ok
      · rename_i free
        split at ok
        · cases ok
        · rename_i safe
          have chars : name.all isNamespaceChar ≠ false := fun bad => safe (.inr (.inr bad))
          exact ⟨(Except.ok.inj ok).symm, free, (Bool.not_eq_false _).mp chars⟩

theorem Accepted.chars (accepted : Accepted name) {c : Char} (mem : c ∈ name) :
    isNamespaceChar c = true :=
  List.all_eq_true.mp (namespaceContext_ok accepted).2.2 c mem

theorem Accepted.not_reserved (accepted : Accepted name) : name ∉ reservedNames :=
  (namespaceContext_ok accepted).2.1

inductive NamespaceId
  | named (name : Str)
  | unattributed
deriving DecidableEq

def NamespaceId.effectiveName : NamespaceId → Str
  | .named name => name
  | .unattributed => defaultNamespace

def isScopeDigit (c : Char) : Bool := ('0' ≤ c && c ≤ '9') || ('a' ≤ c && c ≤ 'f')

/-- `v1-` and 64 lower-case hexadecimal digits. -/
def isAccessScope (value : Str) : Bool :=
  value.take 3 == "v1-".toList && (value.drop 3).length == 64 && (value.drop 3).all isScopeDigit

/-- A credential scope carries the proof that its text parses. -/
structure AccessScope where
  value : Str
  parses : isAccessScope value = true
deriving DecidableEq

/-- `AccessScope::from_str`. -/
def AccessScope.fromStr (value : Str) : Except Str AccessScope :=
  if h : isAccessScope value = true then .ok ⟨value, h⟩
  else .error "invalid backend access scope".toList

theorem AccessScope.slash_notMem (s : AccessScope) : '/' ∉ s.value := by
  have parses := s.parses
  simp only [isAccessScope, Bool.and_eq_true, beq_iff_eq] at parses
  obtain ⟨⟨head, _⟩, digits⟩ := parses
  rw [← List.take_append_drop 3 s.value, head]
  intro mem
  obtain mem | mem := List.mem_append.mp mem
  · exact absurd mem (by decide)
  · exact absurd (List.all_eq_true.mp digits '/' mem) (by decide)

end Talon.Core
