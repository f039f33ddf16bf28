import Talon.Lib.Fallible

/-!
# The in-process metadata store

Records of hard links, preconditions and operations on them, and the transaction that checks all
its preconditions against one state and then applies all its operations.  A namespace that was
never written is the default one.  Revision counters are unbounded: `MappingRevision::next` panics
before it wraps.
-/

set_option autoImplicit false

namespace Talon.Metadata

open Fallible

structure NamespaceId where
  name : String
  nonempty : name ≠ ""
deriving DecidableEq

@[ext]
structure InodeNumber where
  value : Nat
  nonzero : value ≠ 0
deriving DecidableEq

structure LinkCount where
  value : Nat
  multiple : 2 ≤ value
deriving DecidableEq

namespace LinkCount

def promoted : LinkCount := ⟨2, Nat.le_refl 2⟩

/-- Panics when the count does not fit a `u64`. -/
def increment (c : LinkCount) : Option LinkCount :=
  if c.value + 1 < 2 ^ 64 then some ⟨c.value + 1, Nat.le_succ_of_le c.multiple⟩ else none

/-- Nothing when one link would be left. -/
def decrement (c : LinkCount) : Option LinkCount :=
  if h : 2 ≤ c.value - 1 then some ⟨c.value - 1, h⟩ else none

end LinkCount

structure InodeRecord where
  ns : NamespaceId
  inode : InodeNumber
  link_count : LinkCount
  corrupt : Bool
deriving DecidableEq

structure PathIndexEntry where
  ns : NamespaceId
  path : String
  inode : InodeNumber
deriving DecidableEq

inductive LinkTransitionState where
  | preparing
  | committed
  | aborted
deriving DecidableEq

structure LinkTransition where
  ns : NamespaceId
  operation_id : String
  state : LinkTransitionState
  source_path : String
  new_path : String
  source_version : String
  expected_mapping_revision : Nat
  inode : InodeNumber
  operation_worker : String
  operation_worker_incarnation : String
deriving DecidableEq

inductive MetadataError where
  | capabilityUnsupported
  | compareAndSwapFailed (expected observed : Nat)
  | invalidRecord (detail : String)
  | notFound (key : String)
  | alreadyExists (key : String)
deriving DecidableEq

abbrev MetadataResult := Except MetadataError

inductive Precondition where
  | mappingRevisionIs (ns : NamespaceId) (expected : Nat)
  | pathIsUnmapped (ns : NamespaceId) (path : String)
  | pathResolvesTo (ns : NamespaceId) (path : String) (inode : InodeNumber)
  | transitionExists (ns : NamespaceId) (operation_id : String)
  | transitionAbsent (ns : NamespaceId) (operation_id : String)
deriving DecidableEq

inductive Operation where
  | putPathIndex (entry : PathIndexEntry)
  | removePathIndex (ns : NamespaceId) (path : String)
  | putInode (record : InodeRecord)
  | removeInode (ns : NamespaceId) (inode : InodeNumber)
  | putTransition (transition : LinkTransition)
  | removeTransition (ns : NamespaceId) (operation_id : String)
  | advanceMappingRevision (ns : NamespaceId)
deriving DecidableEq

structure Transaction where
  preconditions : List Precondition
  operations : List Operation
deriving DecidableEq

structure TransactionOutcome where
  revision : Nat
  mapping_revision : Option Nat
deriving DecidableEq

structure NamespaceState where
  mapping_revision : Nat
  paths : String → Option InodeNumber
  inodes : Nat → Option InodeRecord
  transitions : String → Option LinkTransition

def NamespaceState.default : NamespaceState := ⟨0, fun _ => none, fun _ => none, fun _ => none⟩

structure State where
  namespaces : NamespaceId → NamespaceState
  revision : Nat

variable {ns : NamespaceId}

namespace State

def empty : State := ⟨fun _ => .default, 0⟩

def modify (s : State) (ns : NamespaceId) (f : NamespaceState → NamespaceState) : State :=
  { s with namespaces := Function.update s.namespaces ns (f (s.namespaces ns)) }

def check (s : State) : Precondition → MetadataResult Unit
  | .mappingRevisionIs ns expected =>
    let actual := (s.namespaces ns).mapping_revision
    if actual ≠ expected then .error (.compareAndSwapFailed expected actual) else .ok ()
  | .pathIsUnmapped ns path =>
    if ((s.namespaces ns).paths path).isSome then
      .error (.invalidRecord s!"path {path} is already mapped to an inode")
    else .ok ()
  | .pathResolvesTo ns path inode =>
    if (s.namespaces ns).paths path ≠ some inode then
      .error (.invalidRecord
        ("path " ++ path ++ " does not resolve to inode " ++ toString inode.value))
    else .ok ()
  | .transitionExists ns operation_id =>
    if ((s.namespaces ns).transitions operation_id).isNone then
      .error (.notFound s!"transition/{operation_id}")
    else .ok ()
  | .transitionAbsent ns operation_id =>
    if ((s.namespaces ns).transitions operation_id).isSome then
      .error (.alreadyExists s!"transition/{operation_id}")
    else .ok ()

def apply (s : State) : Operation → State × Option Nat
  | .putPathIndex entry =>
    (s.modify entry.ns fun n =>
      { n with paths := Function.update n.paths entry.path (some entry.inode) }, none)
  | .removePathIndex ns path =>
    (s.modify ns fun n => { n with paths := Function.update n.paths path none }, none)
  | .putInode record =>
    (s.modify record.ns fun n =>
      { n with inodes := Function.update n.inodes record.inode.value (some record) }, none)
  | .removeInode ns inode =>
    (s.modify ns fun n => { n with inodes := Function.update n.inodes inode.value none }, none)
  | .putTransition t =>
    (s.modify t.ns fun n =>
      { n with transitions := Function.update n.transitions t.operation_id (some t) }, none)
  | .removeTransition ns operation_id =>
    (s.modify ns fun n =>
      { n with transitions := Function.update n.transitions operation_id none }, none)
  | .advanceMappingRevision ns =>
    (s.modify ns fun n => { n with mapping_revision := n.mapping_revision + 1 },
      some ((s.namespaces ns).mapping_revision + 1))

/-- Apply the operations in order; the last revision advanced is reported. -/
def applyAll : State → Option Nat → List Operation → State × Option Nat
  | s, revision, [] => (s, revision)
  | s, revision, operation :: rest =>
    let (s, advanced) := s.apply operation
    applyAll s (advanced.or revision) rest

def checkAll (s : State) : List Precondition → MetadataResult Unit
  | [] => .ok ()
  | p :: rest => do
    s.check p
    s.checkAll rest

/-- `capable` is the advertised hard-link capability. -/
def commitLocked (capable : Bool) (s : State) (t : Transaction) :
    MetadataResult (TransactionOutcome × State) :=
  if !capable then .error .capabilityUnsupported
  else do
    s.checkAll t.preconditions
    let (s, mapping_revision) := s.applyAll none t.operations
    let s := { s with revision := s.revision + 1 }
    .ok (⟨s.revision, mapping_revision⟩, s)

variable {s s' : State} {t : Transaction} {capable : Bool} {out : TransactionOutcome}

theorem checkAll_ok {ps : List Precondition} (h : s.checkAll ps = .ok ()) :
    ∀ p ∈ ps, s.check p = .ok () := by
  induction ps with
  | nil =>
    intro p mem
    cases mem
  | cons p _ ih =>
    obtain ⟨_, first, later⟩ := bind_ok h
    intro q mem
    rcases List.mem_cons.mp mem with rfl | mem
    · exact first
    · exact ih later q mem

theorem commitLocked_ok (h : s.commitLocked capable t = .ok (out, s')) :
    (∀ p ∈ t.preconditions, s.check p = .ok ()) ∧
      s'.namespaces = (s.applyAll none t.operations).1.namespaces := by
  obtain ⟨_, rest⟩ := guard_ok h
  obtain ⟨_, checked, rest⟩ := bind_ok rest
  obtain ⟨_, rfl⟩ := Prod.mk.inj (Except.ok.inj rest)
  exact ⟨checkAll_ok checked, rfl⟩

theorem mappingRevisionIs_ok {expected : Nat}
    (h : s.check (.mappingRevisionIs ns expected) = .ok ()) :
    (s.namespaces ns).mapping_revision = expected :=
  not_not.mp (guard_ok h).1

end State

end Talon.Metadata
