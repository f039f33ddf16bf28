import Mathlib.Data.List.Dedup
import Talon.Core.Namespace
import Talon.Lib.Fallible
import Talon.Lib.PathTree

/-!
# The cache root and its namespace directories

The root of a worker's cache holds the worker's own files and one directory for each namespace.
Requests create namespace directories; the next start reads the identity, checks the reset marker
and adopts every directory it finds.
-/

set_option autoImplicit false

namespace Talon.Worker

open Talon.Core List Fallible

structure WorkerIdentity where
  formatVersion : Nat
  clusterId : Str
  workerId : Str
  blockSize : Nat
  pageSize : Nat
deriving DecidableEq

/-- A file as `serde_json` reads it back. -/
inductive Content
  | identity (id : WorkerIdentity)
  | geometry (blockSize pageSize : Nat)
  | other
deriving DecidableEq

abbrev Path := List Str

abbrev Disk := PathTree.Tree Str Content

def identityFile : Str := "worker_identity".toList
def lockFile : Str := ".worker.lock".toList
def identityTemporary : Str := ".worker_identity.tmp.".toList
def resetMarker : Str := ".worker-reset".toList
def catalogDirectory : Str := ".paged-catalog".toList
def lostFound : Str := "lost+found".toList
def sharedDirectory : Str := "shared".toList
def scopesDirectory : Str := "scopes".toList
def geometryFile : Str := "cache_geometry.json".toList

def maxCacheRuntimes : Nat := 4096

/-- An error of kind `InvalidData` marks the cache as incompatible. -/
inductive StartError
  | incompatible (what : Str)
  | failed (what : Str)
deriving DecidableEq

/-- The part of the configuration that a start depends on; `geometry` is the block and page size
of a namespace with its overrides. -/
structure RootConfig where
  clusterId : Str
  nodeId : Option Str
  blockSize : Nat
  pageSize : Nat
  namespaces : List Str
  geometry : Str → Nat × Nat

/-- What `read_dir` yields, in some order. -/
abbrev Listing := Path → List Str

def Listing.Shows (l : Listing) (d : Disk) : Prop := ∀ p c, c ∈ l p ↔ d (p ++ [c]) ≠ none

/-! ## Identity -/

def checkResetComplete (d : Disk) : Except StartError Unit :=
  match d [resetMarker] with
  | some _ => .error (.incompatible
      "interrupted cache reset; enable reset_incompatible_cache to finish".toList)
  | none => .ok ()

/-- Entries that are no cached data. -/
def isMetadata (d : Disk) (name : Str) : Bool :=
  name == lockFile || identityTemporary.isPrefixOf name ||
    (name == lostFound && decide (d [name] = some .dir))

def checkOwner (cfg : RootConfig) (id : WorkerIdentity) : Except StartError WorkerIdentity :=
  if id.formatVersion ≠ 1 then .error (.failed "unsupported worker identity format".toList)
  else if id.clusterId ≠ cfg.clusterId then
    .error (.failed "worker identity belongs to a different cluster".toList)
  else if isBlank id.workerId then
    .error (.failed "corrupt worker identity: empty worker_id".toList)
  else if cfg.nodeId.any (· ≠ id.workerId) then
    .error (.failed "configured node_id conflicts with directory identity".toList)
  else .ok id

/-- `random` is the text of the random bytes drawn for a new identity. -/
def loadIdentityOwner (cfg : RootConfig) (l : Listing) (random : Str) (d : Disk) :
    Except StartError (WorkerIdentity × Disk) :=
  if isBlank cfg.clusterId then .error (.failed "identity cluster_id must not be empty".toList)
  else if cfg.nodeId.any isBlank then
    .error (.failed "identity worker_id must not be empty".toList)
  else match d [identityFile] with
    | some (.file (.identity id)) => do
      let id ← checkOwner cfg id
      .ok (id, d)
    | some (.file _) => .error
        (.failed "corrupt worker_identity; refusing to replace directory identity".toList)
    | some _ => .error (.failed "read worker identity".toList)
    | none => do
      checkResetComplete d
      if (l []).any (fun name => !isMetadata d name) ∧ cfg.nodeId = none then
        .error (.failed
          "existing cache has no worker_identity; explicitly import its old node_id".toList)
      else
        let id : WorkerIdentity :=
          ⟨1, cfg.clusterId, cfg.nodeId.getD random, cfg.blockSize, cfg.pageSize⟩
        let id ← checkOwner cfg id
        .ok (id, PathTree.add d [identityFile] (.file (.identity id)))

def loadIdentity (cfg : RootConfig) (l : Listing) (random : Str) (d : Disk) :
    Except StartError (WorkerIdentity × Disk) := do
  let (id, d) ← loadIdentityOwner cfg l random d
  checkResetComplete d
  if id.blockSize = cfg.blockSize ∧ id.pageSize = cfg.pageSize then .ok (id, d)
  else .error (.incompatible "cache geometry conflicts with directory identity".toList)

/-! ## Opening a namespace -/

def cacheDir (name : Str) : Option Str → Path
  | none => [name, sharedDirectory]
  | some scope => [name, scopesDirectory, scope]

inductive RootOp
  /-- `checked_dir` up to the sync of the parent. -/
  | dir (parent : Path) (name : Str)
  | sync (parent : Path)
  | geometry (leaf : Path) (value : Nat × Nat)
  /-- The name of a scope directory parses. -/
  | parse (scope : Str)
  /-- The limit on cache runtimes, and the publication of a new one. -/
  | limit
  | publish
deriving DecidableEq

structure Cache where
  disk : Disk
  workers : Nat

namespace RootOp

def run (c : Cache) : RootOp → Except StartError Cache
  | .dir parent name =>
    match c.disk (parent ++ [name]) with
    | some .dir => .ok c
    | some _ => .error (.incompatible "namespace cache path must be a real directory".toList)
    | none =>
      if c.disk parent = some .dir then
        .ok { c with disk := PathTree.add c.disk (parent ++ [name]) .dir }
      else .error (.failed "create_dir".toList)
  | .sync _ => .ok c
  | .geometry leaf value =>
    match c.disk (leaf ++ [geometryFile]) with
    | some (.file (.geometry blockSize pageSize)) =>
      if (blockSize, pageSize) = value then .ok c
      else .error (.incompatible "cache geometry changed for namespace".toList)
    | some (.file _) => .error (.incompatible "invalid cache geometry".toList)
    | some _ => .error (.failed "read cache geometry".toList)
    | none =>
      if c.disk leaf = some .dir then
        .ok { c with disk :=
          PathTree.add c.disk (leaf ++ [geometryFile]) (.file (.geometry value.1 value.2)) }
      else .error (.failed "write cache geometry".toList)
  | .parse scope =>
    if isAccessScope scope then .ok c
    else .error (.incompatible "invalid backend access scope".toList)
  | .limit =>
    if c.workers < maxCacheRuntimes then .ok c
    else .error (.failed "too many cache runtimes".toList)
  | .publish => .ok { c with workers := c.workers + 1 }

def runAll : List RootOp → Cache → Except StartError Cache
  | [], c => .ok c
  | op :: rest, c => do
    let c ← op.run c
    runAll rest c

end RootOp

/-- `NamespaceRuntimes::open` with the limit before it and the publication after it. -/
def openOps (cfg : RootConfig) (name : Str) (scope : Option Str) : List RootOp :=
  let inner := match scope with
    | none => [RootOp.dir [name] sharedDirectory]
    | some scope => [RootOp.dir [name] scopesDirectory, .dir [name, scopesDirectory] scope]
  [.limit, .dir [] name] ++ inner ++ [.geometry (cacheDir name scope) (cfg.geometry name), .publish]

/-! ## The scan at the start -/

/-- A link is not followed here: what lies behind one fails `checked_dir` later. -/
def existingDirectory (d : Disk) (p : Path) : Bool := decide (d p = some .dir)

def recognized (d : Disk) (l : Listing) (name : Str) : Bool :=
  existingDirectory d [name, sharedDirectory] || existingDirectory d [name, scopesDirectory] ||
    (existingDirectory d [name] && (l [name]).isEmpty)

def scanNames (d : Disk) (l : Listing) : List Str → Except StartError (List Str)
  | [] => .ok []
  | name :: rest =>
    if name = lostFound then scanNames d l rest
    else if d [name] = some .dir ∨ d [name] = some .link then
      if recognized d l name then do
        let names ← scanNames d l rest
        .ok (name :: names)
      else .error (.incompatible "legacy/unrecognized cache directory".toList)
    else scanNames d l rest

def startOps (cfg : RootConfig) (d : Disk) (l : Listing) (name : Str) : List RootOp :=
  let hasShared := (d [name, sharedDirectory]).isSome
  let hasScopes := (d [name, scopesDirectory]).isSome
  let opened := if name = defaultNamespace ∨ name ∈ cfg.namespaces ∨ hasShared ∨ !hasScopes then
    openOps cfg name none else []
  let persisted := if hasScopes then
    RootOp.dir [name] scopesDirectory :: (l [name, scopesDirectory]).flatMap fun scope =>
      RootOp.parse scope :: openOps cfg name (some scope) else []
  RootOp.dir [] name :: opened ++ persisted

def openNames (cfg : RootConfig) (l : Listing) : List Str → Cache → Except StartError Cache
  | [], c => .ok c
  | name :: rest, c =>
    match namespaceContext name with
    | .error e => .error (.incompatible e.text)
    | .ok _ => do
      let c ← RootOp.runAll (startOps cfg c.disk l name) c
      openNames cfg l rest c

/-- The default namespace, the configured ones and the ones found; the source opens them in the
order of their names. -/
def allNames (cfg : RootConfig) (found : List Str) : List Str :=
  (defaultNamespace :: cfg.namespaces ++ found).dedup

/-- `try_exists` follows a link; one that leads nowhere is refused by the scan instead. -/
def checkCatalog (d : Disk) : Except StartError Unit :=
  match d [catalogDirectory] with
  | none => .ok ()
  | some _ => .error (.incompatible
      "root-level cache catalog is unsupported; use a new empty cache directory".toList)

def openNamespaces (cfg : RootConfig) (l : Listing) (d : Disk) : Except StartError Cache := do
  checkCatalog d
  let found ← scanNames d l (l [])
  if maxCacheRuntimes < (allNames cfg found).length then
    .error (.failed "too many namespaces".toList)
  else openNames cfg l (allNames cfg found) ⟨d, 0⟩

/-! ## What the operations do -/

namespace RootOp

def target : RootOp → Option (Path × Str × PathTree.Node Content)
  | .dir parent name => some (parent, name, .dir)
  | .geometry leaf value => some (leaf, geometryFile, .file (.geometry value.1 value.2))
  | _ => none

structure Done (d : Disk) (op : RootOp) : Prop where
  target : ∀ p c x, op.target = some (p, c, x) → d (p ++ [c]) = some x
  parse : ∀ s, op = .parse s → isAccessScope s = true

variable {c c' : Cache} {op : RootOp} {ops : List RootOp}

variable (ok : op.run c = .ok c')

include ok in
theorem run_ok : (c'.disk = c.disk ∧ op.Done c.disk) ∨
    ∃ p n x, op.target = some (p, n, x) ∧ c.disk (p ++ [n]) = none ∧ c.disk p = some .dir ∧
      c'.disk = PathTree.add c.disk (p ++ [n]) x := by
  cases op with
  | dir parent name =>
    simp only [run] at ok
    split at ok
    · rename_i found
      cases ok
      refine .inl ⟨rfl, ⟨?_, nofun⟩⟩
      rintro p n x ⟨⟩
      exact found
    · cases ok
    · rename_i absent
      split at ok
      · rename_i dir
        cases ok
        exact .inr ⟨parent, name, .dir, rfl, absent, dir, rfl⟩
      · cases ok
  | geometry leaf =>
    simp only [run] at ok
    split at ok
    · rename_i found
      split at ok
      · rename_i same
        cases ok
        refine .inl ⟨rfl, ⟨?_, nofun⟩⟩
        rintro p n x ⟨⟩
        rw [found, ← same]
      · cases ok
    · cases ok
    · cases ok
    · rename_i absent
      split at ok
      · rename_i dir
        cases ok
        exact .inr ⟨leaf, geometryFile, _, rfl, absent, dir, rfl⟩
      · cases ok
  | parse =>
    simp only [run] at ok
    split at ok
    · rename_i parses
      cases ok
      refine .inl ⟨rfl, ⟨nofun, ?_⟩⟩
      rintro s ⟨⟩
      exact parses
    · cases ok
  | limit =>
    simp only [run] at ok
    split at ok
    · cases ok
      exact .inl ⟨rfl, nofun, nofun⟩
    · cases ok
  | sync | publish =>
    cases ok
    exact .inl ⟨rfl, nofun, nofun⟩

theorem run_incompatible {what : Str} (error : op.run c = .error (.incompatible what)) :
    (∃ p n x y, op.target = some (p, n, x) ∧ c.disk (p ++ [n]) = some y ∧ y ≠ x) ∨
      ∃ s, op = .parse s ∧ isAccessScope s ≠ true := by
  cases op with
  | dir parent name =>
    simp only [run] at error
    split at error
    · cases error
    · rename_i y other found
      exact .inl ⟨parent, name, .dir, y, rfl, found, other⟩
    · split at error <;> cases error
  | geometry leaf =>
    simp only [run] at error
    split at error
    · rename_i blockSize pageSize found
      split at error
      · cases error
      · rename_i other
        refine .inl ⟨leaf, geometryFile, _, _, rfl, found, ?_⟩
        intro same
        cases same
        exact other rfl
    · rename_i content other found
      refine .inl ⟨leaf, geometryFile, _, _, rfl, found, ?_⟩
      intro same
      cases same
      exact other _ _ rfl
    · cases error
    · split at error <;> cases error
  | parse scope =>
    simp only [run] at error
    split at error
    · cases error
    · rename_i bad
      exact .inr ⟨scope, rfl, bad⟩
  | limit =>
    simp only [run] at error
    split at error <;> cases error
  | sync => cases error
  | publish => cases error

def Within (d d' : Disk) : Prop := ∀ p x, d p = some x → d' p = some x

theorem Within.trans {d₁ d₂ d₃ : Disk} (first : Within d₁ d₂) (second : Within d₂ d₃) :
    Within d₁ d₃ := fun p x found => second p x (first p x found)

theorem Done.mono {d d' : Disk} (done : op.Done d) (within : Within d d') : op.Done d' :=
  ⟨fun p n x target => within _ x (done.target p n x target), done.parse⟩

include ok

theorem run_within : Within c.disk c'.disk := by
  obtain ⟨same, _⟩ | ⟨p, n, x, _, absent, _, made⟩ := run_ok ok
  · rw [same]
    exact fun _ _ found => found
  · rw [made]
    exact fun _ _ found => PathTree.add_of_some absent found

theorem run_done : op.Done c'.disk := by
  obtain ⟨same, done⟩ | ⟨p, n, x, target, _, _, made⟩ := run_ok ok
  · rw [same]
    exact done
  · refine ⟨fun p' n' x' target' => ?_, fun s same => ?_⟩
    · rw [target] at target'
      cases target'
      rw [made]
      exact PathTree.add_self
    · rw [same] at target
      cases target

variable {y : PathTree.Node Content}

theorem run_origin {q : Path} (found : c'.disk q = some y) :
    c.disk q = some y ∨ ∃ p n, op.target = some (p, n, y) ∧ q = p ++ [n] := by
  obtain ⟨same, _⟩ | ⟨p, n, x, target, _, _, made⟩ := run_ok ok
  · rw [same] at found
    exact .inl found
  · rw [made] at found
    obtain ⟨rfl, rfl⟩ | before := PathTree.add_eq_some found
    · exact .inr ⟨p, n, target, rfl⟩
    · exact .inl before

omit ok

theorem runAll_append {first second : List RootOp} {c₁ : Cache} (before : runAll first c = .ok c₁)
    (after : runAll second c₁ = .ok c') : runAll (first ++ second) c = .ok c' := by
  induction first generalizing c with
  | nil =>
    cases before
    exact after
  | cons _ _ ih =>
    obtain ⟨_, one, others⟩ := bind_ok before
    simp only [cons_append, runAll, one]
    exact ih others

theorem runAll_within (ok : runAll ops c = .ok c') : Within c.disk c'.disk := by
  induction ops generalizing c with
  | nil =>
    cases ok
    exact fun _ _ found => found
  | cons _ _ ih =>
    obtain ⟨_, first, others⟩ := bind_ok ok
    exact (run_within first).trans (ih others)

theorem runAll_done (ok : runAll ops c = .ok c') : ∀ op ∈ ops, op.Done c'.disk := by
  induction ops generalizing c with
  | nil => exact nofun
  | cons _ _ ih =>
    obtain ⟨_, first, others⟩ := bind_ok ok
    intro op' mem
    obtain rfl | mem := mem_cons.mp mem
    · exact (run_done first).mono (runAll_within others)
    · exact ih others op' mem

theorem runAll_origin (ok : runAll ops c = .ok c') {q : Path} (found : c'.disk q = some y) :
    c.disk q = some y ∨ ∃ op ∈ ops, ∃ p n, op.target = some (p, n, y) ∧ q = p ++ [n] := by
  induction ops generalizing c with
  | nil =>
    cases ok
    exact .inl found
  | cons op _ ih =>
    obtain ⟨_, first, others⟩ := bind_ok ok
    obtain before | ⟨op', mem, made⟩ := ih others
    · obtain before | made := run_origin first before
      · exact .inl before
      · exact .inr ⟨op, mem_cons_self, made⟩
    · exact .inr ⟨op', mem_cons_of_mem _ mem, made⟩

theorem run_closed (closed : PathTree.Closed c.disk) (ok : op.run c = .ok c') :
    PathTree.Closed c'.disk := by
  obtain ⟨same, _⟩ | ⟨p, n, x, _, absent, parent, made⟩ := run_ok ok
  · rw [same]
    exact closed
  · rw [made]
    exact closed.add absent parent

theorem runAll_closed (closed : PathTree.Closed c.disk) (ok : runAll ops c = .ok c') :
    PathTree.Closed c'.disk := by
  induction ops generalizing c with
  | nil =>
    cases ok
    exact closed
  | cons _ _ ih =>
    obtain ⟨_, first, others⟩ := bind_ok ok
    exact ih (run_closed closed first) others

end RootOp

/-! ## What the scan finds -/

section Scan

variable {d : Disk} {l : Listing}

def IsCandidate (d : Disk) (name : Str) : Prop :=
  name ≠ lostFound ∧ (d [name] = some .dir ∨ d [name] = some .link)

variable {name : Str}

theorem mem_scanNames {names found : List Str} (ok : scanNames d l names = .ok found) :
    name ∈ found ↔ name ∈ names ∧ IsCandidate d name := by
  induction names generalizing found with
  | nil =>
    cases ok
    simp
  | cons _ _ ih =>
    simp only [scanNames] at ok
    split at ok
    · rename_i lost
      rw [ih ok, mem_cons]
      refine ⟨fun ⟨mem, cand⟩ => ⟨.inr mem, cand⟩, fun ⟨mem, cand⟩ => ⟨?_, cand⟩⟩
      exact mem.resolve_left fun same => cand.1 (same.trans lost)
    · rename_i notLost
      split at ok
      · rename_i entry
        split at ok
        · obtain ⟨_, scanned, same⟩ := bind_ok ok
          cases same
          rw [mem_cons, mem_cons, ih scanned]
          constructor
          · rintro (rfl | ⟨mem, cand⟩)
            · exact ⟨.inl rfl, notLost, entry⟩
            · exact ⟨.inr mem, cand⟩
          · rintro ⟨same | mem, cand⟩
            · exact .inl same
            · exact .inr ⟨mem, cand⟩
        · cases ok
      · rename_i noEntry
        rw [ih ok, mem_cons]
        refine ⟨fun ⟨mem, cand⟩ => ⟨.inr mem, cand⟩, fun ⟨mem, cand⟩ => ⟨?_, cand⟩⟩
        refine mem.resolve_left fun same => noEntry ?_
        rw [← same]
        exact cand.2

theorem scanNames_recognized {names : List Str}
    (all : ∀ name ∈ names, IsCandidate d name → recognized d l name = true) :
    ∃ found, scanNames d l names = .ok found := by
  induction names with
  | nil => exact ⟨[], rfl⟩
  | cons head _ ih =>
    obtain ⟨found, scanned⟩ := ih fun name mem => all name (mem_cons_of_mem _ mem)
    simp only [scanNames]
    split
    · exact ⟨found, scanned⟩
    · rename_i notLost
      split
      · rename_i entry
        rw [if_pos (all head mem_cons_self ⟨notLost, entry⟩), scanned]
        exact ⟨head :: found, rfl⟩
      · exact ⟨found, scanned⟩

theorem mem_allNames {cfg : RootConfig} {found : List Str} :
    name ∈ allNames cfg found ↔
      name = defaultNamespace ∨ name ∈ cfg.namespaces ∨ name ∈ found := by
  simp [allNames]

end Scan

/-! ## What opening does -/

section Opening

variable {cfg : RootConfig} {l : Listing} {names : List Str} {c c' : Cache}

theorem openNames_ok (ok : openNames cfg l names c = .ok c') :
    ∃ ops, RootOp.runAll ops c = .ok c' ∧
      (∀ op ∈ ops, ∃ name ∈ names, ∃ m, op ∈ startOps cfg m l name ∧
        ∀ op' ∈ startOps cfg m l name, op' ∈ ops) ∧
      ∀ name ∈ names, Accepted name ∧
        ∃ m, RootOp.Within c.disk m ∧ ∀ op ∈ startOps cfg m l name, op ∈ ops := by
  induction names generalizing c with
  | nil => exact ⟨[], ok, nofun, nofun⟩
  | cons _ _ ih =>
    simp only [openNames] at ok
    split at ok
    · cases ok
    · rename_i accepted valid
      obtain ⟨rfl, _⟩ := namespaceContext_ok valid
      obtain ⟨_, first, others⟩ := bind_ok ok
      obtain ⟨ops, run, origin, opened⟩ := ih others
      refine ⟨startOps cfg c.disk l accepted ++ ops, RootOp.runAll_append first run, ?_, ?_⟩
      · intro op mem
        obtain mem | mem := mem_append.mp mem
        · exact ⟨accepted, mem_cons_self, c.disk, mem,
            fun op' mem => mem_append_left _ mem⟩
        · obtain ⟨name, listed, m, mem, all⟩ := origin op mem
          exact ⟨name, mem_cons_of_mem _ listed, m, mem,
            fun op' mem => mem_append_right _ (all op' mem)⟩
      · intro name mem
        obtain rfl | mem := mem_cons.mp mem
        · exact ⟨valid, c.disk, fun _ _ found => found, fun op mem => mem_append_left _ mem⟩
        · obtain ⟨valid, m, within, all⟩ := opened name mem
          exact ⟨valid, m, (RootOp.runAll_within first).trans within,
            fun op mem => mem_append_right _ (all op mem)⟩

end Opening

end Talon.Worker
