import Talon.Core.Key
import Talon.Lib.PartialMap
import Talon.Lib.Timeline
import Talon.Lib.Transition

/-!
# The version cache of a worker

Reads, stats, writes and deletes of a worker over one origin, each stopped between its accesses to
the origin and to the version cache.  The cache is last-writer-wins: a result the origin gave long
ago may be stored over a newer one.  While results are stored in the origin's order a read that
starts after a write resolves to a version the origin held at that write or later.
-/

set_option autoImplicit false

namespace Talon.Worker

open Talon.Core Relation

abbrev Version := Str

def uncheckedVersion : Version := "__talon_unchecked__".toList

structure ObjectStat where
  version : Version
  len : Nat
deriving DecidableEq

structure CachedVersion where
  version : Version
  objectLen : Nat
  resolvedAt : Nat
deriving DecidableEq

def CachedVersion.stat (e : CachedVersion) : ObjectStat := ⟨e.version, e.objectLen⟩

abbrev VersionCache := ObjectId → Option CachedVersion

namespace VersionCache

def cachedObjectStat (cache : VersionCache) (ttl now : Nat) (object : ObjectId) :
    Option ObjectStat :=
  match cache object with
  | none => none
  | some entry => if now - entry.resolvedAt < ttl then some entry.stat else none

def cachedObjectLen (cache : VersionCache) (object : ObjectId) (version : Version) : Option Nat :=
  match cache object with
  | none => none
  | some entry => if entry.version = version then some entry.objectLen else none

def storeVersion (cache : VersionCache) (now : Nat) (object : ObjectId) (stat : ObjectStat) :
    VersionCache :=
  PartialMap.insert cache object ⟨stat.version, stat.len, now⟩

def invalidateVersion (cache : VersionCache) (object : ObjectId) : VersionCache :=
  PartialMap.erase cache object

end VersionCache

/-- What the origin answered, and the position of the object's history it answered from. -/
structure Observed where
  stat : ObjectStat
  position : Nat
deriving DecidableEq

structure Written where
  object : ObjectId
  version : Version
  position : Nat
deriving DecidableEq

/-- Where a `serve` or `serve_range` stands; `force` holds after a version mismatch. -/
inductive ReadPoint
  | resolve (force : Bool)
  | head (force : Bool)
  | store (force : Bool) (seen : Observed)
  /-- `resolve_object_stat` returned `stat`. -/
  | serve (force : Bool) (stat : ObjectStat)
  /-- `block_len` asked the origin for the length. -/
  | storeLen (force : Bool) (stat : ObjectStat) (seen : Observed)
deriving DecidableEq

inductive StatPoint
  | head
  | store (seen : Observed)
deriving DecidableEq

/-- `write_object` commits the block after storing the version, `write_object_file` evicts the old
version before. -/
inductive WriteKind
  | inline
  | file
deriving DecidableEq

inductive WritePoint
  | put
  | evict (seen : Observed)
  | store (seen : Observed)
  | finish (seen : Observed)
deriving DecidableEq

def WriteKind.afterPut : WriteKind → Observed → WritePoint
  | .inline => .store
  | .file => .evict

inductive DeletePoint
  | delete
  | invalidate
deriving DecidableEq

inductive Task
  /-- `began` lists the writes that had returned when the read started. -/
  | read (object : ObjectId) (began : List Written) (point : ReadPoint)
  | stat (object : ObjectId) (point : StatPoint)
  | write (object : ObjectId) (kind : WriteKind) (len : Nat) (point : WritePoint)
  | delete (object : ObjectId) (point : DeletePoint)
deriving DecidableEq

structure State where
  origin : ObjectId → Timeline (Option ObjectStat)
  cache : VersionCache
  now : Nat
  tasks : Nat → Option Task
  stored : ObjectId → Nat
  returned : List Written

namespace State

def spawn (s : State) (id : Nat) (t : Task) : State :=
  { s with tasks := PartialMap.insert s.tasks id t }

def finish (s : State) (id : Nat) : State :=
  { s with tasks := PartialMap.erase s.tasks id }

/-- The origin's answer to a HEAD, if it holds the object. -/
def head (s : State) (object : ObjectId) : Option Observed :=
  (s.origin object).value.map fun stat => ⟨stat, (s.origin object).position⟩

def setOrigin (s : State) (object : ObjectId) (content : Option ObjectStat) : State :=
  { s with origin := Function.update s.origin object ((s.origin object).set content) }

def storeVersion (s : State) (object : ObjectId) (seen : Observed) : State :=
  { s with
    cache := s.cache.storeVersion s.now object seen.stat
    stored := Function.update s.stored object seen.position }

def invalidateVersion (s : State) (object : ObjectId) : State :=
  { s with cache := s.cache.invalidateVersion object }

end State

open State in
/-- One step of the worker, its clock or its origin; `Allowed` restricts the moments at which a
result may be stored. -/
inductive Step (ttl : Nat) (Allowed : State → ObjectId → Observed → Prop) : State → State → Prop
  | tick {s} (d : Nat) : Step ttl Allowed s { s with now := s.now + d }
  /-- Another client of the origin, or a request of the worker whose answer was lost. -/
  | foreign {s} (object : ObjectId) (content : Option ObjectStat) :
      Step ttl Allowed s (s.setOrigin object content)
  /-- A task returns without a version, with an error or cancelled. -/
  | ended {s} (id : Nat) : Step ttl Allowed s (s.finish id)
  | beginRead {s id} (object : ObjectId) (free : s.tasks id = none) :
      Step ttl Allowed s (s.spawn id (.read object s.returned (.resolve false)))
  | beginStat {s id} (object : ObjectId) (free : s.tasks id = none) :
      Step ttl Allowed s (s.spawn id (.stat object .head))
  | beginWrite {s id} (object : ObjectId) (kind : WriteKind) (len : Nat)
      (free : s.tasks id = none) : Step ttl Allowed s (s.spawn id (.write object kind len .put))
  | beginDelete {s id} (object : ObjectId) (free : s.tasks id = none) :
      Step ttl Allowed s (s.spawn id (.delete object .delete))
  | hit {s id object began stat} (task : s.tasks id = some (.read object began (.resolve false)))
      (found : s.cache.cachedObjectStat ttl s.now object = some stat) :
      Step ttl Allowed s (s.spawn id (.read object began (.serve false stat)))
  | miss {s id object began force} (task : s.tasks id = some (.read object began (.resolve force)))
      (absent : force = true ∨ s.cache.cachedObjectStat ttl s.now object = none) :
      Step ttl Allowed s (s.spawn id (.read object began (.head force)))
  | readHead {s id object began force seen}
      (task : s.tasks id = some (.read object began (.head force)))
      (answer : s.head object = some seen) (versioned : isBlank seen.stat.version = false) :
      Step ttl Allowed s (s.spawn id (.read object began (.store force seen)))
  | readStore {s id object began force seen}
      (task : s.tasks id = some (.read object began (.store force seen)))
      (allowed : Allowed s object seen) :
      Step ttl Allowed s
        ((s.storeVersion object seen).spawn id (.read object began (.serve force seen.stat)))
  /-- The version in use is not the origin's any more: one retry with a forced HEAD. -/
  | mismatch {s id object began stat}
      (task : s.tasks id = some (.read object began (.serve false stat))) :
      Step ttl Allowed s
        ((s.invalidateVersion object).spawn id (.read object began (.resolve true)))
  | lenHead {s id object began force stat seen}
      (task : s.tasks id = some (.read object began (.serve force stat)))
      (unknown : s.cache.cachedObjectLen object stat.version = none)
      (answer : s.head object = some seen)
      (same : stat.version = uncheckedVersion ∨ seen.stat.version = stat.version) :
      Step ttl Allowed s (s.spawn id (.read object began (.storeLen force stat seen)))
  | lenStore {s id object began force stat seen}
      (task : s.tasks id = some (.read object began (.storeLen force stat seen)))
      (allowed : Allowed s object seen) :
      Step ttl Allowed s
        ((s.storeVersion object seen).spawn id (.read object began (.serve force stat)))
  | statHead {s id object seen}
      (task : s.tasks id = some (.stat object .head)) (answer : s.head object = some seen)
      (versioned : isBlank seen.stat.version = false) :
      Step ttl Allowed s (s.spawn id (.stat object (.store seen)))
  | statStore {s id object seen}
      (task : s.tasks id = some (.stat object (.store seen))) (allowed : Allowed s object seen) :
      Step ttl Allowed s ((s.storeVersion object seen).finish id)
  | put {s id object kind len}
      (version : Version) (task : s.tasks id = some (.write object kind len .put)) :
      Step ttl Allowed s
        ((s.setOrigin object (some ⟨version, len⟩)).spawn id (.write object kind len
          (kind.afterPut ⟨⟨version, len⟩, (s.origin object).position + 1⟩)))
  | evict {s id object kind len seen}
      (task : s.tasks id = some (.write object kind len (.evict seen))) :
      Step ttl Allowed s (s.spawn id (.write object kind len (.store seen)))
  | writeStore {s id object kind len seen}
      (task : s.tasks id = some (.write object kind len (.store seen)))
      (allowed : Allowed s object seen) :
      Step ttl Allowed s
        ((s.storeVersion object seen).spawn id (.write object kind len (.finish seen)))
  | written {s id object kind len seen}
      (task : s.tasks id = some (.write object kind len (.finish seen))) :
      Step ttl Allowed s
        { s.finish id with
          returned := ⟨object, seen.stat.version, seen.position⟩ :: s.returned }
  | delete {s id object} (task : s.tasks id = some (.delete object .delete)) :
      Step ttl Allowed s ((s.setOrigin object none).spawn id (.delete object .invalidate))
  | invalidate {s id object} (task : s.tasks id = some (.delete object .invalidate)) :
      Step ttl Allowed s ((s.invalidateVersion object).finish id)

/-- Results are stored in the origin's order: none is older than the one stored last. -/
def InOrder (s : State) (object : ObjectId) (seen : Observed) : Prop :=
  s.stored object ≤ seen.position

structure State.Idle (s : State) : Prop where
  cache : s.cache = PartialMap.empty
  tasks : s.tasks = PartialMap.empty
  returned : s.returned = []

/-! ## What the tasks and the cache know of the origin -/

namespace State

def Knows (s : State) (object : ObjectId) (seen : Observed) : Prop :=
  (s.origin object).at? seen.position = some (some seen.stat)

/-- No write of the list was applied after `position`. -/
def Since (began : List Written) (object : ObjectId) (position : Nat) : Prop :=
  ∀ w ∈ began, w.object = object → w.position ≤ position

/-- The origin held `stat` at, or after, each write of the list. -/
def Current (s : State) (began : List Written) (object : ObjectId) (stat : ObjectStat) : Prop :=
  ∀ w ∈ began, w.object = object → (s.origin object).HeldSince w.position (some stat)

/-- The write is in the origin's history and no older result was stored since. -/
structure Applied (s : State) (w : Written) : Prop where
  put : ∃ len, (s.origin w.object).at? w.position = some (some ⟨w.version, len⟩)
  stored : w.position ≤ s.stored w.object

def ReadOk (s : State) (object : ObjectId) (began : List Written) : ReadPoint → Prop
  | .resolve _ | .head _ => True
  | .store _ seen => s.Knows object seen ∧ Since began object seen.position
  | .serve _ stat => s.Current began object stat
  | .storeLen _ stat seen => s.Current began object stat ∧ s.Knows object seen

def WriteOk (s : State) (object : ObjectId) : WritePoint → Prop
  | .put => True
  | .evict seen | .store seen => s.Knows object seen
  | .finish seen => s.Knows object seen ∧ seen.position ≤ s.stored object

def TaskOk (s : State) : Task → Prop
  | .read object began point => (∀ w ∈ began, s.Applied w) ∧ s.ReadOk object began point
  | .stat object (.store seen) => s.Knows object seen
  | .stat _ .head => True
  | .write object _ _ point => s.WriteOk object point
  | .delete _ _ => True

structure Ok (s : State) : Prop where
  cached : ∀ object entry, s.cache object = some entry →
    s.Knows object ⟨entry.stat, s.stored object⟩
  returned : ∀ w ∈ s.returned, s.Applied w
  tasks : ∀ id t, s.tasks id = some t → s.TaskOk t

/-- The origin has grown and newer results have been stored. -/
structure Later (s t : State) : Prop where
  kept : ∀ object q content, (s.origin object).at? q = some content →
    (t.origin object).at? q = some content
  stored : ∀ object, s.stored object ≤ t.stored object

variable {s t : State}

theorem Later.of_eq (origin : t.origin = s.origin) (stored : t.stored = s.stored) : Later s t where
  kept _ _ _ held := origin ▸ held
  stored _ := Nat.le_of_eq (congrFun stored.symm _)

variable {object : ObjectId} {seen : Observed} {began : List Written}

section

variable (later : Later s t)
include later

theorem Later.knows (knows : s.Knows object seen) : t.Knows object seen :=
  later.kept _ _ _ knows

theorem Later.current {stat : ObjectStat} (current : s.Current began object stat) :
    t.Current began object stat := by
  intro w mem same
  obtain ⟨q, after, held⟩ := current w mem same
  exact ⟨q, after, later.kept _ _ _ held⟩

theorem Later.applied {w : Written} (applied : s.Applied w) : t.Applied w := by
  obtain ⟨len, held⟩ := applied.put
  exact ⟨⟨len, later.kept _ _ _ held⟩, Nat.le_trans applied.stored (later.stored _)⟩

theorem Later.readOk {point : ReadPoint} (ok : s.ReadOk object began point) :
    t.ReadOk object began point := by
  cases point with
  | resolve => trivial
  | head => trivial
  | store => exact ⟨later.knows ok.1, ok.2⟩
  | serve => exact later.current ok
  | storeLen => exact ⟨later.current ok.1, later.knows ok.2⟩

theorem Later.writeOk {point : WritePoint} (ok : s.WriteOk object point) :
    t.WriteOk object point := by
  cases point with
  | put => trivial
  | evict => exact later.knows ok
  | store => exact later.knows ok
  | finish => exact ⟨later.knows ok.1, Nat.le_trans ok.2 (later.stored _)⟩

theorem Later.taskOk {task : Task} (ok : s.TaskOk task) : t.TaskOk task := by
  cases task with
  | read =>
    exact ⟨fun w mem => later.applied (ok.1 w mem), later.readOk ok.2⟩
  | stat _ point =>
    cases point with
    | head => trivial
    | store => exact later.knows ok
  | write => exact later.writeOk ok
  | delete => trivial

end

theorem since_position (applied : ∀ w ∈ began, s.Applied w) :
    Since began object (s.origin object).position := by
  intro w mem same
  obtain ⟨_, held⟩ := (applied w mem).put
  rw [same] at held
  exact Timeline.le_position_of_at? held

theorem head_some (answer : s.head object = some seen) :
    s.Knows object seen ∧ seen.position = (s.origin object).position := by
  obtain ⟨_, held, rfl⟩ := Option.map_eq_some_iff.mp answer
  refine ⟨?_, rfl⟩
  rw [Knows, Timeline.at?_position, held]

theorem current_of_knows (knows : s.Knows object seen) (since : Since began object seen.position) :
    s.Current began object seen.stat :=
  fun w mem same => ⟨seen.position, since w mem same, knows⟩

/-! ## The pieces of a step -/

theorem Ok.spawn (ok : s.Ok) {id : Nat} {task : Task} (now : s.TaskOk task) :
    (s.spawn id task).Ok := by
  refine ⟨ok.cached, fun w mem => ⟨(ok.returned w mem).put, (ok.returned w mem).stored⟩, ?_⟩
  intro j t found
  have later : Later s (s.spawn id task) := .of_eq rfl rfl
  by_cases same : j = id
  · subst same
    obtain rfl : task = t := by simpa [State.spawn] using found
    exact later.taskOk now
  · have before : s.tasks j = some t := by simpa [State.spawn, same] using found
    exact later.taskOk (ok.tasks j t before)

theorem Ok.finish (ok : s.Ok) (id : Nat) : (s.finish id).Ok := by
  have later : Later s (s.finish id) := .of_eq rfl rfl
  refine ⟨ok.cached, fun w mem => later.applied (ok.returned w mem), ?_⟩
  intro j t found
  by_cases same : j = id
  · subst same
    simp [State.finish] at found
  · have before : s.tasks j = some t := by simpa [State.finish, same] using found
    exact later.taskOk (ok.tasks j t before)

theorem later_setOrigin (s : State) (object : ObjectId) (content : Option ObjectStat) :
    Later s (s.setOrigin object content) := by
  refine ⟨?_, fun _ => Nat.le_refl _⟩
  intro other q _ before
  by_cases same : other = object
  · subst same
    simpa [setOrigin] using Timeline.at?_set before
  · simpa [setOrigin, same] using before

theorem Ok.setOrigin (ok : s.Ok) (object : ObjectId) (content : Option ObjectStat) :
    (s.setOrigin object content).Ok := by
  have later := later_setOrigin s object content
  exact ⟨fun o entry found => later.knows (ok.cached o entry found),
    fun w mem => later.applied (ok.returned w mem),
    fun id t found => later.taskOk (ok.tasks id t found)⟩

theorem later_storeVersion (order : InOrder s object seen) :
    Later s (s.storeVersion object seen) := by
  refine ⟨fun _ _ _ held => held, fun other => ?_⟩
  by_cases same : other = object
  · subst same
    simpa [storeVersion, InOrder] using order
  · simp [storeVersion, same]

theorem Ok.storeVersion (ok : s.Ok) (knows : s.Knows object seen) (order : InOrder s object seen) :
    (s.storeVersion object seen).Ok := by
  have later := later_storeVersion order
  refine ⟨?_, fun w mem => later.applied (ok.returned w mem),
    fun id t found => later.taskOk (ok.tasks id t found)⟩
  intro other entry found
  by_cases same : other = object
  · subst same
    obtain rfl : (⟨seen.stat.version, seen.stat.len, s.now⟩ : CachedVersion) = entry := by
      simpa [State.storeVersion, VersionCache.storeVersion] using found
    simpa [State.storeVersion, Knows, CachedVersion.stat] using knows
  · have before : s.cache other = some entry := by
      simpa [State.storeVersion, VersionCache.storeVersion, same] using found
    simpa [State.storeVersion, Knows, same] using ok.cached other entry before

theorem Ok.invalidateVersion (ok : s.Ok) (object : ObjectId) : (s.invalidateVersion object).Ok := by
  have later : Later s (s.invalidateVersion object) := .of_eq rfl rfl
  refine ⟨?_, fun w mem => later.applied (ok.returned w mem),
    fun id t found => later.taskOk (ok.tasks id t found)⟩
  intro other entry found
  by_cases same : other = object
  · subst same
    simp [State.invalidateVersion, VersionCache.invalidateVersion] at found
  · have before : s.cache other = some entry := by
      simpa [State.invalidateVersion, VersionCache.invalidateVersion, same] using found
    exact ok.cached other entry before

end State

/-! ## Runs -/

open State

/-- If answers are stored in order, every step keeps what the cache knows. -/
theorem Step.keeps_ok {ttl : Nat} {s t : State} (step : Step ttl InOrder s t) (ok : s.Ok) :
    t.Ok := by
  cases step with
  | tick d =>
    have later : Later s { s with now := s.now + d } := .of_eq rfl rfl
    exact ⟨ok.cached, fun w mem => later.applied (ok.returned w mem),
      fun id t found => later.taskOk (ok.tasks id t found)⟩
  | foreign object content => exact ok.setOrigin object content
  | ended id => exact ok.finish id
  | beginRead => exact ok.spawn ⟨ok.returned, trivial⟩
  | beginStat | beginWrite | beginDelete => exact ok.spawn trivial
  | @hit _ object began _ task found =>
    obtain ⟨applied, _⟩ := ok.tasks _ _ task
    unfold VersionCache.cachedObjectStat at found
    split at found
    case h_1 => cases found
    rename_i entry cached
    split at found
    case isFalse => cases found
    cases found
    have since : Since began object (s.stored object) :=
      fun w mem same => same ▸ (applied w mem).stored
    exact ok.spawn ⟨applied, current_of_knows (ok.cached object entry cached) since⟩
  | miss task => exact ok.spawn ⟨(ok.tasks _ _ task).1, trivial⟩
  | readHead task answer =>
    obtain ⟨applied, _⟩ := ok.tasks _ _ task
    obtain ⟨knows, present⟩ := head_some answer
    exact ok.spawn ⟨applied, knows, present ▸ since_position applied⟩
  | readStore task allowed =>
    obtain ⟨applied, knows, since⟩ := ok.tasks _ _ task
    have later := later_storeVersion allowed
    apply (ok.storeVersion knows allowed).spawn
    exact ⟨fun w mem => later.applied (applied w mem),
      later.current (current_of_knows knows since)⟩
  | @mismatch _ object _ _ task =>
    have later : Later s (s.invalidateVersion object) := .of_eq rfl rfl
    apply (ok.invalidateVersion object).spawn
    exact ⟨fun w mem => later.applied ((ok.tasks _ _ task).1 w mem), trivial⟩
  | lenHead task _ answer =>
    obtain ⟨applied, current⟩ := ok.tasks _ _ task
    exact ok.spawn ⟨applied, current, (head_some answer).1⟩
  | lenStore task allowed =>
    obtain ⟨applied, current, knows⟩ := ok.tasks _ _ task
    have later := later_storeVersion allowed
    apply (ok.storeVersion knows allowed).spawn
    exact ⟨fun w mem => later.applied (applied w mem), later.current current⟩
  | statHead _ answer => exact ok.spawn (head_some answer).1
  | statStore task allowed => exact (ok.storeVersion (ok.tasks _ _ task) allowed).finish _
  | @put _ object kind len version =>
    apply (ok.setOrigin object (some ⟨version, len⟩)).spawn
    have knows : (s.setOrigin object (some ⟨version, len⟩)).Knows object
        ⟨⟨version, len⟩, (s.origin object).position + 1⟩ := by
      simp [Knows, State.setOrigin, Timeline.set, Timeline.at?, Timeline.position]
    cases kind <;> exact knows
  | @evict _ object _ _ seen task =>
    have knows : s.Knows object seen := ok.tasks _ _ task
    exact ok.spawn knows
  | @writeStore _ object _ _ seen task allowed =>
    have knows : s.Knows object seen := ok.tasks _ _ task
    apply (ok.storeVersion knows allowed).spawn
    exact ⟨(later_storeVersion allowed).knows knows, by simp [State.storeVersion]⟩
  | @written id object _ len seen task =>
    obtain ⟨knows, stored⟩ := ok.tasks _ _ task
    have done := ok.finish id
    refine ⟨done.cached, ?_, fun j t found => ?_⟩
    · intro w mem
      obtain rfl | before := List.mem_cons.mp mem
      · exact ⟨⟨seen.stat.len, knows⟩, stored⟩
      · exact ⟨(ok.returned w before).put, (ok.returned w before).stored⟩
    · have later : Later (s.finish id) { s.finish id with
          returned := ⟨object, seen.stat.version, seen.position⟩ :: s.returned } := .of_eq rfl rfl
      exact later.taskOk (done.tasks j t found)
  | delete => exact (ok.setOrigin _ none).spawn trivial
  | invalidate => exact (ok.invalidateVersion _).finish _

theorem State.Idle.ok {s : State} (idle : s.Idle) : s.Ok where
  cached object entry found := by
    rw [idle.cache] at found
    cases found
  returned w mem := by
    rw [idle.returned] at mem
    cases mem
  tasks id t found := by
    rw [idle.tasks] at found
    cases found

/-- Read-your-writes while results are stored in the origin's order: a read that started after a
write returned resolves to what the origin held when it applied the PUT, or later. -/
theorem resolved_since_write {ttl : Nat} {s t : State} (idle : s.Idle)
    (run : ReflTransGen (Step ttl InOrder) s t) {id : Nat} {object : ObjectId}
    {began : List Written} {force : Bool} {stat : ObjectStat}
    (resolved : t.tasks id = some (.read object began (.serve force stat))) {w : Written}
    (earlier : w ∈ began) (same : w.object = object) :
    (∃ len, (t.origin object).at? w.position = some (some ⟨w.version, len⟩)) ∧
      (t.origin object).HeldSince w.position (some stat) := by
  have ok : t.Ok := Transition.kept_by_run (fun _ _ step => step.keeps_ok) idle.ok run
  obtain ⟨applied, current⟩ := ok.tasks _ _ resolved
  exact ⟨same ▸ (applied w earlier).put, current w earlier same⟩

/-! ## A late result -/

def sampleStat (name : String) : ObjectStat := ⟨name.toList, 1⟩

def sampleStart : State where
  origin _ := ⟨[], some (sampleStat "v0")⟩
  cache := PartialMap.empty
  now := 0
  tasks := PartialMap.empty
  stored _ := 0
  returned := []

theorem sampleStart_idle : sampleStart.Idle := ⟨rfl, rfl, rfl⟩

def sampleWrite (name : String) (position : Nat) : Written := ⟨sampleObject, name.toList, position⟩

/-- A read that asked the origin before two writes stores its answer after both returned: a read
that starts then resolves to the version the first of them replaced. -/
theorem resolved_replaced_by_late_store :
    ∃ (t : State) (began : List Written) (stat : ObjectStat) (w : Written),
      sampleStart.Idle ∧ ReflTransGen (Step 60 fun _ _ _ => True) sampleStart t ∧
      t.tasks 2 = some (.read sampleObject began (.serve false stat)) ∧
      w ∈ began ∧ w.object = sampleObject ∧
      (t.origin sampleObject).at? w.position = some (some ⟨w.version, 1⟩) ∧
      (∀ q, (t.origin sampleObject).at? q = some (some stat) → q + 1 < w.position) := by
  have asked := ((ReflTransGen.refl.tail
    (@Step.beginRead 60 (fun _ _ _ => True) sampleStart 0 sampleObject rfl)).tail
    (@Step.miss _ _ _ 0 sampleObject [] false rfl (Or.inr rfl))).tail
    (@Step.readHead _ _ _ 0 sampleObject [] false ⟨sampleStat "v0", 0⟩ rfl rfl rfl)
  have first := (((asked.tail
    (@Step.beginWrite _ _ _ 1 sampleObject .inline 1 rfl)).tail
    (@Step.put _ _ _ 1 sampleObject .inline 1 "v1".toList rfl)).tail
    (@Step.writeStore _ _ _ 1 sampleObject .inline 1 ⟨sampleStat "v1", 1⟩ rfl trivial)).tail
    (@Step.written _ _ _ 1 sampleObject .inline 1 ⟨sampleStat "v1", 1⟩ rfl)
  have second := (((first.tail
    (@Step.beginWrite _ _ _ 1 sampleObject .inline 1 rfl)).tail
    (@Step.put _ _ _ 1 sampleObject .inline 1 "v2".toList rfl)).tail
    (@Step.writeStore _ _ _ 1 sampleObject .inline 1 ⟨sampleStat "v2", 2⟩ rfl trivial)).tail
    (@Step.written _ _ _ 1 sampleObject .inline 1 ⟨sampleStat "v2", 2⟩ rfl)
  have late := ((second.tail
    (@Step.readStore _ _ _ 0 sampleObject [] false ⟨sampleStat "v0", 0⟩ rfl trivial)).tail
    (@Step.beginRead _ _ _ 2 sampleObject rfl)).tail
    (@Step.hit _ _ _ 2 sampleObject [sampleWrite "v2" 2, sampleWrite "v1" 1] (sampleStat "v0")
      rfl rfl)
  refine ⟨_, _, sampleStat "v0", sampleWrite "v2" 2, sampleStart_idle, late, rfl,
    List.mem_cons_self, rfl, rfl, ?_⟩
  intro q held
  have last : q ≤ 2 := Timeline.le_position_of_at? held
  obtain rfl | rfl | rfl : q = 0 ∨ q = 1 ∨ q = 2 := by omega
  · decide
  · exact absurd held (by decide)
  · exact absurd held (by decide)

/-- A write and a read after it: the run stores in order. -/
theorem resolved_since_sample_write :
    ∃ t : State, ReflTransGen (Step 60 InOrder) sampleStart t ∧
      t.tasks 1 = some (.read sampleObject [sampleWrite "v1" 1] (.serve false (sampleStat "v1"))) ∧
      (t.origin sampleObject).HeldSince 1 (some (sampleStat "v1")) := by
  have wrote := (((ReflTransGen.refl.tail
    (@Step.beginWrite 60 InOrder sampleStart 0 sampleObject .file 1 rfl)).tail
    (@Step.put _ _ _ 0 sampleObject .file 1 "v1".toList rfl)).tail
    (@Step.evict _ _ _ 0 sampleObject .file 1 ⟨sampleStat "v1", 1⟩ rfl)).tail
    (@Step.writeStore _ _ _ 0 sampleObject .file 1 ⟨sampleStat "v1", 1⟩ rfl (Nat.zero_le 1))
  have read := ((wrote.tail
    (@Step.written _ _ _ 0 sampleObject .file 1 ⟨sampleStat "v1", 1⟩ rfl)).tail
    (@Step.beginRead _ _ _ 1 sampleObject rfl)).tail
    (@Step.hit _ _ _ 1 sampleObject [sampleWrite "v1" 1] (sampleStat "v1") rfl rfl)
  have resolved := @resolved_since_write 60 sampleStart _ sampleStart_idle read 1 sampleObject
    [sampleWrite "v1" 1] false (sampleStat "v1") rfl (sampleWrite "v1" 1) List.mem_cons_self rfl
  exact ⟨_, read, rfl, resolved.2⟩

end Talon.Worker
