import Talon.Worker.CacheRestart

/-!
# Requests, crashes and restarts on one cache root

The states of a worker that creates namespace directories on request, one file operation at a time,
and is killed, crashes or is started again at any point.
-/

set_option autoImplicit false

namespace Talon.Worker

open Talon.Core Relation List PathTree Option

inductive RootPhase
  | down
  | starting
  | serving
deriving DecidableEq

/-- `todo` is what is left of the opening that holds the `initialize` mutex, or of the namespace a
start is at; `names` are the namespaces the start has still to open. -/
structure RootWorld where
  disk : Disk
  unsynced : Set Path
  workers : Nat
  phase : RootPhase
  todo : List RootOp
  names : List Str

namespace RootOp

def unsyncedAfter (d : Disk) (unsynced : Set Path) : RootOp → Set Path
  | .sync parent => {q ∈ unsynced | ∀ n, q ≠ parent ++ [n]}
  | op =>
    match op.target with
    | some (p, n, _) => if d (p ++ [n]) = none then insert (p ++ [n]) unsynced else unsynced
    | none => unsynced

/-- A node that was made is followed by a sync of its directory. -/
def syncs (d : Disk) (op : RootOp) : List RootOp :=
  match op.target with
  | some (p, n, _) => if d (p ++ [n]) = none then [.sync p] else []
  | none => []

end RootOp

/-- A worker that has opened its namespaces, on a disk with nothing unsynced. -/
def serving (c : Cache) : RootWorld := ⟨c.disk, ∅, c.workers, .serving, [], []⟩

/-- The steps of the worker, where requests name only `Allowed` namespaces. -/
inductive RootStep (cfg : RootConfig) (Allowed : Str → Prop) : RootWorld → RootWorld → Prop
  /-- A request that finds no runtime opens one. -/
  | request {w} (name : Str) (scope : Option AccessScope) (up : w.phase = .serving)
      (idle : w.todo = []) (accepted : Accepted name) (allowed : Allowed name) :
      RootStep cfg Allowed w { w with todo := openOps cfg name (scope.map (·.value)) }
  | op {w op rest c} (todo : w.todo = op :: rest) (ok : op.run ⟨w.disk, w.workers⟩ = .ok c) :
      RootStep cfg Allowed w { w with
        disk := c.disk
        workers := c.workers
        unsynced := op.unsyncedAfter w.disk w.unsynced
        todo := op.syncs w.disk ++ rest }
  /-- A check or the operating system refuses. -/
  | failed {w op rest} (todo : w.todo = op :: rest) :
      RootStep cfg Allowed w { w with
        phase := if w.phase = .starting then .down else w.phase
        todo := []
        names := [] }
  /-- The stores of the runtimes change what is inside their directories. -/
  | stored {w} (disk : Disk) (unsynced : Set Path) (closed : PathTree.Closed disk)
      (frame : ∀ p, ¬Inside p → disk p = w.disk p)
      (fresh : ∀ p ∈ unsynced, p ∈ w.unsynced ∨ Inside p) :
      RootStep cfg Allowed w { w with disk := disk, unsynced := unsynced }
  | killed {w} :
      RootStep cfg Allowed w { w with phase := .down, todo := [], names := [] }
  | crashed {w} (lost : Set Path) (unsynced : lost ⊆ w.unsynced) :
      RootStep cfg Allowed w { w with
        disk := PathTree.prune w.disk lost
        unsynced := ∅
        phase := .down
        todo := []
        names := [] }
  | start {w l₀ l random id disk found} (down : w.phase = .down)
      (loaded : loadIdentity cfg l₀ random w.disk = .ok (id, disk)) (shows : l.Shows disk)
      (checked : checkCatalog disk = .ok ()) (scanned : scanNames disk l (l []) = .ok found)
      (room : (allNames cfg found).length ≤ maxCacheRuntimes) :
      RootStep cfg Allowed w { w with
        disk := disk
        workers := 0
        phase := .starting
        names := allNames cfg found }
  | next {w l name rest}
      (starting : w.phase = .starting) (idle : w.todo = []) (names : w.names = name :: rest)
      (shows : l.Shows w.disk) (valid : namespaceContext name = .ok name) :
      RootStep cfg Allowed w { w with todo := startOps cfg w.disk l name, names := rest }
  | served {w} (starting : w.phase = .starting) (idle : w.todo = [])
      (names : w.names = []) : RootStep cfg Allowed w { w with phase := .serving }

/-! ## The invariant -/

structure RootInv (cfg : RootConfig) (id : WorkerIdentity) (w : RootWorld) : Prop where
  good : Good cfg id w.disk
  settled : Settled w.disk w.unsynced
  root : [] ∉ w.unsynced
  identity : [identityFile] ∉ w.unsynced
  todo : ∀ op ∈ w.todo, op.Legit cfg
  names : ∀ name ∈ w.names, name ≠ resetMarker

section Steps

variable {cfg : RootConfig} {id : WorkerIdentity} {d : Disk} {unsynced : Set Path}

variable (settled : Settled d unsynced)

include settled in
theorem Settled.mono {fewer : Set Path} (less : fewer ⊆ unsynced) : Settled d fewer := by
  intro name accepted dir
  obtain only | ⟨n, inner, found, synced⟩ := settled name accepted dir
  · exact .inl only
  · exact .inr ⟨n, inner, found, fun mem => synced (less mem)⟩

variable {x : PathTree.Node Content}

theorem Layout.at_namespace {name n : Str} (here : Layout cfg [name] n x) :
    n = sharedDirectory ∨ n = scopesDirectory := by
  generalize same : ([name] : Path) = p at here
  cases here with
  | shared => exact .inl rfl
  | scopes => exact .inr rfl
  | root | scope => simp at same
  | geometry scope => cases scope <;> simp [cacheDir] at same

include settled

theorem Settled.add (closed : PathTree.Closed d) {p : Path} {n : Str} (here : Layout cfg p n x)
    (absent : d (p ++ [n]) = none) : Settled (add d (p ++ [n]) x) (insert (p ++ [n]) unsynced) := by
  intro name accepted dir
  obtain ⟨rfl, rfl, _⟩ | before := add_entry (q := []) dir
  · -- the namespace is new, so nothing is in it
    left
    intro n exist
    obtain ⟨y, found⟩ := ne_none_iff_exists'.mp exist
    obtain ⟨top, _⟩ | inside := add_entry (q := [name]) found
    · cases top
    · have parent := closed.parent (p := [name]) inside
      exact nomatch absent.symm.trans parent
  · obtain only | ⟨m, inner, found, synced⟩ := settled name accepted before
    · left
      intro m exist
      obtain ⟨y, found⟩ := ne_none_iff_exists'.mp exist
      obtain ⟨rfl, rfl, _⟩ | inside := add_entry (q := [name]) found
      · exact here.at_namespace
      · exact only m (ne_none_iff_exists'.mpr ⟨y, inside⟩)
    · refine .inr ⟨m, inner, add_of_some absent found, ?_⟩
      rintro (same | mem)
      · rw [← same] at absent
        exact nomatch absent.symm.trans found
      · exact synced mem

theorem Settled.prune {lost : Set Path} (less : lost ⊆ unsynced) : Settled (prune d lost) ∅ := by
  intro name accepted dir
  obtain ⟨before, above⟩ := prune_some dir
  obtain only | ⟨n, inner, found, synced⟩ := settled name accepted before
  · exact .inl fun n exist => only n fun absent => exist (prune_none absent)
  · refine .inr ⟨n, inner, ?_, nofun⟩
    rw [prune_of_kept]
    · exact found
    · intro q mem inside
      have ends : q = [name] ++ [n] ∨ q <+: [name] := prefix_concat_iff.mp inside
      obtain rfl | shorter := ends
      · exact synced (less mem)
      · exact above q mem shorter

theorem Settled.frame {d' : Disk} {others : Set Path} (frame : ∀ p, ¬Inside p → d' p = d p)
    (fresh : ∀ p ∈ others, p ∈ unsynced ∨ Inside p) : Settled d' others := by
  intro name accepted dir
  have outer : ∀ n, d' [name, n] = d [name, n] := fun n => frame _ (not_inside_short (by simp))
  rw [frame _ (not_inside_short (by simp))] at dir
  obtain only | ⟨n, inner, found, synced⟩ := settled name accepted dir
  · exact .inl fun n exist => only n (by rwa [← outer n])
  · refine .inr ⟨n, inner, (outer n).trans found, fun mem => ?_⟩
    exact (fresh _ mem).elim synced (not_inside_short (by simp))

omit settled

theorem RootOp.unsyncedAfter_done {op : RootOp} (done : op.Done d) :
    op.unsyncedAfter d unsynced ⊆ unsynced := by
  have of_target : ∀ p n x, op.target = some (p, n, x) → d (p ++ [n]) ≠ none :=
    fun p n x target => ne_none_iff_exists'.mpr ⟨x, done.target p n x target⟩
  cases op with
  | dir parent name =>
    simp only [unsyncedAfter, target, if_neg (of_target parent name .dir rfl)]
    exact fun _ mem => mem
  | geometry leaf =>
    simp only [unsyncedAfter, target, if_neg (of_target leaf geometryFile _ rfl)]
    exact fun _ mem => mem
  | sync => exact fun _ mem => mem.1
  | parse | limit | publish => exact fun _ mem => mem

theorem legit_syncs {op : RootOp} : ∀ op' ∈ op.syncs d, op'.Legit cfg := by
  intro _ mem
  unfold RootOp.syncs at mem
  split at mem
  · split at mem
    · rw [mem_singleton.mp mem]
      exact legit_of_target_none rfl nofun
    · cases mem
  · cases mem

theorem RootInv.op {w : RootWorld} (inv : RootInv cfg id w) {op : RootOp} {rest : List RootOp}
    {c : Cache} (todo : w.todo = op :: rest) (ok : op.run ⟨w.disk, w.workers⟩ = .ok c) :
    RootInv cfg id { w with
      disk := c.disk
      workers := c.workers
      unsynced := op.unsyncedAfter w.disk w.unsynced
      todo := op.syncs w.disk ++ rest } := by
  have legit : op.Legit cfg := inv.todo op (by rw [todo]; exact mem_cons_self)
  have next : ∀ op' ∈ op.syncs w.disk ++ rest, op'.Legit cfg := by
    intro op' mem
    obtain mem | mem := mem_append.mp mem
    · exact legit_syncs op' mem
    · exact inv.todo op' (by rw [todo]; exact mem_cons_of_mem _ mem)
  have good := inv.good.run legit rfl ok
  obtain ⟨same, done⟩ | ⟨p, n, x, target, absent, _, made⟩ := RootOp.run_ok ok
  · have less : op.unsyncedAfter w.disk w.unsynced ⊆ w.unsynced := RootOp.unsyncedAfter_done done
    refine ⟨good, ?_, fun mem => inv.root (less mem), fun mem => inv.identity (less mem), next,
      inv.names⟩
    rw [same]
    exact inv.settled.mono less
  · have after : op.unsyncedAfter w.disk w.unsynced = insert (p ++ [n]) w.unsynced := by
      cases op with
      | dir | geometry =>
        cases target
        simp [RootOp.unsyncedAfter, RootOp.target, if_pos absent]
      | sync | parse | limit | publish => cases target
    refine ⟨good, ?_, ?_, ?_, next, inv.names⟩
    · rw [made, after]
      exact inv.settled.add inv.good.closed (legit.target p n x target) absent
    · rw [after]
      rintro (same | mem)
      · simp at same
      · exact inv.root mem
    · rw [after]
      rintro (same | mem)
      · rw [← same] at absent
        cases absent.symm.trans inv.good.identity
      · exact inv.identity mem

/-- Every step keeps the root in order, if no request names the reset marker. -/
theorem rootInv_step {Allowed : Str → Prop} (unmarked : ∀ name, Allowed name → name ≠ resetMarker)
    (fits : Fits cfg id) {w w' : RootWorld} (step : RootStep cfg Allowed w w')
    (inv : RootInv cfg id w) : RootInv cfg id w' := by
  cases step with
  | request name scope _ _ accepted allowed =>
    refine { inv with todo := ?_ }
    refine legit_openOps accepted (unmarked name allowed) fun s mem => ?_
    obtain ⟨scope, _, rfl⟩ := map_eq_some_iff.mp mem
    exact scope.parses
  | op todo ok => exact inv.op todo ok
  | failed | killed => exact { inv with todo := nofun, names := nofun }
  | stored _ _ closed frame fresh =>
    refine { inv with
      good := inv.good.frame closed frame
      settled := inv.settled.frame frame fresh
      root := fun mem => ?_
      identity := fun mem => ?_ }
    · exact (fresh _ mem).elim inv.root (not_inside_short (by simp))
    · exact (fresh _ mem).elim inv.identity (not_inside_short (by simp))
  | crashed _ less =>
    exact ⟨inv.good.prune (fun mem => inv.root (less mem)) (fun mem => inv.identity (less mem)),
      inv.settled.prune less, nofun, nofun, nofun, nofun⟩
  | start _ loaded _ _ scanned _ =>
    obtain ⟨rfl, rfl⟩ :=
      Prod.mk.inj (Except.ok.inj ((inv.good.loadIdentity fits _).symm.trans loaded))
    refine { inv with names := fun name mem => ?_ }
    obtain isDefault | isConfigured | isFound := mem_allNames.mp mem
    · exact (fits.names name (.inl isDefault)).2
    · exact (fits.names name (.inr isConfigured)).2
    · rintro rfl
      obtain ⟨_, cand⟩ := (mem_scanNames scanned).mp isFound
      exact nomatch inv.good.vacant.1.symm.trans (inv.good.candidates _ cand).2
  | @next l name _ _ _ names shows valid =>
    refine { inv with
      todo := legit_startOps valid ?_ fun _ s listed => ?_
      names := fun name' mem => inv.names name' ?_ }
    · exact inv.names name (by rw [names]; exact mem_cons_self)
    · exact inv.good.scopes name s valid ((shows _ s).mp listed)
    · rw [names]
      exact mem_cons_of_mem _ mem
  | served => exact { inv with }

end Steps

/-! ## Every run -/

theorem rootInv_serving {cfg : RootConfig} {id : WorkerIdentity} {l₀ l : Listing} {random : Str}
    {d₀ d₁ : Disk} {c : Cache} (configured : resetMarker ∉ cfg.namespaces)
    (tree : PathTree.Closed d₀) (root : d₀ [] = some .dir)
    (loaded : loadIdentity cfg l₀ random d₀ = .ok (id, d₁)) (shows : l.Shows d₁)
    (opened : openNamespaces cfg l d₁ = .ok c) : Fits cfg id ∧ RootInv cfg id (serving c) := by
  obtain ⟨owned, unmarked, geometry⟩ := loadIdentity_ok loaded
  obtain ⟨cluster, node, owner, identity, written⟩ := loadIdentityOwner_ok owned
  have closed : PathTree.Closed d₁ := by
    obtain rfl | ⟨absent, rfl⟩ := written
    · exact tree
    · exact PathTree.Closed.add (p := []) tree absent root
  have root₁ : d₁ [] = some .dir := by
    obtain rfl | ⟨absent, rfl⟩ := written
    · exact root
    · exact add_of_some absent root
  obtain ⟨uncatalogued, _, all⟩ := opened_of_ok closed shows unmarked configured opened
  refine ⟨⟨cluster, node, owner, geometry, fun name given => ?_⟩, ?_⟩
  · have mem := all.listed name (given.elim .inl fun configured => .inr (.inl configured))
    obtain ⟨accepted, unmarked, _⟩ := all.started name mem
    exact ⟨accepted, unmarked⟩
  · exact ⟨all.good closed shows root₁ identity ⟨unmarked, uncatalogued⟩, all.settled, nofun, nofun,
      nofun, nofun⟩

/-- Root-level names that the worker gives a meaning of its own. -/
def rootNames : List Str := [lockFile, identityFile, resetMarker, catalogDirectory]

theorem accepted_not_rootName {name : Str} (accepted : Accepted name)
    (unmarked : name ≠ resetMarker) : name ∉ rootNames := by
  have free := accepted.not_reserved
  intro mem
  simp only [rootNames, mem_cons, not_mem_nil, or_false] at mem
  obtain rfl | rfl | rfl | rfl := mem
  · exact free (by decide)
  · exact free (by decide)
  · exact unmarked rfl
  · exact free (by decide)

/-- A worker that started once starts again after any run in which no namespace is named like the
reset marker. -/
theorem restarts_after_run {cfg : RootConfig} {Allowed : Str → Prop} {id : WorkerIdentity}
    {l₀ l : Listing} {random : Str} {d₀ d₁ : Disk} {c : Cache} {w : RootWorld}
    (plain : ∀ name, Allowed name → name ≠ resetMarker ∧ ¬identityTemporary <+: name)
    (configured : resetMarker ∉ cfg.namespaces) (tree : PathTree.Closed d₀)
    (root : d₀ [] = some .dir) (loaded : loadIdentity cfg l₀ random d₀ = .ok (id, d₁))
    (shows : l.Shows d₁) (opened : openNamespaces cfg l d₁ = .ok c)
    (run : ReflTransGen (RootStep cfg Allowed) (serving c) w) :
    (∀ l random, loadIdentity cfg l random w.disk = .ok (id, w.disk)) ∧
      (∀ l : Listing, l.Shows w.disk → ∀ what,
        openNamespaces cfg l w.disk ≠ .error (.incompatible what)) ∧
      ∀ name, Accepted name → Allowed name → name ∉ rootNames ∧ ¬identityTemporary <+: name := by
  obtain ⟨fits, start⟩ := rootInv_serving configured tree root loaded shows opened
  have inv : RootInv cfg id w := Transition.kept_by_run
    (fun _ _ step => rootInv_step (fun name allowed => (plain name allowed).1) fits step) start run
  refine ⟨fun l random => inv.good.loadIdentity fits random, fun l shows what => ?_, ?_⟩
  · exact inv.good.openNamespaces fits inv.settled shows what
  · intro name accepted allowed
    obtain ⟨unmarked, notTemporary⟩ := plain name allowed
    exact ⟨accepted_not_rootName accepted unmarked, notTemporary⟩

/-! ## A root in use -/

def sampleConfig : RootConfig where
  clusterId := "c".toList
  nodeId := none
  blockSize := 64
  pageSize := 16
  namespaces := []
  geometry _ := (64, 16)

def sampleIdentity : WorkerIdentity := ⟨1, "c".toList, "00".toList, 64, 16⟩

def emptyRoot : Disk := fun p => if p = [] then some .dir else none

def freshRoot : Disk := PathTree.add emptyRoot [identityFile] (.file (.identity sampleIdentity))

def freshListing : Listing := fun p => if p = [] then [identityFile] else []

theorem emptyRoot_closed : PathTree.Closed emptyRoot := by
  intro p n exist
  simp [emptyRoot] at exist

theorem freshListing_shows : freshListing.Shows freshRoot := by
  intro p n
  by_cases top : p = []
  · subst top
    by_cases same : n = identityFile
    · simp [same, freshListing, freshRoot, add]
    · simp [same, freshListing, freshRoot, add, emptyRoot]
  · have other : p ++ [n] ≠ [identityFile] := by
      intro same
      have ends : p ++ [n] = [] ++ [identityFile] := same
      exact top (append_inj' ends rfl).1
    simp [freshListing, top, freshRoot, add, other, emptyRoot]

theorem freshRoot_loaded :
    loadIdentity sampleConfig (fun _ => []) "00".toList emptyRoot = .ok (sampleIdentity,
      freshRoot) := by
  rfl

def sampleCache : Cache where
  disk := PathTree.add (PathTree.add (PathTree.add freshRoot [defaultNamespace] .dir)
    [defaultNamespace, sharedDirectory] .dir) [defaultNamespace, sharedDirectory, geometryFile]
      (.file (.geometry 64 16))
  workers := 1

theorem freshRoot_opened :
    openNamespaces sampleConfig freshListing freshRoot = .ok sampleCache := by
  rfl

/-- A request for the namespace `a` that is killed after the first directory. -/
theorem restarts_after_request :
    ∃ w, ReflTransGen (RootStep sampleConfig (· = "a".toList)) (serving sampleCache) w ∧
      w.disk ["a".toList] = some .dir ∧ w.phase = .down ∧
      (∀ l random, loadIdentity sampleConfig l random w.disk = .ok (sampleIdentity, w.disk)) ∧
      ∀ l : Listing, l.Shows w.disk → ∀ what,
        openNamespaces sampleConfig l w.disk ≠ .error (.incompatible what) := by
  have asked := ReflTransGen.refl.tail (@RootStep.request sampleConfig (· = "a".toList)
    (serving sampleCache) "a".toList none rfl rfl rfl rfl)
  have admitted := asked.tail (@RootStep.op _ _ _ _ _ _ rfl rfl)
  have made := admitted.tail (@RootStep.op _ _ _ _ _ _ rfl rfl)
  have dead := made.tail (@RootStep.killed ..)
  have plain : ∀ name, name = "a".toList → name ≠ resetMarker ∧ ¬identityTemporary <+: name := by
    rintro _ rfl
    decide
  obtain ⟨loads, opens, _⟩ := restarts_after_run plain (by decide) emptyRoot_closed rfl
    freshRoot_loaded freshListing_shows freshRoot_opened dead
  exact ⟨_, dead, rfl, rfl, loads, opens⟩

/-- The reset marker is an accepted namespace: after a request for it the worker takes its cache
for one whose reset was interrupted. -/
theorem reset_marker_namespace_blocks_restart :
    Accepted resetMarker ∧ Accepted (identityTemporary ++ "x".toList) ∧
    loadIdentity sampleConfig (fun _ => []) "00".toList emptyRoot =
      .ok (sampleIdentity, freshRoot) ∧
    openNamespaces sampleConfig freshListing freshRoot = .ok sampleCache ∧
    ∃ w, ReflTransGen (RootStep sampleConfig fun _ => True) (serving sampleCache) w ∧
      ∀ l random, loadIdentity sampleConfig l random w.disk = .error (.incompatible
        "interrupted cache reset; enable reset_incompatible_cache to finish".toList) := by
  have asked := ReflTransGen.refl.tail (@RootStep.request sampleConfig (fun _ => True)
    (serving sampleCache) resetMarker none rfl rfl rfl trivial)
  have admitted := asked.tail (@RootStep.op _ _ _ _ _ _ rfl rfl)
  have made := admitted.tail (@RootStep.op _ _ _ _ _ _ rfl rfl)
  exact ⟨rfl, rfl, freshRoot_loaded, freshRoot_opened, _, made, fun l random => rfl⟩

end Talon.Worker
