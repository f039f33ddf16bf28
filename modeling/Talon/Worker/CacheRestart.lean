import Talon.Lib.Transition
import Talon.Worker.CacheRoot

/-!
# Restarting on a cache root that requests have changed

A worker that started once serves requests that create namespace directories, and dies at any
point.  The invariant says what the tree below the cache root can look like; it is what a start
establishes and what the next start needs.
-/

set_option autoImplicit false

namespace Talon.Worker

open Talon.Core Relation List Option Fallible PathTree RootOp
open PathTree (prune_none prune_some)

/-! ## The layout of the root -/

/-- What the worker puts where. -/
inductive Layout (cfg : RootConfig) : Path → Str → PathTree.Node Content → Prop
  | root {name} (accepted : Accepted name) (unmarked : name ≠ resetMarker) :
      Layout cfg [] name .dir
  | shared {name} (accepted : Accepted name) : Layout cfg [name] sharedDirectory .dir
  | scopes {name} (accepted : Accepted name) : Layout cfg [name] scopesDirectory .dir
  | scope {name scope} (accepted : Accepted name) (parses : isAccessScope scope = true) :
      Layout cfg [name, scopesDirectory] scope .dir
  | geometry {name} (scope : Option Str) (accepted : Accepted name) :
      Layout cfg (cacheDir name scope) geometryFile
        (.file (.geometry (cfg.geometry name).1 (cfg.geometry name).2))

theorem shared_ne_scopes : sharedDirectory ≠ scopesDirectory := by decide

variable {name : Str} {scope : Option Str} {c : Cache}

theorem cacheDir_injective {name' : Str} {scope' : Option Str}
    (same : cacheDir name scope = cacheDir name' scope') : name = name' ∧ scope = scope' := by
  cases scope <;> cases scope' <;> simp_all [cacheDir]

section Layout

variable {cfg : RootConfig} {p : Path} {n : Str} {x y : PathTree.Node Content}

theorem Layout.leaf (here : Layout cfg (cacheDir name scope) n x) :
    n = geometryFile ∧
      x = .file (.geometry (cfg.geometry name).1 (cfg.geometry name).2) := by
  generalize same : cacheDir name scope = p at here
  cases here with
  | geometry =>
    obtain ⟨rfl, _⟩ := cacheDir_injective same
    exact ⟨rfl, rfl⟩
  | root | shared | scopes => cases scope <;> simp [cacheDir] at same
  | scope =>
    cases scope with
    | none =>
      simp only [cacheDir, cons.injEq] at same
      exact absurd same.2.1 shared_ne_scopes
    | some => simp [cacheDir] at same

theorem Layout.dir_or_leaf (here : Layout cfg p n x) :
    x = .dir ∨ ∃ name scope, p = cacheDir name scope := by
  cases here with
  | root | shared | scopes | scope => exact .inl rfl
  | geometry scope => exact .inr ⟨_, scope, rfl⟩

theorem Layout.unique (one : Layout cfg p n x) (other : Layout cfg p n y) : x = y := by
  obtain xDir | ⟨name, scope, rfl⟩ := one.dir_or_leaf
  · obtain yDir | ⟨_, _, rfl⟩ := other.dir_or_leaf
    · exact xDir.trans yDir.symm
    · exact one.leaf.2.trans other.leaf.2.symm
  · exact one.leaf.2.trans other.leaf.2.symm

structure RootOp.Legit (cfg : RootConfig) (op : RootOp) : Prop where
  target : ∀ p n x, op.target = some (p, n, x) → Layout cfg p n x
  parse : ∀ s, op = .parse s → isAccessScope s = true

theorem legit_of_target_none {op : RootOp} (none : op.target = none)
    (other : ∀ s, op ≠ .parse s) : op.Legit cfg :=
  ⟨fun _ _ _ some => (nomatch none.symm.trans some), fun s same => absurd same (other s)⟩

theorem legit_dir (here : Layout cfg p n .dir) : (dir p n).Legit cfg :=
  ⟨fun _ _ _ target => by cases target; exact here, nofun⟩

theorem legit_openOps (accepted : Accepted name) (unmarked : name ≠ resetMarker)
    (parses : ∀ s ∈ scope, isAccessScope s = true) :
    ∀ op ∈ openOps cfg name scope, op.Legit cfg := by
  have geometry : (geometry (cacheDir name scope) (cfg.geometry name)).Legit cfg :=
    ⟨fun _ _ _ target => by cases target; exact .geometry scope accepted, nofun⟩
  have limit : limit.Legit cfg := legit_of_target_none rfl nofun
  have publish : publish.Legit cfg := legit_of_target_none rfl nofun
  have root := legit_dir (Layout.root accepted unmarked : Layout cfg [] name .dir)
  cases scope with
  | none =>
    simp only [openOps, cons_append, nil_append, forall_mem_cons]
    exact ⟨limit, root, legit_dir (.shared accepted), geometry, publish, nofun⟩
  | some scope =>
    simp only [openOps, cons_append, nil_append, forall_mem_cons]
    exact ⟨limit, root, legit_dir (.scopes accepted),
      legit_dir (.scope accepted (parses scope rfl)), geometry, publish, nofun⟩

theorem legit_startOps {d : Disk} {l : Listing} (accepted : Accepted name)
    (unmarked : name ≠ resetMarker) (parses : (d [name, scopesDirectory]).isSome →
      ∀ s ∈ l [name, scopesDirectory], isAccessScope s = true) :
    ∀ op ∈ startOps cfg d l name, op.Legit cfg := by
  intro op mem
  simp only [startOps, cons_append, mem_cons, mem_append] at mem
  obtain rfl | mem | mem := mem
  · exact legit_dir (.root accepted unmarked)
  · split at mem
    · exact legit_openOps accepted unmarked (fun s none => absurd none (not_mem_none s)) op mem
    · cases mem
  · split at mem
    · rename_i hasScopes
      obtain rfl | mem := mem_cons.mp mem
      · exact legit_dir (.scopes accepted)
      · obtain ⟨s, listed, mem⟩ := mem_flatMap.mp mem
        have good := parses hasScopes s listed
        obtain rfl | mem := mem_cons.mp mem
        · exact ⟨nofun, fun s' same => by cases same; exact good⟩
        · refine legit_openOps accepted unmarked (fun s' same => ?_) op mem
          cases same
          exact good
    · cases mem

end Layout

/-! ## The invariant of the tree -/

structure Fits (cfg : RootConfig) (id : WorkerIdentity) : Prop where
  cluster : isBlank cfg.clusterId = false
  node : cfg.nodeId.any isBlank = false
  owner : checkOwner cfg id = .ok id
  geometry : id.blockSize = cfg.blockSize ∧ id.pageSize = cfg.pageSize
  names : ∀ name, name = defaultNamespace ∨ name ∈ cfg.namespaces →
    Accepted name ∧ name ≠ resetMarker

def Vacant (d : Disk) : Prop := d [resetMarker] = none ∧ d [catalogDirectory] = none

structure Good (cfg : RootConfig) (id : WorkerIdentity) (d : Disk) : Prop where
  closed : PathTree.Closed d
  root : d [] = some .dir
  identity : d [identityFile] = some (.file (.identity id))
  vacant : Vacant d
  candidates : ∀ name, IsCandidate d name → Accepted name ∧ d [name] = some .dir
  configured : ∀ name, name = defaultNamespace ∨ name ∈ cfg.namespaces →
    ∀ y, d [name] = some y → y = .dir
  layout : ∀ p n x, p ≠ [] → Layout cfg p n x → ∀ y, d (p ++ [n]) = some y → y = x
  scopes : ∀ name s, Accepted name → d [name, scopesDirectory, s] ≠ none → isAccessScope s = true

variable {n : Str} {p : Path}

section Good

variable {cfg : RootConfig} {id : WorkerIdentity} {d : Disk}

variable {x : PathTree.Node Content}

theorem Layout.at_root (here : Layout cfg [] n x) : Accepted n ∧ n ≠ resetMarker ∧ x = .dir := by
  generalize same : ([] : Path) = p at here
  cases here with
  | root accepted unmarked => exact ⟨accepted, unmarked, rfl⟩
  | shared | scopes | scope => cases same
  | geometry scope => cases scope <;> simp [cacheDir] at same

/-- What the worker puts into the root leaves the two names free. -/
theorem Vacant.of_origin {d' : Disk} (vacant : Vacant d)
    (origin : ∀ {name} y, d' [name] = some y → d [name] = some y ∨ ∃ cfg, Layout cfg [] name y) :
    Vacant d' := by
  refine ⟨?_, ?_⟩
  · by_contra marked
    obtain ⟨y, found⟩ := ne_none_iff_exists'.mp marked
    obtain before | ⟨_, here⟩ := origin y found
    · exact nomatch vacant.1.symm.trans before
    · exact here.at_root.2.1 rfl
  · by_contra catalogued
    obtain ⟨y, found⟩ := ne_none_iff_exists'.mp catalogued
    obtain before | ⟨_, here⟩ := origin y found
    · exact nomatch vacant.2.symm.trans before
    · exact here.at_root.1.not_reserved (by decide)

theorem Layout.at_scopes {s : Str} (here : Layout cfg [name, scopesDirectory] s x) :
    isAccessScope s = true := by
  generalize same : ([name, scopesDirectory] : Path) = p at here
  cases here with
  | scope _ parses => exact parses
  | root | shared | scopes => simp at same
  | geometry scope =>
    cases scope with
    | none =>
      simp only [cacheDir, cons.injEq] at same
      exact absurd same.2.1.symm shared_ne_scopes
    | some => simp [cacheDir] at same

theorem Good.add (good : Good cfg id d) (here : Layout cfg p n x) (absent : d (p ++ [n]) = none)
    (parent : d p = some .dir) : Good cfg id (add d (p ++ [n]) x) where
  closed := good.closed.add absent parent
  root := add_of_some absent good.root
  identity := add_of_some absent good.identity
  vacant := good.vacant.of_origin fun y found => by
    obtain ⟨rfl, rfl, rfl⟩ | before := add_entry (q := []) found
    · exact .inr ⟨cfg, here⟩
    · exact .inl before
  candidates := by
    intro name ⟨notLost, entry⟩
    obtain ⟨y, found⟩ : ∃ y, PathTree.add d (p ++ [n]) x [name] = some y :=
      entry.elim (fun dir => ⟨_, dir⟩) (fun link => ⟨_, link⟩)
    obtain ⟨rfl, rfl, _⟩ | before := PathTree.add_entry (q := []) found
    · obtain ⟨accepted, _, rfl⟩ := here.at_root
      exact ⟨accepted, add_self⟩
    · have before' : d [name] = some y := before
      rw [found, ← before'] at entry
      obtain ⟨accepted, dir⟩ := good.candidates name ⟨notLost, entry⟩
      exact ⟨accepted, add_of_some absent dir⟩
  configured := by
    intro name listed y found
    obtain ⟨rfl, _, rfl⟩ | before := add_entry (q := []) found
    · exact here.at_root.2.2
    · exact good.configured name listed y before
  layout := by
    intro q m z inner there y found
    obtain ⟨rfl, rfl, rfl⟩ | before := add_entry found
    · exact here.unique there
    · exact good.layout q m z inner there y before
  scopes := by
    intro name s accepted exist
    obtain ⟨y, found⟩ := ne_none_iff_exists'.mp exist
    obtain ⟨rfl, rfl, _⟩ | before := add_entry (q := [name, scopesDirectory]) found
    · exact here.at_scopes
    · exact good.scopes name s accepted (ne_none_iff_exists'.mpr ⟨y, before⟩)

theorem Good.run (good : Good cfg id d) {op : RootOp} (legit : op.Legit cfg) {c' : Cache}
    (same : c.disk = d) (ok : op.run c = .ok c') : Good cfg id c'.disk := by
  obtain ⟨kept, _⟩ | ⟨p, n, x, target, absent, parent, made⟩ := run_ok ok
  · rw [kept, same]
    exact good
  · rw [same] at absent parent
    rw [made, same]
    exact good.add (legit.target p n x target) absent parent

theorem Good.prune (good : Good cfg id d) {lost : Set Path} (root : [] ∉ lost)
    (durable : [identityFile] ∉ lost) : Good cfg id (PathTree.prune d lost) where
  closed := good.closed.prune
  root := by
    rw [PathTree.prune_of_kept]
    · exact good.root
    · intro q mem inside
      rw [prefix_nil.mp inside] at mem
      exact root mem
  identity := by
    rw [PathTree.prune_of_kept]
    · exact good.identity
    · intro q mem inside
      have ends : q = [] ++ [identityFile] ∨ q <+: [] := prefix_concat_iff.mp inside
      obtain rfl | same := ends
      · exact durable mem
      · rw [prefix_nil.mp same] at mem
        exact root mem
  vacant := ⟨prune_none good.vacant.1, prune_none good.vacant.2⟩
  candidates := by
    intro name ⟨notLost, entry⟩
    have before : d [name] = PathTree.prune d lost [name] := by
      rcases entry with dir | link
      · rw [dir, (prune_some dir).1]
      · rw [link, (prune_some link).1]
    rw [← before] at entry
    obtain ⟨accepted, dir⟩ := good.candidates name ⟨notLost, entry⟩
    exact ⟨accepted, before.symm.trans dir⟩
  configured name listed y found := good.configured name listed y (prune_some found).1
  layout p n x inner here y found := good.layout p n x inner here y (prune_some found).1
  scopes name s accepted exist :=
    good.scopes name s accepted fun absent => exist (prune_none absent)

/-- A path inside a runtime's directory, its geometry apart. -/
def Inside (p : Path) : Prop :=
  ∃ name scope rest, p = cacheDir name scope ++ rest ∧ rest ≠ [] ∧ rest ≠ [geometryFile]

theorem not_inside_short (short : p.length ≤ 2) : ¬Inside p := by
  rintro ⟨name, scope, _, rfl, some, _⟩
  have long := length_pos_iff.mpr some
  have leaf : 2 ≤ (cacheDir name scope).length := by cases scope <;> simp [cacheDir]
  rw [length_append] at short
  omega

theorem not_inside_scope (name s : Str) : ¬Inside [name, scopesDirectory, s] := by
  rintro ⟨_, scope, _, same, some, _⟩
  cases scope with
  | none =>
    simp only [cacheDir, cons_append, cons.injEq] at same
    exact shared_ne_scopes same.2.1.symm
  | some =>
    simp only [cacheDir, cons_append, nil_append, cons.injEq] at same
    exact some same.2.2.2.symm

theorem Layout.not_inside (here : Layout cfg p n x) : ¬Inside (p ++ [n]) := by
  cases here with
  | root | shared | scopes => exact not_inside_short (by simp)
  | scope => exact not_inside_scope _ _
  | geometry scope =>
    rintro ⟨_, scope', _, same, _, other⟩
    cases scope <;> cases scope' <;>
      simp only [cacheDir, cons_append, nil_append, cons.injEq] at same
    · exact other same.2.2.symm
    · exact shared_ne_scopes same.2.1
    · exact shared_ne_scopes same.2.1.symm
    · exact other same.2.2.2.symm

theorem Good.frame (good : Good cfg id d) {d' : Disk} (closed : PathTree.Closed d')
    (frame : ∀ p, ¬Inside p → d' p = d p) : Good cfg id d' where
  closed := closed
  root := (frame _ (not_inside_short (by simp))).trans good.root
  identity := (frame _ (not_inside_short (by simp))).trans good.identity
  vacant := ⟨(frame _ (not_inside_short (by simp))).trans good.vacant.1,
    (frame _ (not_inside_short (by simp))).trans good.vacant.2⟩
  candidates := by
    intro name ⟨notLost, entry⟩
    have same := frame [name] (not_inside_short (by simp))
    rw [same] at entry ⊢
    exact good.candidates name ⟨notLost, entry⟩
  configured := by
    intro name listed y found
    rw [frame [name] (not_inside_short (by simp))] at found
    exact good.configured name listed y found
  layout := by
    intro p n x inner here y found
    rw [frame _ here.not_inside] at found
    exact good.layout p n x inner here y found
  scopes := by
    intro name s accepted exist
    rw [frame _ (not_inside_scope name s)] at exist
    exact good.scopes name s accepted exist

end Good

/-! ## The next start -/

section Start

variable {cfg : RootConfig} {id : WorkerIdentity} {d : Disk} {l : Listing}

theorem Good.loadIdentity (good : Good cfg id d) (fits : Fits cfg id) (random : Str) :
    loadIdentity cfg l random d = .ok (id, d) := by
  have owner : loadIdentityOwner cfg l random d = .ok (id, d) := by
    rw [loadIdentityOwner, if_neg (by simp [fits.cluster]), if_neg (by simp [fits.node]),
      good.identity]
    simp only [fits.owner]
    rfl
  have complete : checkResetComplete d = .ok () := by
    rw [checkResetComplete, good.vacant.1]
  simp only [Worker.loadIdentity, owner]
  show (checkResetComplete d >>= fun _ => _) = _
  rw [complete]
  exact if_pos fits.geometry

/-- A namespace directory holds nothing but what the worker made, or it holds something durable that
makes it recognised. -/
def Settled (d : Disk) (unsynced : Set Path) : Prop :=
  ∀ name, Accepted name → d [name] = some .dir →
    (∀ n, d [name, n] ≠ none → n = sharedDirectory ∨ n = scopesDirectory) ∨
    ∃ n, (n = sharedDirectory ∨ n = scopesDirectory) ∧ d [name, n] = some .dir ∧
      [name, n] ∉ unsynced

variable {name : Str} {op : RootOp} {x : PathTree.Node Content}

variable {unsynced : Set Path}

theorem Good.recognized (good : Good cfg id d) (settled : Settled d unsynced)
    (shows : l.Shows d) (cand : IsCandidate d name) : recognized d l name = true := by
  obtain ⟨accepted, dir⟩ := good.candidates name cand
  have of_inner : ∀ n, n = sharedDirectory ∨ n = scopesDirectory → d [name, n] = some .dir →
      Worker.recognized d l name = true := by
    intro n inner found
    obtain rfl | rfl := inner <;> simp [Worker.recognized, existingDirectory, found]
  obtain only | ⟨n, inner, found, _⟩ := settled name accepted dir
  · cases entries : l [name] with
    | nil => simp [Worker.recognized, existingDirectory, dir, entries]
    | cons n =>
      have exist := (shows [name] n).mp (by rw [entries]; exact mem_cons_self)
      obtain ⟨y, found⟩ := ne_none_iff_exists'.mp exist
      have here : Layout cfg [name] n .dir := by
        obtain rfl | rfl := only n exist
        · exact .shared accepted
        · exact .scopes accepted
      exact of_inner n (only n exist)
        (found.trans (congrArg some (good.layout [name] n .dir (by simp) here y found)))
  · exact of_inner n inner found

def NoFile (d : Disk) (name : Str) : Prop := ∀ y, d [name] = some y → y = .dir

theorem NoFile.run {c' : Cache} (free : NoFile c.disk name) (legit : op.Legit cfg)
    (ok : op.run c = .ok c') : NoFile c'.disk name := by
  intro y found
  obtain before | ⟨p, n, target, same⟩ := run_origin ok found
  · exact free y before
  · have root : [] ++ [name] = p ++ [n] := same
    obtain ⟨rfl, _⟩ := append_inj' root rfl
    exact (legit.target [] n y target).at_root.2.2

theorem Good.runAll {ops : List RootOp} {names : List Str} (good : Good cfg id c.disk)
    (legit : ∀ op ∈ ops, op.Legit cfg) (free : ∀ n ∈ names, NoFile c.disk n)
    (root : ∀ op ∈ ops, ∀ n x, op.target = some ([], n, x) → n ∈ names) :
    (∀ what, runAll ops c ≠ .error (.incompatible what)) ∧
      ∀ c', runAll ops c = .ok c' →
        Good cfg id c'.disk ∧ ∀ n ∈ names, NoFile c'.disk n := by
  induction ops generalizing c with
  | nil => exact ⟨(fun _ absurd => by cases absurd),
      fun c' same => by cases same; exact ⟨good, free⟩⟩
  | cons op rest ih =>
    have legitOp := legit op mem_cons_self
    cases ran : op.run c with
    | error e =>
      have stopped : runAll (op :: rest) c = .error e := by
        simp only [runAll, ran]
        rfl
      rw [stopped]
      refine ⟨fun what same => ?_, fun _ absurd => by cases absurd⟩
      obtain ⟨p, n, x, y, target, found, other⟩ | ⟨s, same, bad⟩ :=
        run_incompatible (ran.trans same)
      · have here := legitOp.target p n x target
        by_cases top : p = []
        · subst top
          rw [here.at_root.2.2] at other
          exact other (free n (root op mem_cons_self n x target) y found)
        · exact other (good.layout p n x top here y found)
      · exact bad (legitOp.parse s same)
    | ok c₁ =>
      have next : runAll (op :: rest) c = runAll rest c₁ := by
        simp only [runAll, ran]
        rfl
      rw [next]
      exact ih (good.run legitOp rfl ran) (fun op' mem => legit op' (mem_cons_of_mem _ mem))
        (fun n mem => (free n mem).run legitOp ran)
        fun op' mem => root op' (mem_cons_of_mem _ mem)

theorem openOps_root (mem : op ∈ openOps cfg name scope) (target : op.target = some ([], n, x)) :
    n = name := by
  cases scope <;>
    simp only [openOps, cons_append, nil_append, mem_cons, not_mem_nil,
      or_false] at mem
  · obtain rfl | rfl | rfl | rfl | rfl := mem <;> simp_all [RootOp.target, cacheDir]
  · obtain rfl | rfl | rfl | rfl | rfl | rfl := mem <;> simp_all [RootOp.target, cacheDir]

theorem startOps_root (mem : op ∈ startOps cfg d l name) (target : op.target = some ([], n, x)) :
    n = name := by
  simp only [startOps, cons_append, mem_cons, mem_append] at mem
  obtain rfl | mem | mem := mem
  · cases target
    rfl
  · split at mem
    · exact openOps_root mem target
    · cases mem
  · split at mem
    · obtain rfl | mem := mem_cons.mp mem
      · cases target
      · obtain ⟨s, _, mem⟩ := mem_flatMap.mp mem
        obtain rfl | mem := mem_cons.mp mem
        · cases target
        · exact openOps_root mem target
    · cases mem

theorem Good.openNames {names todo : List Str} (good : Good cfg id c.disk)
    (valid : ∀ n ∈ names, Accepted n ∧ n ≠ resetMarker) (free : ∀ n ∈ names, NoFile c.disk n)
    (parses : ∀ n ∈ names, ∀ s ∈ l [n, scopesDirectory], isAccessScope s = true)
    (listed : ∀ n ∈ todo, n ∈ names) (what : Str) :
    openNames cfg l todo c ≠ .error (.incompatible what) := by
  induction todo generalizing c with
  | nil => exact nofun
  | cons name _ ih =>
    have mem := listed name mem_cons_self
    obtain ⟨accepted, unmarked⟩ := valid name mem
    obtain ⟨compatible, kept⟩ := good.runAll
      (legit_startOps accepted unmarked (d := c.disk) fun _ => parses name mem) free
      fun op opMem n x target => by rw [startOps_root opMem target]; exact mem
    have context : namespaceContext name = .ok name := accepted
    simp only [Worker.openNames, context]
    cases ran : RootOp.runAll (startOps cfg c.disk l name) c with
    | error => exact fun same => compatible what (ran.trans same)
    | ok c₁ =>
      obtain ⟨good₁, free₁⟩ := kept c₁ ran
      exact ih good₁ free₁ fun n mem => listed n (mem_cons_of_mem _ mem)

theorem Good.openNamespaces (good : Good cfg id d) (fits : Fits cfg id)
    (settled : Settled d unsynced) (shows : l.Shows d) (what : Str) :
    openNamespaces cfg l d ≠ .error (.incompatible what) := by
  have all : ∀ name ∈ l [], IsCandidate d name → Worker.recognized d l name = true :=
    fun name _ cand => good.recognized settled shows cand
  obtain ⟨found, scanned⟩ := scanNames_recognized all
  have candidate : ∀ n, n ∈ found → IsCandidate d n :=
    fun n mem => ((mem_scanNames scanned).mp mem).2
  have valid : ∀ n ∈ allNames cfg found, Accepted n ∧ n ≠ resetMarker := by
    intro n mem
    obtain isDefault | isConfigured | isFound := mem_allNames.mp mem
    · exact fits.names n (.inl isDefault)
    · exact fits.names n (.inr isConfigured)
    · obtain ⟨accepted, dir⟩ := good.candidates n (candidate n isFound)
      refine ⟨accepted, fun marker => ?_⟩
      rw [marker, good.vacant.1] at dir
      cases dir
  have free : ∀ n ∈ allNames cfg found, NoFile d n := by
    intro n mem y entry
    obtain isDefault | isConfigured | isFound := mem_allNames.mp mem
    · exact good.configured n (.inl isDefault) y entry
    · exact good.configured n (.inr isConfigured) y entry
    · rw [(good.candidates n (candidate n isFound)).2] at entry
      exact (some.inj entry).symm
  have parses : ∀ n ∈ allNames cfg found, ∀ s ∈ l [n, scopesDirectory], isAccessScope s = true :=
    fun n mem s listed => good.scopes n s (valid n mem).1 ((shows [n, scopesDirectory] s).mp listed)
  simp only [Worker.openNamespaces, checkCatalog, good.vacant.2, scanned]
  show (if _ then _ else _) ≠ _
  split
  · exact nofun
  · exact good.openNames (c := ⟨d, 0⟩) valid free parses (fun _ mem => mem) what

/-! ## A successful start establishes the invariant -/

theorem checkOwner_ok {id' : WorkerIdentity} (ok : checkOwner cfg id = .ok id') : id' = id := by
  obtain ⟨_, ok⟩ := guard_ok ok
  obtain ⟨_, ok⟩ := guard_ok ok
  obtain ⟨_, ok⟩ := guard_ok ok
  obtain ⟨_, ok⟩ := guard_ok ok
  exact (Except.ok.inj ok).symm

variable {random : Str}

theorem loadIdentityOwner_ok {d' : Disk} (ok : loadIdentityOwner cfg l random d = .ok (id, d')) :
    isBlank cfg.clusterId = false ∧ cfg.nodeId.any isBlank = false ∧ checkOwner cfg id = .ok id ∧
      d' [identityFile] = some (.file (.identity id)) ∧
      (d' = d ∨ d [identityFile] = none ∧
        d' = add d [identityFile] (.file (.identity id))) := by
  obtain ⟨cluster, ok⟩ := guard_ok ok
  obtain ⟨node, ok⟩ := guard_ok ok
  refine ⟨Bool.eq_false_iff.mpr cluster, Bool.eq_false_iff.mpr node, ?_⟩
  split at ok
  · rename_i stored found
    obtain ⟨id', owner, same⟩ := bind_ok ok
    obtain rfl := checkOwner_ok owner
    cases same
    exact ⟨owner, found, .inl rfl⟩
  · cases ok
  · cases ok
  · rename_i absent
    obtain ⟨_, _, ok⟩ := bind_ok ok
    obtain ⟨_, ok⟩ := guard_ok ok
    obtain ⟨_, owner, same⟩ := bind_ok ok
    obtain rfl := checkOwner_ok owner
    cases same
    exact ⟨owner, add_self, .inr ⟨absent, rfl⟩⟩

theorem loadIdentity_ok {d' : Disk} (ok : loadIdentity cfg l random d = .ok (id, d')) :
    loadIdentityOwner cfg l random d = .ok (id, d') ∧ d' [resetMarker] = none ∧
      id.blockSize = cfg.blockSize ∧ id.pageSize = cfg.pageSize := by
  obtain ⟨⟨_, _⟩, owner, ok⟩ := bind_ok ok
  obtain ⟨_, complete, ok⟩ := bind_ok ok
  split at ok
  · rename_i geometry
    cases ok
    unfold checkResetComplete at complete
    split at complete
    · cases complete
    · exact ⟨owner, ‹_›, geometry⟩
  · cases ok

theorem root_mem_startOps (name : Str) : dir [] name ∈ startOps cfg d l name := by
  simp [startOps]

theorem shared_mem_startOps
    (here : (d [name, sharedDirectory]).isSome ∨ !(d [name, scopesDirectory]).isSome)
    (mem : op ∈ openOps cfg name none) : op ∈ startOps cfg d l name := by
  refine mem_cons_of_mem _ (mem_append_left _ ?_)
  rw [if_pos (.inr (.inr here))]
  exact mem

theorem scopes_mem_startOps (here : (d [name, scopesDirectory]).isSome) :
    dir [name] scopesDirectory ∈ startOps cfg d l name := by
  refine mem_cons_of_mem _ (mem_append_right _ ?_)
  rw [if_pos here]
  exact mem_cons_self

theorem scope_mem_startOps {s : Str} (here : (d [name, scopesDirectory]).isSome)
    (listed : s ∈ l [name, scopesDirectory])
    (mem : op ∈ parse s :: openOps cfg name (some s)) : op ∈ startOps cfg d l name := by
  refine mem_cons_of_mem _ (mem_append_right _ ?_)
  rw [if_pos here]
  exact mem_cons_of_mem _ (mem_flatMap.mpr ⟨s, listed, mem⟩)

theorem startOps_covers (closed : PathTree.Closed d) (shows : l.Shows d) {y : PathTree.Node Content}
    (inner : p ≠ []) (here : Layout cfg p n x) (found : d (p ++ [n]) = some y) :
    ∃ name, Accepted name ∧ d [name] = some .dir ∧
      ∀ m, RootOp.Within d m → ∃ op ∈ startOps cfg m l name, op.target = some (p, n, x) := by
  have parent := closed.parent found
  have there : ∀ m p z, RootOp.Within d m → d p = some z → (m p).isSome :=
    fun m p z within found => isSome_iff_exists.mpr ⟨z, within p z found⟩
  have listed : ∀ name s z, d [name, scopesDirectory, s] = some z → s ∈ l [name, scopesDirectory] :=
    fun name s z found => (shows _ s).mpr (ne_none_iff_exists'.mpr ⟨z, found⟩)
  cases here with
  | root => exact absurd rfl inner
  | @shared name accepted =>
    refine ⟨name, accepted, parent, fun m within => ⟨.dir [name] sharedDirectory, ?_, rfl⟩⟩
    exact shared_mem_startOps (.inl (there m _ y within found)) (by simp [openOps])
  | @scopes name accepted =>
    refine ⟨name, accepted, parent, fun m within => ⟨.dir [name] scopesDirectory, ?_, rfl⟩⟩
    exact scopes_mem_startOps (there m _ y within found)
  | @scope name _ accepted =>
    have above := closed.parent (p := [name]) parent
    refine ⟨name, accepted, above, fun m within => ⟨.dir [name, scopesDirectory] n, ?_, rfl⟩⟩
    exact scope_mem_startOps (there m _ .dir within parent) (listed name n y found)
      (by simp [openOps])
  | @geometry name scope accepted =>
    cases scope with
    | none =>
      have above := closed.parent (p := [name]) parent
      refine ⟨name, accepted, above, fun m within =>
        ⟨.geometry (cacheDir name none) (cfg.geometry name), ?_, rfl⟩⟩
      exact shared_mem_startOps (.inl (there m _ .dir within parent)) (by simp [openOps])
    | some s =>
      have scopes := closed.parent (p := [name, scopesDirectory]) parent
      have above := closed.parent (p := [name]) scopes
      refine ⟨name, accepted, above, fun m within =>
        ⟨.geometry (cacheDir name (some s)) (cfg.geometry name), ?_, rfl⟩⟩
      exact scope_mem_startOps (there m _ .dir within scopes) (listed name s .dir parent)
        (by simp [openOps])

theorem accepted_ne_lostFound (accepted : Accepted name) : name ≠ lostFound := by
  rintro rfl
  exact absurd accepted (by decide)

/-- What a successful opening says about the disk it leaves. -/
structure Opened (cfg : RootConfig) (l : Listing) (d d' : Disk) (names : List Str) : Prop where
  within : RootOp.Within d d'
  closed : PathTree.Closed d'
  origin : ∀ p n y, d' (p ++ [n]) = some y → d (p ++ [n]) = some y ∨
    Layout cfg p n y ∧ (p = [] → n ∈ names)
  started : ∀ name ∈ names, Accepted name ∧ name ≠ resetMarker ∧
    ∃ m, RootOp.Within d m ∧ ∀ op ∈ startOps cfg m l name, op.Done d'
  listed : ∀ name, name = defaultNamespace ∨ name ∈ cfg.namespaces ∨ IsCandidate d name →
    name ∈ names

theorem checkCatalog_ok (ok : checkCatalog d = .ok ()) : d [catalogDirectory] = none := by
  unfold checkCatalog at ok
  split at ok
  · assumption
  · cases ok

theorem opened_of_ok (closed : PathTree.Closed d) (shows : l.Shows d)
    (unmarked : d [resetMarker] = none) (configured : resetMarker ∉ cfg.namespaces)
    (ok : openNamespaces cfg l d = .ok c) :
    d [catalogDirectory] = none ∧ ∃ names, Opened cfg l d c.disk names := by
  obtain ⟨_, checked, ok⟩ := bind_ok ok
  obtain ⟨found, scanned, ok⟩ := bind_ok ok
  obtain ⟨_, ran, origin, started⟩ := openNames_ok (guard_ok ok).2
  have done := runAll_done ran
  have unmarkedName : ∀ name ∈ allNames cfg found, name ≠ resetMarker := by
    rintro name mem rfl
    obtain isDefault | isConfigured | isFound := mem_allNames.mp mem
    · exact absurd isDefault (by decide)
    · exact configured isConfigured
    · obtain ⟨_, _, dir | link⟩ := (mem_scanNames scanned).mp isFound
      · exact nomatch unmarked.symm.trans dir
      · exact nomatch unmarked.symm.trans link
  refine ⟨checkCatalog_ok checked, allNames cfg found, runAll_within ran, runAll_closed closed
    ran, ?_, ?_, ?_⟩
  · intro p n y entry
    obtain before | ⟨op, mem, _, _, target, same⟩ := runAll_origin ran entry
    · exact .inl before
    · obtain ⟨rfl, last⟩ := append_inj' same rfl
      obtain rfl := head_eq_of_cons_eq last
      obtain ⟨name, listed, m, mem, all⟩ := origin op mem
      have legit : op.Legit cfg := by
        refine legit_startOps (started name listed).1 (unmarkedName name listed) ?_ op mem
        intro hasScopes s entry
        exact (done _ (all _ (scope_mem_startOps hasScopes entry mem_cons_self))).parse s rfl
      refine .inr ⟨legit.target p n y target, fun top => ?_⟩
      subst top
      rw [startOps_root mem target]
      exact listed
  · intro name mem
    obtain ⟨accepted, m, within, all⟩ := started name mem
    exact ⟨accepted, unmarkedName name mem, m, within, fun op mem => done op (all op mem)⟩
  · rintro name (isDefault | isConfigured | cand)
    · exact mem_allNames.mpr (.inl isDefault)
    · exact mem_allNames.mpr (.inr (.inl isConfigured))
    · refine mem_allNames.mpr
        (.inr (.inr ((mem_scanNames scanned).mpr ⟨(shows [] name).mpr ?_, cand⟩)))
      obtain ⟨_, dir | link⟩ := cand
      · exact ne_none_iff_exists'.mpr ⟨_, dir⟩
      · exact ne_none_iff_exists'.mpr ⟨_, link⟩

section Opened

variable {d' : Disk} {names : List Str}

section

variable (opened : Opened cfg l d d' names)
include opened

theorem Opened.dir (mem : name ∈ names) : d' [name] = some .dir := by
  obtain ⟨_, _, m, _, done⟩ := opened.started name mem
  exact (done _ (root_mem_startOps name)).target [] name .dir rfl

theorem Opened.good (closed : PathTree.Closed d) (shows : l.Shows d) (root : d [] = some .dir)
    (identity : d [identityFile] = some (.file (.identity id))) (vacant : Vacant d) :
    Good cfg id d' where
  closed := opened.closed
  root := opened.within _ _ root
  identity := opened.within _ _ identity
  vacant := vacant.of_origin fun y found => (opened.origin [] _ y found).imp_right fun here =>
    ⟨cfg, here.1⟩
  candidates := by
    intro name ⟨notLost, entry⟩
    have mem : name ∈ names := by
      obtain ⟨y, found, kind⟩ : ∃ y, d' [name] = some y ∧ (y = .dir ∨ y = .link) :=
        entry.elim (fun dir => ⟨_, dir, .inl rfl⟩) (fun link => ⟨_, link, .inr rfl⟩)
      obtain before | ⟨_, top⟩ := opened.origin [] name y found
      · refine opened.listed name (.inr (.inr ⟨notLost, ?_⟩))
        obtain rfl | rfl := kind
        · exact .inl before
        · exact .inr before
      · exact top rfl
    exact ⟨(opened.started name mem).1, opened.dir mem⟩
  configured := by
    intro name given y found
    have mem := opened.listed name (given.elim .inl fun configured => .inr (.inl configured))
    rw [opened.dir mem] at found
    exact (some.inj found).symm
  layout := by
    intro p n x inner here y found
    obtain before | ⟨made, _⟩ := opened.origin p n y found
    · obtain ⟨name, accepted, dir, covers⟩ := startOps_covers closed shows inner here before
      have mem := opened.listed name (.inr (.inr ⟨accepted_ne_lostFound accepted, .inl dir⟩))
      obtain ⟨_, _, m, within, done⟩ := opened.started name mem
      obtain ⟨op, mem, target⟩ := covers m within
      have there := (done op mem).target p n x target
      exact some.inj (found.symm.trans there)
    · exact made.unique here
  scopes := by
    intro name s accepted exist
    obtain ⟨y, found⟩ := ne_none_iff_exists'.mp exist
    obtain before | ⟨made, _⟩ := opened.origin [name, scopesDirectory] s y found
    · have scopes := closed.parent (p := [name, scopesDirectory]) before
      have dir := closed.parent (p := [name]) scopes
      have mem := opened.listed name (.inr (.inr ⟨accepted_ne_lostFound accepted, .inl dir⟩))
      obtain ⟨_, _, m, within, done⟩ := opened.started name mem
      have hasScopes : (m [name, scopesDirectory]).isSome :=
        isSome_iff_exists.mpr ⟨_, within _ _ scopes⟩
      have listed := (shows _ s).mpr (ne_none_iff_exists'.mpr ⟨y, before⟩)
      exact (done _ (scope_mem_startOps hasScopes listed mem_cons_self)).parse s rfl
    · exact made.at_scopes

theorem Opened.settled : Settled d' ∅ := by
  intro name accepted dir
  have mem : name ∈ names := by
    obtain before | ⟨_, top⟩ := opened.origin [] name .dir dir
    · exact opened.listed name (.inr (.inr ⟨accepted_ne_lostFound accepted, .inl before⟩))
    · exact top rfl
  obtain ⟨_, _, m, _, done⟩ := opened.started name mem
  right
  by_cases hasScopes : (m [name, scopesDirectory]).isSome
  · exact ⟨scopesDirectory, .inr rfl, (done _ (scopes_mem_startOps hasScopes)).target _ _
      _ rfl, nofun⟩
  · have made := done (.dir [name] sharedDirectory)
      (shared_mem_startOps (.inr (by simpa using hasScopes)) (by simp [openOps]))
    exact ⟨sharedDirectory, .inl rfl, made.target _ _ _ rfl, nofun⟩

end

end Opened

end Start

end Talon.Worker
