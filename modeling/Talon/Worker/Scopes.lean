import Talon.Lib.Registry
import Talon.Origin.Routing
import Talon.Worker.CacheRestart

/-!
# Selecting a cache runtime for a request

A request selects a namespace and, with a broker configuration of its own, a credential scope within
it.  Runtimes are made once for each identity by detached initialisers, stores once for each
normalised configuration by detached builders, and both start empty again after a restart.
-/

set_option autoImplicit false

namespace Talon.Worker

open Talon.Core Origin Relation PartialMap Option Fallible List

/-! ## What a request selects -/

/-- The decoded parts of a data-plane request: the namespaces of its envelope and of its legacy
message, its broker configuration and the backend and bucket it is for. -/
structure ScopeRequest where
  metadata : Option NamespaceId
  legacy : Option NamespaceId
  broker : Option BrokerConfig
  target : Except Str (Backend × Str)

/-- `configured` is the worker's own backend, `backend` the one of its resolver. -/
structure ScopeEnv where
  rules : OriginRules
  backend : Backend
  configured : Option Backend
  digest : Str → Str
  json : Printer

structure Selected where
  request : ScopeRequest
  name : Str
  config : Option RouteBuildConfig
  scope : Option AccessScope

def requestNamespace (r : ScopeRequest) : Except Str Str :=
  let conflict := match r.metadata, r.legacy with
    | some a, some b => a.effectiveName != b.effectiveName
    | _, _ => false
  if conflict then .error "conflicting namespace identities".toList
  else
    let ns := (r.metadata.or r.legacy).getD (.named defaultNamespace)
    match namespaceContext ns.effectiveName with
    | .ok name => .ok name
    | .error e => .error e.text

/-- The namespace, route and scope that `for_request` and `resolve_dynamic` read off a request. -/
def selected (env : ScopeEnv) (r : ScopeRequest) : Except Str Selected := do
  let name ← requestNamespace r
  match r.broker with
  | none => .ok ⟨r, name, none, none⟩
  | some broker =>
    let (backend, bucket) ← r.target
    if env.configured.any (· ≠ backend) then
      .error "request selects another backend".toList
    else do
      let p ← prepareDynamic env.rules env.backend backend bucket broker
      let scope ← accessScope env.digest (p.key env.json)
      .ok ⟨r, name, some p, some scope⟩

/-- `CacheIdentity::new`. -/
def cacheIdentity (name : Str) : Option AccessScope → Str
  | none => name
  | some scope => name ++ '/' :: scope.value

namespace Selected

def identity (q : Selected) : Str := cacheIdentity q.name q.scope

end Selected

/-! ## The worker -/

/-- A store is known by the configuration it was built from; `registry` is the worker's own. -/
inductive Store
  | registry
  | built (config : RouteBuildConfig)

structure Runtime where
  epoch : Nat
  name : Str
  scope : Option AccessScope
  backend : Option Store

namespace Runtime

def identity (r : Runtime) : Str := cacheIdentity r.name r.scope

def directory (r : Runtime) : Path := cacheDir r.name (r.scope.map (·.value))

/-- `OnceLock::set`. -/
def bind (r : Runtime) (store : Store) : Runtime :=
  { r with backend := r.backend.or (some store) }

end Runtime

inductive Slot
  | building (config : RouteBuildConfig)
  | entered (config : RouteBuildConfig) (ok : Bool)
  | delivered (config : RouteBuildConfig) (ok : Bool)

def Slot.config : Slot → RouteBuildConfig
  | .building p | .entered p _ | .delivered p _ => p

/-- Where a request is: before the read lock and before the write lock of the resolver, at a pending
backend, before the read lock of the runtimes, and in the initialiser before the mutex, while
opening and with a runtime that is open. -/
inductive ScopeTask
  | routing (q : Selected)
  | reserving (q : Selected)
  | awaiting (q : Selected) (slot : Nat)
  | resolving (q : Selected) (store : Store)
  | queued (q : Selected) (store : Store)
  | opening (q : Selected) (store : Store)
  | publishing (q : Selected) (id : Nat)

def ScopeTask.isOpen : ScopeTask → Bool
  | .publishing .. => true
  | _ => false

structure Answer where
  selected : Selected
  runtime : Nat

/-- One worker over its processes.  `runtimes` keeps the runtimes of all of them; `registry`, the
resolver's `stores` and `pending` and the tasks are those of the current one. -/
structure ScopeWorld where
  epoch : Nat
  registry : Registry Str Nat
  runtimes : Nat → Option Runtime
  tasks : Nat → Option ScopeTask
  owner : Option Nat
  stores : Str → Option RouteBuildConfig
  pending : Str → Option Nat
  slots : Nat → Option Slot
  toOpen : List (Str × Option AccessScope)
  answers : List Answer

namespace ScopeWorld

def restart (w : ScopeWorld) (found : List (Str × Option AccessScope)) : ScopeWorld :=
  { w with
    epoch := w.epoch + 1
    registry := Registry.empty
    tasks := PartialMap.empty
    owner := none
    stores := PartialMap.empty
    pending := PartialMap.empty
    slots := PartialMap.empty
    toOpen := found }

def move (w : ScopeWorld) (t : Nat) (task : ScopeTask) : ScopeWorld :=
  { w with tasks := PartialMap.insert w.tasks t task }

/-- The request has its runtime; the store is bound if none was. -/
def answer (w : ScopeWorld) (t : Nat) (q : Selected) (id : Nat) (r : Runtime) (store : Store) :
    ScopeWorld :=
  { w with
    runtimes := PartialMap.insert w.runtimes id (r.bind store)
    tasks := PartialMap.erase w.tasks t
    answers := ⟨q, id⟩ :: w.answers }

end ScopeWorld

/-- The pairs that a start opens: each once, with names and scopes that parse. -/
structure Found (found : List (Str × Option AccessScope)) : Prop where
  once : found.Nodup
  names : ∀ pair ∈ found, Accepted pair.1

/-- The steps of the worker.  The keys of the broker configurations are among `Keys`. -/
inductive ScopeStep (env : ScopeEnv) (Keys : Set Str) : ScopeWorld → ScopeWorld → Prop
  | restart {w} (found : List (Str × Option AccessScope)) (dirs : Found found) :
      ScopeStep env Keys w (w.restart found)
  | start {w name scope rest} (id : Nat) (next : w.toOpen = (name, scope) :: rest)
      (new : w.runtimes id = none) :
      ScopeStep env Keys w { w with
        runtimes := PartialMap.insert w.runtimes id
          ⟨w.epoch, name, scope, if scope.isNone then some .registry else none⟩
        registry := (w.registry.make id (cacheIdentity name scope)).publish id
          (cacheIdentity name scope)
        toOpen := rest }
  /-- `for_namespace` finds the runtime. -/
  | served {w r q id} (up : w.toOpen = [])
      (selects : selected env r = .ok q) (static : q.config = none)
      (found : w.registry.index q.name = some id) :
      ScopeStep env Keys w { w with answers := ⟨q, id⟩ :: w.answers }
  | arrive {w} (t : Nat) {r q} (up : w.toOpen = [])
      (free : w.tasks t = none) (selects : selected env r = .ok q) (static : q.config = none)
      (missing : w.registry.index q.name = none) :
      ScopeStep env Keys w (w.move t (.resolving q .registry))
  | route {w} (t : Nat) {r q p}
      (up : w.toOpen = []) (free : w.tasks t = none) (selects : selected env r = .ok q)
      (own : q.config = some p) (key : p.key env.json ∈ Keys) :
      ScopeStep env Keys w (w.move t (.routing q))
  | stored {w t q p p'} (phase : w.tasks t = some (.routing q) ∨ w.tasks t = some (.reserving q))
      (own : q.config = some p) (found : w.stores (p.key env.json) = some p') :
      ScopeStep env Keys w (w.move t (.resolving q (.built p')))
  | wait {w t slot q p} (phase : w.tasks t = some (.routing q) ∨ w.tasks t = some (.reserving q))
      (own : q.config = some p) (missing : w.stores (p.key env.json) = none)
      (found : w.pending (p.key env.json) = some slot) :
      ScopeStep env Keys w (w.move t (.awaiting q slot))
  | unreserved {w t q p} (phase : w.tasks t = some (.routing q)) (own : q.config = some p)
      (missing : w.stores (p.key env.json) = none) (idle : w.pending (p.key env.json) = none) :
      ScopeStep env Keys w (w.move t (.reserving q))
  | reserve {w t q p} (slot : Nat)
      (phase : w.tasks t = some (.reserving q)) (own : q.config = some p)
      (missing : w.stores (p.key env.json) = none) (idle : w.pending (p.key env.json) = none)
      (new : w.slots slot = none) :
      ScopeStep env Keys w { w.move t (.awaiting q slot) with
        pending := PartialMap.insert w.pending (p.key env.json) slot
        slots := PartialMap.insert w.slots slot (.building p) }
  | built {w slot p} (building : w.slots slot = some (.building p)) :
      ScopeStep env Keys w { w with
        stores := PartialMap.insert w.stores (p.key env.json) p
        pending := PartialMap.erase w.pending (p.key env.json)
        slots := PartialMap.insert w.slots slot (.entered p true) }
  | unbuilt {w slot p} (building : w.slots slot = some (.building p)) :
      ScopeStep env Keys w { w with
        pending := PartialMap.erase w.pending (p.key env.json)
        slots := PartialMap.insert w.slots slot (.entered p false) }
  | delivered {w slot p ok} (entered : w.slots slot = some (.entered p ok)) :
      ScopeStep env Keys w { w with slots := PartialMap.insert w.slots slot (.delivered p ok) }
  | received {w t slot q p} (phase : w.tasks t = some (.awaiting q slot))
      (result : w.slots slot = some (.delivered p true)) :
      ScopeStep env Keys w (w.move t (.resolving q (.built p)))
  /-- `resolve` finds the runtime under the read lock, or the initialiser does under the mutex. -/
  | found {w t id q store r} (phase : w.tasks t = some (.resolving q store) ∨
        w.tasks t = some (.queued q store) ∧ w.owner = none)
      (found : w.registry.index q.identity = some id) (here : w.runtimes id = some r) :
      ScopeStep env Keys w (w.answer t q id r store)
  | queue {w t q store}
      (phase : w.tasks t = some (.resolving q store))
      (missing : w.registry.index q.identity = none) :
      ScopeStep env Keys w (w.move t (.queued q store))
  | lock {w t q store} (phase : w.tasks t = some (.queued q store)) (free : w.owner = none)
      (missing : w.registry.index q.identity = none) :
      ScopeStep env Keys w { w.move t (.opening q store) with owner := some t }
  | opened {w t q store} (id : Nat)
      (phase : w.tasks t = some (.opening q store)) (new : w.runtimes id = none) :
      ScopeStep env Keys w { w.move t (.publishing q id) with
        runtimes := PartialMap.insert w.runtimes id ⟨w.epoch, q.name, q.scope, some store⟩
        registry := w.registry.make id q.identity }
  | publish {w t id q} (phase : w.tasks t = some (.publishing q id)) :
      ScopeStep env Keys w { w with
        registry := w.registry.publish id q.identity
        owner := none
        tasks := PartialMap.erase w.tasks t
        answers := ⟨q, id⟩ :: w.answers }
  /-- A request is refused (a limit, an object outside the target, a store or a directory that
  cannot be opened) or given up. -/
  | refuse {w t task} (phase : w.tasks t = some task) (unopened : task.isOpen = false) :
      ScopeStep env Keys w { w with
        tasks := PartialMap.erase w.tasks t
        owner := if w.owner = some t then none else w.owner }

def unstarted : ScopeWorld :=
  ⟨0, Registry.empty, PartialMap.empty, PartialMap.empty, none, PartialMap.empty, PartialMap.empty,
    PartialMap.empty, [], []⟩

/-! ## What a selection says -/

def Prepared (env : ScopeEnv) (p : RouteBuildConfig) : Prop :=
  ∃ requested bucket broker, prepareDynamic env.rules env.backend requested bucket broker = .ok p

variable {p : RouteBuildConfig} {q : Selected}

variable {env : ScopeEnv} {name : Str} {s : AccessScope} {r : Runtime}

theorem Prepared.eq_of_key {p' : RouteBuildConfig} (one : Prepared env p) (other : Prepared env p')
    (same : p.key env.json = p'.key env.json) : p = p' := by
  obtain ⟨_, _, _, first⟩ := one
  obtain ⟨_, _, _, second⟩ := other
  exact prepared_eq_of_key first second same

def Selected.store (q : Selected) : Store :=
  match q.config with
  | none => .registry
  | some p => .built p

theorem requestNamespace_ok {r : ScopeRequest} (ok : requestNamespace r = .ok name) :
    Accepted name := by
  obtain ⟨_, ok⟩ := guard_ok ok
  split at ok
  · next accepted valid =>
    cases ok
    obtain ⟨same, _⟩ := namespaceContext_ok valid
    rw [← same] at valid
    exact valid
  · cases ok

theorem selected_ok {r : ScopeRequest} (ok : selected env r = .ok q) :
    q.request = r ∧ Accepted q.name ∧
      (q.config = none ∧ q.scope = none ∨ ∃ p s, q.config = some p ∧ q.scope = some s ∧
        Prepared env p ∧ accessScope env.digest (p.key env.json) = .ok s) := by
  obtain ⟨_, named, ok⟩ := bind_ok ok
  have accepted := requestNamespace_ok named
  split at ok
  · cases ok
    exact ⟨rfl, accepted, .inl ⟨rfl, rfl⟩⟩
  · obtain ⟨⟨_, _⟩, _, ok⟩ := bind_ok ok
    obtain ⟨_, ok⟩ := guard_ok ok
    obtain ⟨p, prepared, ok⟩ := bind_ok ok
    obtain ⟨s, scope, ok⟩ := bind_ok ok
    cases ok
    exact ⟨rfl, accepted, .inr ⟨p, s, rfl, rfl, ⟨_, _, _, prepared⟩, scope⟩⟩

theorem selected_broker {r : ScopeRequest} (ok : selected env r = .ok q) :
    q.config = none ↔ r.broker = none := by
  obtain ⟨_, _, ok⟩ := bind_ok ok
  split at ok
  · next static =>
    cases ok
    exact ⟨fun _ => static, fun _ => rfl⟩
  · next broker own =>
    obtain ⟨⟨_, _⟩, _, ok⟩ := bind_ok ok
    obtain ⟨_, ok⟩ := guard_ok ok
    obtain ⟨p, _, ok⟩ := bind_ok ok
    obtain ⟨s, _, ok⟩ := bind_ok ok
    cases ok
    exact ⟨nofun, fun static => nomatch own.symm.trans static⟩

theorem accessScope_ok {digest : Str → Str} {key : Str} (ok : accessScope digest key = .ok s) :
    s.value = "v1-".toList ++ digest key := by
  unfold accessScope AccessScope.fromStr at ok
  split at ok
  · cases ok
    rfl
  · cases ok

theorem slash_notMem (accepted : Accepted name) : '/' ∉ name :=
  fun mem => absurd (accepted.chars mem) (by decide)

theorem cacheIdentity_injective {name' : Str} {scope scope' : Option AccessScope}
    (accepted : Accepted name) (accepted' : Accepted name')
    (same : cacheIdentity name scope = cacheIdentity name' scope') :
    name = name' ∧ scope = scope' := by
  have free := slash_notMem accepted
  have free' := slash_notMem accepted'
  cases scope <;> cases scope' <;> simp only [cacheIdentity] at same
  · exact ⟨same, rfl⟩
  · rw [same] at free
    exact absurd (mem_append_right _ mem_cons_self) free
  · rw [← same] at free'
    exact absurd (mem_append_right _ mem_cons_self) free'
  · rename_i s s'
    obtain ⟨names, _, values⟩ := (append_cons_inj_of_notMem free s.slash_notMem).mp same
    cases s
    cases s'
    cases values
    exact ⟨names, rfl⟩

/-! ## The invariant -/

section Invariant

variable (env : ScopeEnv) (Keys : Set Str)

structure IsRoute (p : RouteBuildConfig) : Prop where
  prepared : Prepared env p
  key : p.key env.json ∈ Keys

structure Selects (q : Selected) : Prop where
  ok : selected env q.request = .ok q
  key : ∀ p, q.config = some p → p.key env.json ∈ Keys

structure Bound (r : Runtime) : Prop where
  accepted : Accepted r.name
  shared : r.scope = none → r.backend = some .registry
  keyed : ∀ s store, r.scope = some s → r.backend = some store →
    ∃ p, store = .built p ∧ IsRoute env Keys p ∧ accessScope env.digest (p.key env.json) = .ok s

structure Runtime.Of (r : Runtime) (q : Selected) : Prop where
  name : r.name = q.name
  scope : r.scope = q.scope
  backend : r.backend = some q.store

def TaskOk (w : ScopeWorld) (t : Nat) : ScopeTask → Prop
  | .routing q | .reserving q => Selects env Keys q
  | .awaiting q slot => Selects env Keys q ∧
      ∃ p st, q.config = some p ∧ w.slots slot = some st ∧ st.config = p
  | .resolving q store | .queued q store => Selects env Keys q ∧ store = q.store
  | .opening q store => Selects env Keys q ∧ store = q.store ∧ w.owner = some t ∧
      w.registry.index q.identity = none
  | .publishing q id => Selects env Keys q ∧ w.owner = some t ∧ w.registry.fresh = some id ∧
      w.registry.items id = some q.identity ∧ ∃ r, w.runtimes id = some r ∧ r.Of q

/-- The runtimes of the current process are those of the registry, and no process has two of one
identity. -/
structure TableInv (epoch : Nat) (reg : Registry Str Nat) (runtimes : Nat → Option Runtime) :
    Prop where
  registry : reg.Inv
  items : ∀ i k, reg.items i = some k →
    ∃ r, runtimes i = some r ∧ r.epoch = epoch ∧ r.identity = k
  current : ∀ i r, runtimes i = some r →
    r.epoch ≤ epoch ∧ (r.epoch = epoch → reg.items i = some r.identity)
  past : ∀ i j r s, runtimes i = some r → runtimes j = some s → r.epoch = s.epoch →
    r.epoch < epoch → r.identity = s.identity → i = j
  bound : ∀ i r, runtimes i = some r → Bound env Keys r

/-- Stores and pending backends belong to the key they stand under. -/
structure ResolverInv (stores : Str → Option RouteBuildConfig) (pending : Str → Option Nat)
    (slots : Nat → Option Slot) : Prop where
  stores : ∀ k p, stores k = some p → IsRoute env Keys p ∧ p.key env.json = k
  pending : ∀ k slot, pending k = some slot → ∃ st, slots slot = some st ∧
    st.config.key env.json = k
  slots : ∀ slot st, slots slot = some st → IsRoute env Keys st.config

structure ScopeInv (w : ScopeWorld) : Prop where
  table : TableInv env Keys w.epoch w.registry w.runtimes
  resolver : ResolverInv env Keys w.stores w.pending w.slots
  tasks : ∀ t task, w.tasks t = some task → TaskOk env Keys w t task
  fresh : ∀ id, w.registry.fresh = some id → ∃ t q, w.tasks t = some (.publishing q id)
  starting : w.toOpen ≠ [] → ∀ t, w.tasks t = none
  found : Found w.toOpen
  unopened : ∀ pair ∈ w.toOpen, w.registry.index (cacheIdentity pair.1 pair.2) = none
  answers : ∀ a ∈ w.answers, Selects env Keys a.selected ∧
    ∃ r, w.runtimes a.runtime = some r ∧ r.Of a.selected

end Invariant

section Steps

variable {env : ScopeEnv} {Keys : Set Str} {w : ScopeWorld}

theorem Selects.accepted (sel : Selects env Keys q) : Accepted q.name :=
  (selected_ok sel.ok).2.1

theorem Selects.route (sel : Selects env Keys q) (own : q.config = some p) :
    IsRoute env Keys p := by
  obtain ⟨_, _, ⟨none, _⟩ | ⟨_, _, some, _, prepared, _⟩⟩ := selected_ok sel.ok
  · exact nomatch none.symm.trans own
  · obtain rfl := Option.some.inj (some.symm.trans own)
    exact ⟨prepared, sel.key _ own⟩

theorem IsRoute.eq_of_scope (collisionFree : Set.InjOn env.digest Keys) {p' : RouteBuildConfig}
    (one : IsRoute env Keys p) (other : IsRoute env Keys p')
    (first : accessScope env.digest (p.key env.json) = .ok s)
    (second : accessScope env.digest (p'.key env.json) = .ok s) : p = p' :=
  one.prepared.eq_of_key other.prepared
    (collisionFree one.key other.key
      (append_cancel_left ((accessScope_ok first).symm.trans (accessScope_ok second))))

theorem Bound.bind (collisionFree : Set.InjOn env.digest Keys) (bound : Bound env Keys r)
    (sel : Selects env Keys q) (same : r.identity = q.identity) :
    (r.bind q.store).Of q ∧ Bound env Keys (r.bind q.store) := by
  obtain ⟨name, scope⟩ := cacheIdentity_injective bound.accepted sel.accepted same
  obtain ⟨_, _, ⟨noConfig, noScope⟩ | ⟨p, s, own, hasScope, _, key⟩⟩ := selected_ok sel.ok
  · have store : q.store = .registry := by rw [Selected.store, noConfig]
    have unscoped : r.scope = none := scope.trans noScope
    have kept : r.bind q.store = r := by
      rw [Runtime.bind, bound.shared unscoped, some_or, ← bound.shared unscoped]
    rw [kept]
    exact ⟨⟨name, scope, by rw [store, bound.shared unscoped]⟩, bound⟩
  · have store : q.store = .built p := by rw [Selected.store, own]
    have route := sel.route own
    have here : (r.bind q.store).backend = some (.built p) := by
      cases before : r.backend with
      | none => rw [Runtime.bind, before, store, none_or]
      | some st =>
        obtain ⟨_, rfl, route', key'⟩ := bound.keyed s st (scope.trans hasScope) before
        rw [Runtime.bind, before, some_or, route'.eq_of_scope collisionFree route key' key]
    refine ⟨⟨name, scope, by rw [here, store]⟩, ⟨bound.accepted, fun none => ?_, ?_⟩⟩
    · exact nomatch none.symm.trans (scope.trans hasScope)
    · intro s' _ scope' backend'
      obtain rfl := some.inj (here.symm.trans backend')
      have scope' : r.scope = some s' := scope'
      obtain rfl := some.inj ((scope.trans hasScope).symm.trans scope')
      exact ⟨p, rfl, route, key⟩

/-! ## The table of runtimes -/

section Table

variable {epoch : Nat} {registry : Registry Str Nat} {runtimes : Nat → Option Runtime}

theorem tableInv_empty : TableInv env Keys epoch Registry.empty empty := by
  refine ⟨Registry.inv_empty, fun i k made => ?_, fun i r here => ?_, fun i j r s here => ?_,
    fun i r here => ?_⟩
  · cases made
  · cases here
  · cases here
  · cases here

section

variable (inv : TableInv env Keys epoch registry runtimes)
include inv

theorem TableInv.unique {i j : Nat} {s : Runtime} (first : runtimes i = some r)
    (second : runtimes j = some s) (epochs : r.epoch = s.epoch) (same : r.identity = s.identity) :
    i = j := by
  obtain earlier | now := (inv.current i r first).1.lt_or_eq
  · exact inv.past i j r s first second epochs earlier same
  · have one := (inv.current i r first).2 now
    have other := (inv.current j s second).2 (epochs.symm.trans now)
    rw [← same] at other
    exact inv.registry.unique one other

theorem TableInv.restart : TableInv env Keys (epoch + 1) Registry.empty runtimes where
  registry := Registry.inv_empty
  items := nofun
  current i r found := by
    have before := (inv.current i r found).1
    exact ⟨by omega, fun now => by omega⟩
  past _ _ _ _ first second epochs _ same := inv.unique first second epochs same
  bound := inv.bound

variable {id : Nat}

theorem TableInv.make (new : runtimes id = none) (now : r.epoch = epoch)
    (missing : registry.index r.identity = none) (idle : registry.fresh = none)
    (bound : Bound env Keys r) :
    TableInv env Keys epoch (registry.make id r.identity) (insert runtimes id r) where
  registry := by
    refine inv.registry.make ?_ missing idle
    by_contra made
    obtain ⟨k, made⟩ := ne_none_iff_exists'.mp made
    obtain ⟨r, found, _⟩ := inv.items id k made
    exact nomatch new.symm.trans found
  items := by
    refine forall_insert ⟨r, insert_self .., now, rfl⟩ fun i k same made => ?_
    rw [insert_of_ne same]
    exact inv.items i k made
  current := by
    refine forall_insert ⟨now.le, fun _ => insert_self ..⟩ fun i s same found => ?_
    obtain ⟨le, current⟩ := inv.current i s found
    exact ⟨le, fun now => (insert_of_ne same).trans (current now)⟩
  past i j s s' first second epochs earlier same := by
    have other : ∀ i s, insert runtimes id r i = some s → s.epoch < epoch →
        runtimes i = some s :=
      forall_insert (fun earlier => by omega) fun i s _ found _ => found
    exact inv.past i j s s' (other i s first earlier) (other j s' second (epochs ▸ earlier)) epochs
      earlier same
  bound := forall_insert bound fun i s _ => inv.bound i s

theorem TableInv.publish {k : Str} (made : registry.items id = some k)
    (fresh : registry.fresh = some id) : TableInv env Keys epoch (registry.publish id k) runtimes :=
  ⟨inv.registry.publish made fresh, inv.items, inv.current, inv.past, inv.bound⟩

theorem TableInv.bind {store : Store} (here : runtimes id = some r)
    (bound : Bound env Keys (r.bind store)) :
    TableInv env Keys epoch registry (insert runtimes id (r.bind store)) := by
  have back : ∀ i s, insert runtimes id (r.bind store) i = some s →
      ∃ s₀, runtimes i = some s₀ ∧ s.epoch = s₀.epoch ∧ s.identity = s₀.identity :=
    forall_insert ⟨r, here, rfl, rfl⟩ fun i s _ found => ⟨s, found, rfl, rfl⟩
  refine ⟨inv.registry, fun i k made => ?_, fun i s found => ?_, ?_,
    forall_insert bound fun i s _ => inv.bound i s⟩
  · obtain ⟨s, found, epoch, identity⟩ := inv.items i k made
    by_cases same : i = id
    · subst same
      obtain rfl := some.inj (here.symm.trans found)
      exact ⟨_, insert_self .., epoch, identity⟩
    · exact ⟨s, by rw [insert_of_ne same, found], epoch, identity⟩
  · obtain ⟨s₀, before, epochs, identities⟩ := back i s found
    rw [epochs, identities]
    exact inv.current i s₀ before
  · intro i j s s' first second epochs earlier same
    obtain ⟨s₀, before, e, k⟩ := back i s first
    obtain ⟨s₀', before', e', k'⟩ := back j s' second
    exact inv.past i j s₀ s₀' before before' (e.symm.trans (epochs.trans e')) (e ▸ earlier)
      (k.symm.trans (same.trans k'))

end

end Table

/-! ## The resolver -/

section Resolver

variable {stores : Str → Option RouteBuildConfig} {pending : Str → Option Nat}
  {slots : Nat → Option Slot}

theorem resolverInv_empty : ResolverInv env Keys empty empty empty := by
  refine ⟨fun k p found => ?_, fun k slot found => ?_, fun slot st found => ?_⟩ <;> cases found

section

variable (inv : ResolverInv env Keys stores pending slots)
include inv

variable {slot : Nat}

theorem ResolverInv.reserve (route : IsRoute env Keys p) (new : slots slot = none) :
    ResolverInv env Keys stores (insert pending (p.key env.json) slot)
      (insert slots slot (.building p)) where
  stores := inv.stores
  pending := by
    refine forall_insert ⟨.building p, insert_self .., rfl⟩ fun k s _ found => ?_
    obtain ⟨st, here, key⟩ := inv.pending k s found
    exact ⟨st, insert_of_fresh new here, key⟩
  slots := forall_insert route fun s st _ => inv.slots s st

theorem ResolverInv.advance {st st' : Slot} (here : slots slot = some st)
    (config : st'.config = st.config) :
    ResolverInv env Keys stores pending (insert slots slot st') where
  stores := inv.stores
  pending k s found := by
    obtain ⟨st₀, before, key⟩ := inv.pending k s found
    by_cases same : s = slot
    · subst same
      obtain rfl := some.inj (here.symm.trans before)
      exact ⟨st', insert_self .., by rw [config, key]⟩
    · exact ⟨st₀, by rw [insert_of_ne same, before], key⟩
  slots := by
    refine forall_insert ?_ fun s st₀ _ => inv.slots s st₀
    rw [config]
    exact inv.slots _ _ here

theorem ResolverInv.release (k : Str) : ResolverInv env Keys stores (erase pending k) slots where
  stores := inv.stores
  pending l s found := inv.pending l s (of_erase found).2
  slots := inv.slots

end

end Resolver

end Steps

end Talon.Worker
