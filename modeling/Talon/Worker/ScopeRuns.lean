import Talon.Worker.Scopes

/-!
# Runs of a worker with credential scopes

Every step of the worker keeps the invariant, so that requests share a runtime and a directory
exactly when they name the same namespace and the same normalised configuration.
-/

set_option autoImplicit false

namespace Talon.Worker

open Talon.Core Origin Relation List PartialMap Option

variable {store : Store}

section Steps

variable {env : ScopeEnv} {Keys : Set Str} {w w' : ScopeWorld}

variable {q : Selected} {t id : Nat} {task : ScopeTask}

variable {r : Runtime}

theorem Runtime.Of.bind (of : r.Of q) (store : Store) : (r.bind store).Of q :=
  ⟨of.name, of.scope, by rw [Runtime.bind, of.backend, some_or]⟩

/-- What a request relies on: its slot, and for the holder of the lock the registry. -/
structure Keeps (w w' : ScopeWorld) (t : Nat) : Prop where
  slots : ∀ slot st, w.slots slot = some st → ∃ st', w'.slots slot = some st' ∧
    st'.config = st.config
  owner : w.owner = some t → w'.owner = some t
  index : w.owner = some t → ∀ k, w.registry.index k = none → w'.registry.index k = none
  fresh : w.owner = some t → w'.registry.fresh = w.registry.fresh
  items : ∀ i k, w.registry.items i = some k → w'.registry.items i = some k
  runtimes : ∀ id r q, w.runtimes id = some r → r.Of q → ∃ r', w'.runtimes id = some r' ∧ r'.Of q

theorem Keeps.refl (w : ScopeWorld) (t : Nat) : Keeps w w t :=
  ⟨fun _ st here => ⟨st, here, rfl⟩, id, fun _ _ missing => missing, fun _ => rfl,
    fun _ _ made => made, fun _ r _ here of => ⟨r, here, of⟩⟩

theorem TaskOk.mono (ok : TaskOk env Keys w t task) (keeps : Keeps w w' t) :
    TaskOk env Keys w' t task := by
  cases task with
  | routing | reserving | resolving | queued => exact ok
  | awaiting q slot =>
    obtain ⟨sel, p, st, own, here, config⟩ := ok
    obtain ⟨st', here', config'⟩ := keeps.slots slot st here
    exact ⟨sel, p, st', own, here', config'.trans config⟩
  | opening =>
    obtain ⟨sel, same, owner, missing⟩ := ok
    exact ⟨sel, same, keeps.owner owner, keeps.index owner _ missing⟩
  | publishing q id =>
    obtain ⟨sel, owner, fresh, made, r, here, of⟩ := ok
    exact ⟨sel, keeps.owner owner, (keeps.fresh owner).trans fresh, keeps.items _ _ made,
      keeps.runtimes id r q here of⟩

variable (inv : ScopeInv env Keys w)
include inv

theorem ScopeInv.serving (busy : w.tasks t = some task) : w.toOpen = [] := by
  by_contra starting
  exact nomatch (inv.starting starting t).symm.trans busy

theorem ScopeInv.move (up : w.toOpen = [])
    (quiet : ∀ task, w.tasks t = some task → task.isOpen = false) (ok : TaskOk env Keys w t task) :
    ScopeInv env Keys (w.move t task) where
  table := inv.table
  resolver := inv.resolver
  tasks := forall_insert ok fun u other _ => inv.tasks u other
  fresh id made := by
    obtain ⟨u, q, before⟩ := inv.fresh id made
    have other : u ≠ t := by
      rintro rfl
      cases quiet _ before
    exact ⟨u, q, by simpa [ScopeWorld.move, other] using before⟩
  starting down := absurd up down
  found := inv.found
  unopened := inv.unopened
  answers := inv.answers

omit inv

theorem unopened_of (here : w.tasks t = some task) (unopened : task.isOpen = false) :
    ∀ task, w.tasks t = some task → task.isOpen = false := by
  intro _ there
  obtain rfl := some.inj (here.symm.trans there)
  exact unopened

include inv

theorem ScopeInv.restart {found : List (Str × Option AccessScope)}
    (dirs : Found found) : ScopeInv env Keys (w.restart found) := by
  refine ⟨inv.table.restart, resolverInv_empty, fun t task busy => ?_, fun id made => ?_,
    fun _ _ => rfl, dirs, fun _ _ => rfl, inv.answers⟩
  · cases busy
  · cases made

theorem ScopeInv.start {name : Str} {scope : Option AccessScope}
    {rest : List (Str × Option AccessScope)} (next : w.toOpen = (name, scope) :: rest)
    (new : w.runtimes id = none) :
    ScopeInv env Keys { w with
      runtimes := insert w.runtimes id
        ⟨w.epoch, name, scope, if scope.isNone then some .registry else none⟩
      registry := (w.registry.make id (cacheIdentity name scope)).publish id
        (cacheIdentity name scope)
      toOpen := rest } := by
  have starting : w.toOpen ≠ [] := by rw [next]; exact cons_ne_nil _ _
  have none := inv.starting starting
  have idle : w.registry.fresh = Option.none := by
    by_contra made
    obtain ⟨i, made⟩ := Option.ne_none_iff_exists'.mp made
    obtain ⟨t, q, busy⟩ := inv.fresh i made
    cases (none t).symm.trans busy
  have listed : (name, scope) ∈ w.toOpen := by rw [next]; exact mem_cons_self
  have once : ((name, scope) :: rest).Nodup := next ▸ inv.found.once
  have names : ∀ pair ∈ rest, Accepted pair.1 := fun pair mem =>
    inv.found.names pair (by rw [next]; exact mem_cons_of_mem _ mem)
  have bound : Bound env Keys
      ⟨w.epoch, name, scope, if scope.isNone then some .registry else Option.none⟩ := by
    refine ⟨inv.found.names _ listed, fun unscoped => ?_, fun s store hasScope backend => ?_⟩
    · have unscoped : scope = Option.none := unscoped
      rw [unscoped]
      rfl
    · have hasScope : scope = some s := hasScope
      rw [hasScope] at backend
      cases backend
  refine ⟨(inv.table.make (r := ⟨w.epoch, name, scope, _⟩) new rfl (inv.unopened _ listed) idle
    bound).publish (by simp [Registry.make, Runtime.identity]) rfl, inv.resolver, ?_,
    (fun _ absurd => by cases absurd), ?_, ?_,
    ?_, ?_⟩
  · intro t _ busy
    cases (none t).symm.trans busy
  · exact fun _ => none
  · exact ⟨once.of_cons, names⟩
  · intro pair mem
    have other : cacheIdentity pair.1 pair.2 ≠ cacheIdentity name scope := by
      intro same
      obtain ⟨sameName, sameScope⟩ :=
        cacheIdentity_injective (names pair mem) (inv.found.names _ listed) same
      have here := Prod.ext sameName sameScope
      rw [here] at mem
      exact (nodup_cons.mp once).1 mem
    have before := inv.unopened pair (by rw [next]; exact mem_cons_of_mem _ mem)
    simpa [Registry.publish, Registry.make, other] using before
  · intro a mem
    obtain ⟨sel, r, here, of⟩ := inv.answers a mem
    exact ⟨sel, r, insert_of_fresh new here, of⟩

variable {slots : Nat → Option Slot}

theorem ScopeInv.resolve {stores : Str → Option RouteBuildConfig} {pending : Str → Option Nat}
    (resolver : ResolverInv env Keys stores pending slots)
    (kept : ∀ slot st, w.slots slot = some st →
      ∃ st', slots slot = some st' ∧ st'.config = st.config) :
    ScopeInv env Keys { w with stores := stores, pending := pending, slots := slots } :=
  ⟨inv.table, resolver,
    fun t task busy => (inv.tasks t task busy).mono { Keeps.refl w t with slots := kept },
    inv.fresh, inv.starting, inv.found, inv.unopened, inv.answers⟩

omit inv

variable {slot : Nat}

theorem insert_slots_of {st st' : Slot}
    (here : slots slot = some st) (config : st'.config = st.config) :
    ∀ s st₀, slots s = some st₀ →
      ∃ st₁, insert slots slot st' s = some st₁ ∧ st₁.config = st₀.config := by
  intro s st₀ before
  by_cases same : s = slot
  · subst same
    obtain rfl := some.inj (here.symm.trans before)
    exact ⟨st', insert_self .., config⟩
  · exact ⟨st₀, by rw [insert_of_ne same, before], rfl⟩

include inv

theorem ScopeInv.reserve {p : RouteBuildConfig}
    (phase : w.tasks t = some (.reserving q)) (own : q.config = some p)
    (new : w.slots slot = none) :
    ScopeInv env Keys { w.move t (.awaiting q slot) with
      pending := insert w.pending (p.key env.json) slot
      slots := insert w.slots slot (.building p) } := by
  have sel := inv.tasks t _ phase
  have kept : ∀ s st, w.slots s = some st →
      ∃ st', insert w.slots slot (.building p) s = some st' ∧ st'.config = st.config :=
    fun _ st here => ⟨st, insert_of_fresh new here, rfl⟩
  have next := inv.resolve (inv.resolver.reserve (sel.route own) new) kept
  exact next.move (inv.serving phase) (unopened_of phase rfl)
    ⟨sel, p, .building p, own, insert_self .., rfl⟩

theorem ScopeInv.indexed {k : Str}
    (found : w.registry.index k = some id) : ∃ r, w.runtimes id = some r ∧ r.identity = k := by
  obtain ⟨r, here, _, identity⟩ := inv.table.items id k (inv.table.registry.indexed k id found)
  exact ⟨r, here, identity⟩

theorem ScopeInv.served (sel : Selects env Keys q)
    (static : q.config = none) (found : w.registry.index q.name = some id) :
    ScopeInv env Keys { w with answers := ⟨q, id⟩ :: w.answers } := by
  obtain ⟨_, _, ⟨_, noScope⟩ | ⟨p, _, own, _⟩⟩ := selected_ok sel.ok
  · have identity : q.identity = q.name := by rw [Selected.identity, noScope]; rfl
    obtain ⟨r, here, same⟩ := inv.indexed found
    have bound := inv.table.bound id r here
    obtain ⟨name, scope⟩ :=
      cacheIdentity_injective bound.accepted sel.accepted (same.trans identity.symm)
    have store : q.store = .registry := by rw [Selected.store, static]
    have of : r.Of q := ⟨name, scope, by rw [store, bound.shared (scope.trans noScope)]⟩
    exact { inv with answers := forall_mem_cons.mpr ⟨⟨sel, r, here, of⟩, inv.answers⟩ }
  · cases own.symm.trans static

omit inv

theorem ScopeInv.answer (collisionFree : Set.InjOn env.digest Keys) (inv : ScopeInv env Keys w)
    (phase : w.tasks t = some task) (quiet : task.isOpen = false) (sel : Selects env Keys q)
    (same : store = q.store) (found : w.registry.index q.identity = some id)
    (here : w.runtimes id = some r) : ScopeInv env Keys (w.answer t q id r store) := by
  obtain ⟨_, here', identity⟩ := inv.indexed found
  obtain rfl := some.inj (here.symm.trans here')
  obtain ⟨of, bound⟩ := (inv.table.bound id r here).bind collisionFree sel identity
  rw [← same] at of bound
  have runtimes : ∀ i s q, w.runtimes i = some s → s.Of q →
      ∃ s', insert w.runtimes id (r.bind store) i = some s' ∧ s'.Of q := by
    intro i s q there of
    by_cases self : i = id
    · subst self
      obtain rfl := some.inj (here.symm.trans there)
      exact ⟨_, insert_self .., of.bind store⟩
    · exact ⟨s, by rw [insert_of_ne self, there], of⟩
  refine ⟨inv.table.bind here bound, inv.resolver, fun u task busy => ?_, fun i made => ?_,
    fun down => absurd (inv.serving phase) down, inv.found, inv.unopened, fun a mem => ?_⟩
  · exact (inv.tasks u task (of_erase busy).2).mono { Keeps.refl w u with runtimes := runtimes }
  · obtain ⟨u, q', busy⟩ := inv.fresh i made
    have other : u ≠ t := by
      rintro rfl
      cases unopened_of phase quiet _ busy
    exact ⟨u, q', by simpa [ScopeWorld.answer, other] using busy⟩
  · obtain rfl | mem := mem_cons.mp mem
    · exact ⟨sel, _, insert_self .., of⟩
    · obtain ⟨sel', s, there, of'⟩ := inv.answers a mem
      exact ⟨sel', runtimes a.runtime s a.selected there of'⟩

section

variable (inv : ScopeInv env Keys w)
include inv

theorem ScopeInv.lock (phase : w.tasks t = some (.queued q store)) (free : w.owner = none)
    (missing : w.registry.index q.identity = none) :
    ScopeInv env Keys { w.move t (.opening q store) with owner := some t } := by
  obtain ⟨sel, same⟩ := inv.tasks t _ phase
  have next : ScopeInv env Keys { w with owner := some t } := by
    refine { inv with tasks := fun u task busy => (inv.tasks u task busy).mono ?_ }
    have nobody : ∀ u, w.owner ≠ some u := fun u held => nomatch free.symm.trans held
    exact { Keeps.refl w u with owner := fun held => absurd held (nobody u) }
  exact next.move (inv.serving phase) (unopened_of phase rfl) ⟨sel, same, rfl, missing⟩

theorem ScopeInv.opened (phase : w.tasks t = some (.opening q store)) (new : w.runtimes id = none) :
    ScopeInv env Keys { w.move t (.publishing q id) with
      runtimes := insert w.runtimes id ⟨w.epoch, q.name, q.scope, some store⟩
      registry := w.registry.make id q.identity } := by
  obtain ⟨sel, same, owner, missing⟩ := inv.tasks t _ phase
  have idle : w.registry.fresh = none := by
    by_contra made
    obtain ⟨i, made⟩ := ne_none_iff_exists'.mp made
    obtain ⟨u, _, busy⟩ := inv.fresh i made
    obtain ⟨_, owner', _⟩ := inv.tasks u _ busy
    obtain rfl := some.inj (owner.symm.trans owner')
    cases phase.symm.trans busy
  have bound : Bound env Keys ⟨w.epoch, q.name, q.scope, some store⟩ := by
    refine ⟨sel.accepted, fun unscoped => ?_, fun s st hasScope backend => ?_⟩
    · obtain ⟨_, _, ⟨noConfig, _⟩ | ⟨_, _, _, hasScope, _⟩⟩ := selected_ok sel.ok
      · rw [same, Selected.store, noConfig]
      · cases hasScope.symm.trans unscoped
    · cases backend
      obtain ⟨_, _, ⟨_, noScope⟩ | ⟨p, _, own, hasScope', _, key⟩⟩ := selected_ok sel.ok
      · cases noScope.symm.trans hasScope
      · obtain rfl := some.inj (hasScope'.symm.trans hasScope)
        exact ⟨p, by rw [same, Selected.store, own], sel.route own, key⟩
  have table := inv.table.make (r := ⟨w.epoch, q.name, q.scope, some store⟩) new rfl missing idle
    bound
  have free : w.registry.items id = none := by
    by_contra made
    obtain ⟨k, made⟩ := ne_none_iff_exists'.mp made
    obtain ⟨r, here, _⟩ := inv.table.items id k made
    cases new.symm.trans here
  have mine : TaskOk env Keys { w with
      runtimes := insert w.runtimes id ⟨w.epoch, q.name, q.scope, some store⟩
      registry := w.registry.make id q.identity } t (.publishing q id) :=
    ⟨sel, owner, rfl, insert_self .., _, insert_self .., ⟨rfl, rfl, by rw [same]⟩⟩
  refine ⟨table, inv.resolver, forall_insert mine fun u task self before => ?_, fun i made => ?_,
    fun down => absurd (inv.serving phase) down, inv.found, inv.unopened, fun a mem => ?_⟩
  · have stranger : w.owner ≠ some u := fun held =>
      self (some.inj (held.symm.trans owner))
    exact (inv.tasks u task before).mono { Keeps.refl w u with
      fresh := fun held => absurd held stranger
      items := fun i k made => insert_of_fresh free made
      runtimes := fun i r q there of => ⟨r, insert_of_fresh new there, of⟩ }
  · obtain rfl : id = i := by simpa [Registry.make] using made
    exact ⟨t, q, by simp [ScopeWorld.move]⟩
  · obtain ⟨sel', r, there, of⟩ := inv.answers a mem
    exact ⟨sel', r, insert_of_fresh new there, of⟩

theorem ScopeInv.publish (phase : w.tasks t = some (.publishing q id)) :
    ScopeInv env Keys { w with
      registry := w.registry.publish id q.identity
      owner := none
      tasks := erase w.tasks t
      answers := ⟨q, id⟩ :: w.answers } := by
  obtain ⟨sel, owner, fresh, made, r, here, of⟩ := inv.tasks t _ phase
  have up := inv.serving phase
  refine ⟨inv.table.publish made fresh, inv.resolver, fun u task busy => ?_, nofun,
    fun down => absurd up down, inv.found, fun pair mem => ?_,
    forall_mem_cons.mpr ⟨⟨sel, r, here, of⟩, inv.answers⟩⟩
  · obtain ⟨self, before⟩ := of_erase busy
    have stranger : w.owner ≠ some u := fun held =>
      self (some.inj (held.symm.trans owner))
    exact (inv.tasks u task before).mono { Keeps.refl w u with
      owner := fun held => absurd held stranger
      index := fun held => absurd held stranger
      fresh := fun held => absurd held stranger }
  · have mem : pair ∈ w.toOpen := mem
    rw [up] at mem
    cases mem

theorem ScopeInv.refuse (phase : w.tasks t = some task) (unopened : task.isOpen = false) :
    ScopeInv env Keys { w with
      tasks := erase w.tasks t
      owner := if w.owner = some t then none else w.owner } := by
  refine ⟨inv.table, inv.resolver, fun u other busy => ?_, fun i made => ?_,
    fun down => absurd (inv.serving phase) down, inv.found, inv.unopened, inv.answers⟩
  · obtain ⟨self, before⟩ := of_erase busy
    refine (inv.tasks u other before).mono { Keeps.refl w u with owner := fun held => ?_ }
    have stranger : w.owner ≠ some t := fun mine =>
      self (some.inj (held.symm.trans mine))
    rw [if_neg stranger, held]
  · obtain ⟨u, q, busy⟩ := inv.fresh i made
    have other : u ≠ t := by
      rintro rfl
      cases unopened_of phase unopened _ busy
    exact ⟨u, q, by simpa [other] using busy⟩

end

end Steps

/-! ## Every run -/

/-- Every step of every task keeps the scopes apart, if the digest does. -/
theorem scopeInv_step {env : ScopeEnv} {Keys : Set Str} (collisionFree : Set.InjOn env.digest Keys)
    {w w' : ScopeWorld} (step : ScopeStep env Keys w w') (inv : ScopeInv env Keys w) :
    ScopeInv env Keys w' := by
  have selects : ∀ {r q}, selected env r = .ok q →
    (∀ p, q.config = some p → p.key env.json ∈ Keys) →
      Selects env Keys q := by
    intro r q ok key
    obtain ⟨same, _⟩ := selected_ok ok
    exact ⟨by rw [same]; exact ok, key⟩
  cases step with
  | restart _ dirs => exact inv.restart dirs
  | start _ next new => exact inv.start next new
  | served _ ok static found =>
    refine inv.served (selects ok fun p own => ?_) static found
    exact nomatch static.symm.trans own
  | arrive t up free ok static =>
    refine inv.move up (fun task busy => nomatch free.symm.trans busy) ⟨selects ok ?_, ?_⟩
    · exact fun p own => nomatch static.symm.trans own
    · rw [Selected.store, static]
  | route t up free ok own key =>
    refine inv.move up (fun task busy => nomatch free.symm.trans busy) (selects ok fun p own' => ?_)
    rw [← some.inj (own.symm.trans own')]
    exact key
  | @stored t q p p' phase own found =>
    obtain ⟨route, key⟩ := inv.resolver.stores _ _ found
    have sel := phase.elim (inv.tasks t _) (inv.tasks t _)
    have same : p' = p := route.prepared.eq_of_key (sel.route own).prepared key
    have ok : TaskOk env Keys w t (.resolving q (.built p')) :=
      ⟨sel, by rw [Selected.store, own, same]⟩
    obtain phase | phase := phase <;> exact inv.move (inv.serving phase) (unopened_of phase rfl) ok
  | @wait t slot q p phase own _ found =>
    obtain ⟨st, here, key⟩ := inv.resolver.pending _ _ found
    have sel := phase.elim (inv.tasks t _) (inv.tasks t _)
    have same : st.config = p :=
      (inv.resolver.slots slot st here).prepared.eq_of_key (sel.route own).prepared key
    have ok : TaskOk env Keys w t (.awaiting q slot) := ⟨sel, p, st, own, here, same⟩
    obtain phase | phase := phase <;> exact inv.move (inv.serving phase) (unopened_of phase rfl) ok
  | unreserved phase =>
    have sel := inv.tasks _ _ phase
    exact inv.move (inv.serving phase) (unopened_of phase rfl) sel
  | reserve _ phase own _ _ new => exact inv.reserve phase own new
  | @built slot p building =>
    have route := inv.resolver.slots slot _ building
    have entered : ResolverInv env Keys (insert _ (p.key env.json) p) _ _ :=
      { inv.resolver with stores := forall_insert ⟨route, rfl⟩ fun k p' _ =>
        inv.resolver.stores k p' }
    exact inv.resolve ((entered.release (p.key env.json)).advance building rfl)
      (insert_slots_of building rfl)
  | @unbuilt _ p building =>
    exact inv.resolve ((inv.resolver.release (p.key env.json)).advance building rfl)
      (insert_slots_of building rfl)
  | delivered entered =>
    exact inv.resolve (inv.resolver.advance entered rfl) (insert_slots_of entered rfl)
  | @received t _ q p phase result =>
    obtain ⟨sel, p', _, own, here, config⟩ := inv.tasks t _ phase
    obtain rfl := some.inj (result.symm.trans here)
    have same : p = p' := config
    refine inv.move (inv.serving phase) (unopened_of phase rfl) ⟨sel, ?_⟩
    rw [Selected.store, own, same]
  | @found t _ q _ r phase found here =>
    obtain phase | ⟨phase, _⟩ := phase
    all_goals
      obtain ⟨sel, same⟩ := inv.tasks t _ phase
      exact inv.answer collisionFree phase rfl sel same found here
  | queue phase =>
    have ok := inv.tasks _ _ phase
    exact inv.move (inv.serving phase) (unopened_of phase rfl) ok
  | lock phase free missing => exact inv.lock phase free missing
  | opened _ phase new => exact inv.opened phase new
  | publish phase => exact inv.publish phase
  | refuse phase unopened => exact inv.refuse phase unopened

theorem scopeInv_unstarted (env : ScopeEnv) (Keys : Set Str) : ScopeInv env Keys unstarted := by
  refine ⟨tableInv_empty, resolverInv_empty, fun t task busy => ?_, fun id made => ?_,
    fun _ _ => rfl, ⟨nodup_nil, fun pair mem => ?_⟩, fun pair mem => ?_, fun a mem => ?_⟩
  · cases busy
  · cases made
  · cases mem
  · cases mem
  · cases mem

def SameScope (x y : Selected) : Prop :=
  x.name = y.name ∧
    match x.config, y.config with
    | none, none => True
    | some p, some q => p.origin = q.origin ∧ p.bucket = q.bucket ∧ p.broker.url = q.broker.url ∧
        p.broker.request = q.broker.request ∧ p.reservedOrigin = q.reservedOrigin
    | _, _ => False

theorem sameScope_iff {env : ScopeEnv} {Keys : Set Str} (collisionFree : Set.InjOn env.digest Keys)
    {x y : Selected} (first : Selects env Keys x) (second : Selects env Keys y) :
    (x.name = y.name ∧ x.scope = y.scope) ↔ SameScope x y := by
  refine and_congr_right fun _ => ?_
  obtain ⟨_, _, ⟨noConfig, noScope⟩ | ⟨p, s, own, hasScope, _, key⟩⟩ := selected_ok first.ok <;>
    obtain ⟨_, _, ⟨noConfig', noScope'⟩ | ⟨_, _, own', hasScope', _, key'⟩⟩ :=
      selected_ok second.ok
  · simp [noConfig, noConfig', noScope, noScope']
  · simp [noConfig, own', noScope, hasScope']
  · simp [own, noConfig', hasScope, noScope']
  · rw [hasScope, hasScope', own, own', some.injEq]
    refine Iff.trans ?_ (RouteBuildConfig.key_eq_iff env.json)
    constructor
    · rintro rfl
      rw [(first.route own).eq_of_scope collisionFree (second.route own') key key']
    · intro same
      rw [same, key'] at key
      exact (Except.ok.inj key).symm

/-- In every run requests share a directory, and within a process a runtime, exactly when they are
of the same scope; no process has two runtimes of one identity, and a runtime with a scope has no
store but one built for that scope. -/
theorem scopes_isolated {env : ScopeEnv} {Keys : Set Str}
    (collisionFree : Set.InjOn env.digest Keys) {w : ScopeWorld}
    (run : ReflTransGen (ScopeStep env Keys) unstarted w) :
    (∀ a ∈ w.answers, selected env a.selected.request = .ok a.selected ∧
      (a.selected.config = none ↔ a.selected.request.broker = none) ∧
      ∃ r, w.runtimes a.runtime = some r ∧
        ∀ p, a.selected.config = some p → r.backend = some (.built p)) ∧
    (∀ a ∈ w.answers, ∀ b ∈ w.answers, ∀ r s, w.runtimes a.runtime = some r →
      w.runtimes b.runtime = some s →
      (r.directory = s.directory ↔ SameScope a.selected b.selected) ∧
      (r.epoch = s.epoch → (a.runtime = b.runtime ↔ SameScope a.selected b.selected))) ∧
    (∀ i j r s, w.runtimes i = some r → w.runtimes j = some s → r.epoch = s.epoch →
      r.identity = s.identity → i = j) ∧
    ∀ i r scope store, w.runtimes i = some r → r.scope = some scope → r.backend = some store →
      ∃ p, store = .built p ∧ accessScope env.digest (p.key env.json) = .ok scope := by
  have inv : ScopeInv env Keys w := Transition.kept_by_run
    (fun _ _ step => scopeInv_step collisionFree step) (scopeInv_unstarted env Keys) run
  refine ⟨fun a mem => ?_, fun a memA b memB r s here there => ?_, ?_, ?_⟩
  · obtain ⟨sel, r, here, of⟩ := inv.answers a mem
    refine ⟨sel.ok, selected_broker sel.ok, r, here, fun p own => ?_⟩
    rw [of.backend, Selected.store, own]
  · obtain ⟨selA, _, here', ofA⟩ := inv.answers a memA
    obtain ⟨selB, _, there', ofB⟩ := inv.answers b memB
    obtain rfl := some.inj (here.symm.trans here')
    obtain rfl := some.inj (there.symm.trans there')
    have same := sameScope_iff collisionFree selA selB
    rw [← ofA.name, ← ofA.scope, ← ofB.name, ← ofB.scope] at same
    have directories : r.directory = s.directory ↔ r.name = s.name ∧ r.scope = s.scope := by
      constructor
      · intro paths
        obtain ⟨names, scopes⟩ := cacheDir_injective paths
        exact ⟨names, map_injective (fun x y value => by cases x; cases y; cases value; rfl) scopes⟩
      · rintro ⟨names, scopes⟩
        rw [Runtime.directory, Runtime.directory, names, scopes]
    refine ⟨directories.trans same, fun epochs => ?_⟩
    rw [← same]
    constructor
    · intro equal
      rw [equal, there] at here
      obtain rfl := some.inj here
      exact ⟨rfl, rfl⟩
    · rintro ⟨names, scopes⟩
      refine inv.table.unique here there epochs ?_
      rw [Runtime.identity, Runtime.identity, names, scopes]
  · exact fun i j r s first second epochs same => inv.table.unique first second epochs same
  · intro i r scope store here hasScope bound
    obtain ⟨p, built, _, key⟩ := (inv.table.bound i r here).keyed scope store hasScope bound
    exact ⟨p, built, key⟩

/-! ## A run with one scope -/

def plainRules : OriginRules where
  validate _ := .ok ()
  endpoint host _ := .ok (host, true)
  normalizeRequest broker _ _ := .ok (broker.url, broker.request)
  s3PathStyle := none

def sampleEnv : ScopeEnv where
  rules := plainRules
  backend := .gcs
  configured := none
  digest _ := List.replicate 64 'a'
  json := .compact

def sampleBroker : BrokerConfig where
  url := "http://broker/".toList
  request := .obj [("bucket".toList, .str "b".toList)]
  origin := some { endpoint := some "storage".toList }

def sampleRoute : RouteBuildConfig where
  bucket := "b".toList
  origin := .gcs "storage".toList true
  broker := ⟨"http://broker/".toList, .obj [("bucket".toList, .str "b".toList)], 3000⟩
  reservedOrigin := none

def scopedRequest : ScopeRequest := ⟨none, none, some sampleBroker, .ok (.gcs, "b".toList)⟩

def sharedRequest : ScopeRequest := ⟨none, none, none, .ok (.gcs, "b".toList)⟩

def sampleScope : AccessScope := ⟨"v1-".toList ++ List.replicate 64 'a', by decide⟩

def scopedSelection : Selected :=
    ⟨scopedRequest, defaultNamespace, some sampleRoute, some sampleScope⟩

def sharedSelection : Selected := ⟨sharedRequest, defaultNamespace, none, none⟩

theorem scoped_selects : selected sampleEnv scopedRequest = .ok scopedSelection := by rfl

theorem shared_selects : selected sampleEnv sharedRequest = .ok sharedSelection := by rfl

/-- Two requests of the default namespace, one with a configuration of its own: they get different
directories. -/
theorem scopes_isolated_sample :
    ∃ w, ReflTransGen (ScopeStep sampleEnv {sampleRoute.key .compact}) unstarted w ∧
      w.answers = [⟨sharedSelection, 1⟩, ⟨scopedSelection, 0⟩] ∧
      ∀ r s, w.runtimes 0 = some r → w.runtimes 1 = some s → r.directory ≠ s.directory := by
  have collisionFree : Set.InjOn sampleEnv.digest {sampleRoute.key .compact} :=
    fun _ first _ second _ => first.trans second.symm
  have routed := ReflTransGen.refl.tail
    (@ScopeStep.route sampleEnv {sampleRoute.key .compact} unstarted 0
    _ _ sampleRoute rfl rfl scoped_selects rfl rfl)
  have missed := routed.tail (@ScopeStep.unreserved _ _ _ 0 _ _ rfl rfl rfl rfl)
  have reserved := missed.tail (@ScopeStep.reserve _ _ _ 0 _ _ 0 rfl rfl rfl rfl rfl)
  have built := reserved.tail (@ScopeStep.built _ _ _ 0 _ rfl)
  have delivered := built.tail (@ScopeStep.delivered _ _ _ 0 _ _ rfl)
  have received := delivered.tail (@ScopeStep.received _ _ _ 0 0 _ _ rfl rfl)
  have queued := received.tail (@ScopeStep.queue _ _ _ 0 _ _ rfl rfl)
  have locked := queued.tail (@ScopeStep.lock _ _ _ 0 _ _ rfl rfl rfl)
  have opened := locked.tail (@ScopeStep.opened _ _ _ 0 _ _ 0 rfl rfl)
  have published := opened.tail (@ScopeStep.publish _ _ _ 0 0 _ rfl)
  have arrived := published.tail (@ScopeStep.arrive _ _ _ 1 _ _ rfl rfl shared_selects rfl rfl)
  have queued' := arrived.tail (@ScopeStep.queue _ _ _ 1 _ _ rfl rfl)
  have locked' := queued'.tail (@ScopeStep.lock _ _ _ 1 _ _ rfl rfl rfl)
  have opened' := locked'.tail (@ScopeStep.opened _ _ _ 1 _ _ 1 rfl rfl)
  have published' := opened'.tail (@ScopeStep.publish _ _ _ 1 1 _ rfl)
  refine ⟨_, published', rfl, fun r s here there paths => ?_⟩
  obtain ⟨_, share, _⟩ := scopes_isolated collisionFree published'
  have both := (share ⟨scopedSelection, 0⟩ (List.mem_cons_of_mem _ List.mem_cons_self)
    ⟨sharedSelection, 1⟩ List.mem_cons_self r s here there).1.mp paths
  exact both.2

end Talon.Worker
