import Talon.Gateway.S3Policy

/-!
# Requests served while the policy changes

The gateway serves many requests at once.  A request takes the installed policy when it arrives,
binds the grants published in it at that moment, and from then on makes one call after the other;
between any two of these steps the policy may be reloaded or another one installed, and the request
may be dropped at its deadline.
-/

set_option autoImplicit false

namespace Talon.Gateway

open Wire (Bytes)
open Text (ascii)
open Calls (Within)
open Relation (ReflTransGen)
open PartialMap

/-- A request that was authenticated: before its policy is bound, and after. -/
inductive Handling
  | arrived (r : Request) (principal : Option AuthenticatedPrincipal) (policy : Option Nat)
  | bound (r : Request) (principal : Option AuthenticatedPrincipal)
      (snapshot : Option CompiledPolicy)
      (rest : Handler GatewayResponse) (calls : List Effect)

/-- The policy cells, the one that is installed, and the requests in progress. -/
structure GatewayRuntime where
  published : Nat → CompiledPolicy
  authorization : Option Nat
  requests : Nat → Option Handling

namespace GatewayRuntime

def withRequest (s : GatewayRuntime) (id : Nat) (h : Handling) : GatewayRuntime :=
  { s with requests := PartialMap.insert s.requests id h }

def without (s : GatewayRuntime) (id : Nat) : GatewayRuntime :=
  { s with requests := PartialMap.erase s.requests id }

@[simp] theorem withRequest_requests (s : GatewayRuntime) (id : Nat) (h : Handling) :
    (s.withRequest id h).requests = PartialMap.insert s.requests id h := rfl

@[simp] theorem without_requests (s : GatewayRuntime) (id : Nat) :
    (s.without id).requests = PartialMap.erase s.requests id := rfl

inductive Step (services : S3Services) (config : S3AdapterConfig) :
    GatewayRuntime → GatewayRuntime → Prop
  /-- A reload that does not compile leaves the last good policy. -/
  | reload {s} (policy : Nat) {grants compiled} (accepted : compile grants = .ok compiled) :
      Step services config s { s with published := Function.update s.published policy compiled }
  | install {s} (policy : Nat) : Step services config s { s with authorization := some policy }
  | arrive {s} (id : Nat) (r : Request) (principal : Option AuthenticatedPrincipal)
      (fresh : s.requests id = none) :
      Step services config s (s.withRequest id (.arrived r principal s.authorization))
  | bind {s id r principal policy} (waits : s.requests id = some (.arrived r principal policy)) :
      Step services config s (s.withRequest id (.bound r principal (policy.map s.published)
        (adapterHandler services config (policy.map s.published) principal r) []))
  | call {s id r principal snapshot rest calls e next}
      (running : s.requests id = some (.bound r principal snapshot rest calls))
      (waits : rest.pending = some ⟨e, next⟩) (answer : e.Answer) :
      Step services config s
        (s.withRequest id (.bound r principal snapshot (next answer) (calls ++ [e])))
  | drop {s} (id : Nat) : Step services config s (s.without id)

end GatewayRuntime

section Executed

variable {services : S3Services} {config : S3AdapterConfig} {policy : CompiledPolicy}
  {principal : Option AuthenticatedPrincipal} {r : Request}

/-- The request was classified and the snapshot grants its principal what it asks for. -/
def Admitted (services : S3Services) (config : S3AdapterConfig) (policy : CompiledPolicy)
    (principal : Option AuthenticatedPrincipal) (r : Request) : Prop :=
  ∃ access, classifyAccess services.readers config r = .ok access ∧
    (bindPolicy (some policy) principal).any (·.allows access) = true

/-- A call of an admitted request that the snapshot grants its principal. -/
def Executes (services : S3Services) (config : S3AdapterConfig) (policy : CompiledPolicy)
    (principal : Option AuthenticatedPrincipal) (r : Request) (e : Effect) : Prop :=
  Admitted services config policy principal r ∧
    ∃ identity, principal = some identity ∧ Allowed services ⟨policy, identity, .s3⟩ r e

theorem within_adapterHandler :
    Within (Executes services config policy principal r) (fun _ => True)
      (adapterHandler services config (some policy) principal r) := by
  refine Calls.within_lift fun access classified => ?_
  by_cases allowed : (bindPolicy (some policy) principal).any (·.allows access) = true
  · rw [if_pos allowed]
    cases principal with
    | none => cases allowed
    | some identity =>
      exact Calls.within_mono
        (fun e granted => ⟨⟨access, classified, allowed⟩, identity, rfl, granted⟩)
        (stays_handleRequest rfl allowed classified)
  · rw [if_neg allowed]
    trivial

end Executed

section Runs

variable {services : S3Services} {config : S3AdapterConfig}

/-- What a bound request with a snapshot called, and may still call, its snapshot grants. -/
def Handling.Within (services : S3Services) (config : S3AdapterConfig) : Handling → Prop
  | .bound r principal (some policy) rest calls =>
    (∀ e ∈ calls, Executes services config policy principal r e) ∧
      Calls.Within (Executes services config policy principal r) (fun _ => True) rest
  | _ => True

def GatewayRuntime.Within (services : S3Services) (config : S3AdapterConfig) (s : GatewayRuntime) :
    Prop :=
  ∀ id handling, s.requests id = some handling → handling.Within services config

theorem GatewayRuntime.Within.withRequest {s : GatewayRuntime} {id : Nat} {handling : Handling}
    (holds : s.Within services config) (one : handling.Within services config) :
    (s.withRequest id handling).Within services config := by
  intro j other found
  rcases eq_or_ne j id with rfl | ne
  · rw [GatewayRuntime.withRequest_requests, insert_self] at found
    cases found
    exact one
  · rw [GatewayRuntime.withRequest_requests, insert_of_ne ne] at found
    exact holds j other found

theorem GatewayRuntime.Step.within {s t : GatewayRuntime}
    (step : GatewayRuntime.Step services config s t) (holds : s.Within services config) :
    t.Within services config := by
  cases step with
  | reload => exact holds
  | install => exact holds
  | arrive => exact holds.withRequest trivial
  | @bind _ r _ policy =>
    refine holds.withRequest ?_
    cases policy with
    | none => trivial
    | some => exact ⟨fun e mem => absurd mem List.not_mem_nil, within_adapterHandler⟩
  | @call _ r _ snapshot _ _ e _ running waits answer =>
    refine holds.withRequest ?_
    cases snapshot with
    | none => trivial
    | some =>
      obtain ⟨made, ahead⟩ := holds _ _ running
      obtain ⟨granted, after⟩ := Calls.within_pending ahead waits
      refine ⟨fun e' mem => ?_, after answer⟩
      rcases List.mem_append.mp mem with old | new
      · exact made e' old
      · rw [List.mem_singleton.mp new]
        exact granted
  | drop id =>
    intro j handling found
    rcases eq_or_ne j id with rfl | ne
    · simp at found
    · rw [GatewayRuntime.without_requests, erase_of_ne ne] at found
      exact holds j handling found

end Runs

/-- Whatever is reloaded or installed meanwhile, a request with a policy makes only calls that the
snapshot it bound grants its principal, and none if it was not classified or not allowed. -/
theorem executes_what_it_authorized (services : S3Services) (config : S3AdapterConfig)
    {start now : GatewayRuntime} (idle : start.requests = PartialMap.empty)
    (run : ReflTransGen (GatewayRuntime.Step services config) start now) {id : Nat} {r : Request}
    {principal : Option AuthenticatedPrincipal} {policy : CompiledPolicy}
    {rest : Handler GatewayResponse} {calls : List Effect}
    (handled : now.requests id = some (.bound r principal (some policy) rest calls)) :
    (∀ e ∈ calls, ∃ identity, principal = some identity ∧
        Allowed services ⟨policy, identity, .s3⟩ r e) ∧
      (¬Admitted services config policy principal r → calls = []) := by
  have holds : now.Within services config :=
    Transition.kept_by_run (fun _ _ step => step.within)
      (fun j handling found => by rw [idle] at found; cases found) run
  obtain ⟨made, _⟩ := holds _ _ handled
  refine ⟨fun e mem => (made e mem).2, fun rejected => ?_⟩
  exact List.eq_nil_iff_forall_not_mem.mpr fun e mem => rejected (made e mem).1

section Sample

def servingConfig : S3AdapterConfig := ⟨ascii "s3.local", true, 4096, 1024, .cache⟩

def sampleServices : S3Services :=
  ⟨.documented, id, fun _ => .ok [], fun _ _ => none, id, fun _ => none⟩

def samplePolicy : CompiledPolicy :=
  ⟨[⟨ascii "grant", ascii "alice", .s3, ascii "account", ascii "b", some (ascii "k"), [.delete]⟩]⟩

def samplePrincipal : AuthenticatedPrincipal := ⟨ascii "alice", ascii "account"⟩

def sampleDelete : Request := ⟨.delete, ascii "/b/k", none, [(ascii "host", ascii "gw")]⟩

theorem Effect.answers (e : Effect) : Nonempty e.Answer := by
  cases e with
  | origin => exact ⟨(none : Option HttpResponse)⟩
  | drain | spoolDecoded => exact ⟨(.ok () : Except S3RequestError Unit)⟩
  | cacheStream => exact ⟨(.ok () : Except CacheReadError Unit)⟩
  | cacheNext => exact ⟨(none : Option (Except CacheReadError Unit))⟩
  | spoolAndHash | collectBody => exact ⟨(.ok [] : Except S3RequestError Bytes)⟩
  | reserve | publish | authorizeUpload => exact ⟨true⟩
  | invalidateObject | cancelReservation | removeUpload => exact ⟨()⟩

def sampleRuntime : GatewayRuntime := ⟨fun _ => samplePolicy, some 0, PartialMap.empty⟩

end Sample

/-- A deletion goes to the origin although the policy was emptied after it was bound. -/
theorem executes_what_it_authorized_delete :
    ∃ now rest e, ReflTransGen (GatewayRuntime.Step sampleServices servingConfig)
      sampleRuntime now ∧ now.published 0 = ⟨[]⟩ ∧
      now.requests 7 = some (.bound sampleDelete (some samplePrincipal)
        (some samplePolicy) rest [e]) ∧
      Allowed sampleServices ⟨samplePolicy, samplePrincipal, .s3⟩ sampleDelete e := by
  have waits :
    (adapterHandler sampleServices servingConfig (some samplePolicy) (some samplePrincipal)
      sampleDelete).pending.isSome = true := by decide +kernel
  obtain ⟨⟨e, next⟩, waits⟩ := Option.isSome_iff_exists.mp waits
  let arrived := sampleRuntime.withRequest 7 (.arrived sampleDelete (some samplePrincipal) (some 0))
  let serving := Handling.bound sampleDelete (some samplePrincipal) (some samplePolicy)
  let bound := arrived.withRequest 7 (serving
    (adapterHandler sampleServices servingConfig (some samplePolicy) (some samplePrincipal)
      sampleDelete) [])
  let emptied : GatewayRuntime :=
    { bound with published := Function.update bound.published 0 ⟨[]⟩ }
  obtain ⟨answer⟩ := e.answers
  let now := emptied.withRequest 7 (serving (next answer) ([] ++ [e]))
  have run : ReflTransGen (GatewayRuntime.Step sampleServices servingConfig) sampleRuntime now :=
    (((ReflTransGen.refl.tail (.arrive 7 sampleDelete (some samplePrincipal) rfl)).tail
      (.bind (s := arrived) (insert_self ..))).tail
      (.reload (s := bound) 0 (show compile [] = .ok _ from rfl))).tail
      (.call (s := emptied) (insert_self ..) waits answer)
  have emptied_now : now.published 0 = ⟨[]⟩ :=
    show Function.update bound.published 0 ⟨[]⟩ 0 = ⟨[]⟩ from Function.update_self ..
  have handled : now.requests 7 = some (serving (next answer) ([] ++ [e])) := by
    rw [GatewayRuntime.withRequest_requests, insert_self]
  obtain ⟨granted, _⟩ := executes_what_it_authorized sampleServices servingConfig rfl run handled
  obtain ⟨_, same, allowed⟩ := granted e List.mem_cons_self
  refine ⟨_, _, e, run, emptied_now, handled, ?_⟩
  cases same
  exact allowed

end Talon.Gateway
