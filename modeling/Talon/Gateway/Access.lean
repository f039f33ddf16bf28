import Talon.Core.Key
import Talon.Gateway.S3Query

/-!
# What a request asks for, and what a policy allows

The accesses that adapters declare and the grants they are checked against.  A grant covers one
operation on the names of a namespace that begin with its prefix.
-/

set_option autoImplicit false

namespace Talon.Gateway

open Wire (Bytes)
open Talon.Core (Backend)

inductive GatewayOperation
  | stat
  | probe
  | read
  | list
  | write
  | delete
  | unsupported
deriving DecidableEq

inductive ProviderProtocol
  | s3
  | azure
deriving DecidableEq

inductive GatewayRoute
  | cache
  | cacheOnly
  | origin
  | none
deriving DecidableEq

structure ObjectId where
  backend : Backend
  bucket : Bytes
  objectPath : Bytes
deriving DecidableEq

inductive GatewayTarget
  | object (id : ObjectId)
  | inNamespace (backend : Backend) (name : Bytes) (listPrefix : Option Bytes)
  /-- A mutation whose objects are named only in the body of the request. -/
  | namespaceBodyObjects (backend : Backend) (name : Bytes)
deriving DecidableEq

structure GatewayAccessRequirement where
  operation : GatewayOperation
  providerAccount : Option Bytes
  target : GatewayTarget
deriving DecidableEq

structure GatewayAccess where
  operation : GatewayOperation
  providerAccount : Option Bytes
  target : GatewayTarget
  additional : List GatewayAccessRequirement
deriving DecidableEq

structure AuthenticatedPrincipal where
  id : Bytes
  providerAccount : Bytes
deriving DecidableEq

structure AuthorizationGrant where
  id : Bytes
  principal : Bytes
  protocol : ProviderProtocol
  providerAccount : Bytes
  namespaceName : Bytes
  objectPrefix : Option Bytes
  operations : List GatewayOperation
deriving DecidableEq

structure CompiledPolicy where
  grants : List AuthorizationGrant

inductive RequestedPrefix
  | exact (path : Option Bytes)
  | any

def targetParts : GatewayTarget → Backend × Bytes × RequestedPrefix
  | .object id => (id.backend, id.bucket, .exact (some id.objectPath))
  | .inNamespace backend name listPrefix => (backend, name, .exact listPrefix)
  | .namespaceBodyObjects backend name => (backend, name, .any)

def protocolBackend : ProviderProtocol → Backend
  | .s3 => .s3
  | .azure => .azure

def prefixContains : Option Bytes → RequestedPrefix → Bool
  | _, .any => true
  | none, .exact _ => true
  | some _, .exact none => false
  | some grant, .exact (some requested) => grant.isPrefixOf requested

structure RequestAuthorization where
  policy : CompiledPolicy
  principal : AuthenticatedPrincipal
  protocol : ProviderProtocol

namespace RequestAuthorization

def allowsRequirement (auth : RequestAuthorization) (operation : GatewayOperation)
    (providerAccount : Option Bytes) (target : GatewayTarget) : Bool :=
  if providerAccount.any (· ≠ auth.principal.providerAccount) then false
  else
    let (backend, name, requested) := targetParts target
    backend = protocolBackend auth.protocol &&
      auth.policy.grants.any fun grant =>
        grant.principal = auth.principal.id && grant.protocol = auth.protocol &&
          grant.providerAccount = auth.principal.providerAccount && grant.namespaceName = name &&
          grant.operations.contains operation && prefixContains grant.objectPrefix requested

def allows (auth : RequestAuthorization) (access : GatewayAccess) : Bool :=
  auth.allowsRequirement access.operation access.providerAccount access.target &&
    access.additional.all fun r => auth.allowsRequirement r.operation r.providerAccount r.target

end RequestAuthorization

inductive AuthorizationPolicyError
  | invalidGrant (id : Bytes)
  | duplicateGrantId (id : Bytes)
  | ambiguousGrant (id : Bytes)
deriving DecidableEq

structure Selector where
  principal : Bytes
  protocol : ProviderProtocol
  providerAccount : Bytes
  namespaceName : Bytes
  objectPrefix : Option Bytes
  operation : GatewayOperation
deriving DecidableEq

def AuthorizationGrant.selector (grant : AuthorizationGrant) (operation : GatewayOperation) :
    Selector :=
  ⟨grant.principal, grant.protocol, grant.providerAccount, grant.namespaceName, grant.objectPrefix,
    operation⟩

/-- The operations of one grant, with those before it and the selectors of earlier grants. -/
def checkOperations (grant : AuthorizationGrant) (seen : List GatewayOperation)
    (selectors : List Selector) :
    List GatewayOperation → Except AuthorizationPolicyError (List Selector)
  | [] => .ok selectors
  | operation :: rest =>
    if operation = .unsupported ∨ operation ∈ seen then .error (.invalidGrant grant.id)
    else if grant.selector operation ∈ selectors then .error (.ambiguousGrant grant.id)
    else checkOperations grant (operation :: seen) (grant.selector operation :: selectors) rest

def checkGrants (ids : List Bytes) (selectors : List Selector) :
    List AuthorizationGrant → Except AuthorizationPolicyError Unit
  | [] => .ok ()
  | grant :: rest =>
    if grant.id = [] ∨ grant.principal = [] ∨ grant.providerAccount = [] ∨
        grant.namespaceName = [] ∨ grant.operations = [] then .error (.invalidGrant grant.id)
    else if grant.id ∈ ids then .error (.duplicateGrantId grant.id)
    else if grant.objectPrefix = some [] then .error (.invalidGrant grant.id)
    else
      match checkOperations grant [] selectors grant.operations with
      | .error e => .error e
      | .ok selectors => checkGrants (grant.id :: ids) selectors rest

def compile (grants : List AuthorizationGrant) : Except AuthorizationPolicyError CompiledPolicy :=
  match checkGrants [] [] grants with
  | .error e => .error e
  | .ok () => .ok ⟨grants⟩

end Talon.Gateway
