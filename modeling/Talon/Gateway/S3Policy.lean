import Talon.Lib.Transition
import Talon.Gateway.S3Adapter

/-!
# What the gateway executes is what it authorized

Grants cover resources: an object, a listing from a prefix, a bucket.  Every origin call exercises
an operation on one of them, and a copy or a batch deletion on several.  The handlers of the adapter
stay within what the policy snapshot of their request grants, whatever the origin, the cache, the
body and the multipart registry answer, and whatever happens to the policy meanwhile.
-/

set_option autoImplicit false

namespace Talon.Gateway

open Wire (Bytes)
open Fallible List
open Text (ascii)
open Calls (Prog Within)
open Calls.Prog (ask lift)

variable {bucket uploadId : Bytes}

section Grants

inductive Resource
  | object (id : ObjectId)
  | listing (bucket start : Bytes)
  | bucket (name : Bytes)

/-- Names that begin with the prefix of the grant; a bucket as a whole only without a prefix. -/
def AuthorizationGrant.Covers (grant : AuthorizationGrant) : Resource → Prop
  | .object id => id.backend = .s3 ∧ grant.namespaceName = id.bucket ∧
      ∀ start, grant.objectPrefix = some start → start <+: id.objectPath
  | .listing bucket from_ => grant.namespaceName = bucket ∧
      ∀ start, grant.objectPrefix = some start → start <+: from_
  | .bucket name => grant.namespaceName = name ∧ grant.objectPrefix = none

/-- The snapshot has a grant of this principal, protocol and account for the operation on the
resource. -/
def Granted (auth : RequestAuthorization) (operation : GatewayOperation) (resource : Resource) :
    Prop :=
  ∃ grant ∈ auth.policy.grants, grant.principal = auth.principal.id ∧
    grant.protocol = auth.protocol ∧
    grant.providerAccount = auth.principal.providerAccount ∧ operation ∈ grant.operations ∧
      grant.Covers resource

variable {auth : RequestAuthorization} {operation : GatewayOperation} {account : Option Bytes}

theorem allowsRequirement_grant {target : GatewayTarget}
    (h : auth.allowsRequirement operation account target = true) :
    (targetParts target).1 = protocolBackend auth.protocol ∧ ∃ grant ∈ auth.policy.grants,
      grant.principal = auth.principal.id ∧ grant.protocol = auth.protocol ∧
        grant.providerAccount = auth.principal.providerAccount ∧
          grant.namespaceName = (targetParts target).2.1 ∧ operation ∈ grant.operations ∧
            prefixContains grant.objectPrefix (targetParts target).2.2 = true := by
  unfold RequestAuthorization.allowsRequirement at h
  split_ifs at h
  simp only [Bool.and_eq_true, decide_eq_true_eq, any_eq_true] at h
  obtain ⟨backend, grant, mem, ⟨⟨⟨⟨principal, protocol⟩, account_⟩, name⟩, contains⟩, covers⟩ := h
  exact ⟨backend, grant, mem, principal, protocol, account_, name, contains_iff_mem.mp contains,
    covers⟩

theorem prefixContains_some {grant : Option Bytes} {path : Bytes}
    (h : prefixContains grant (.exact (some path)) = true) :
    ∀ start, grant = some start → start <+: path := by
  rintro _ rfl
  exact isPrefixOf_iff_prefix.mp h

theorem granted_object (s3 : auth.protocol = .s3) {id : ObjectId}
    (h : auth.allowsRequirement operation account (.object id) = true) :
    Granted auth operation (.object id) := by
  obtain ⟨backend, grant, mem, principal, protocol, account_, name, allowed, covers⟩ :=
    allowsRequirement_grant h
  rw [s3] at backend
  exact ⟨grant, mem, principal, protocol, account_, allowed, backend, name,
    prefixContains_some covers⟩

theorem granted_listing {listPrefix : Option Bytes}
    (h : auth.allowsRequirement operation account (.inNamespace .s3 bucket listPrefix) = true) :
    Granted auth operation (.listing bucket (listPrefix.getD [])) := by
  obtain ⟨_, grant, mem, principal, protocol, account_, name, allowed, covers⟩ :=
    allowsRequirement_grant h
  refine ⟨grant, mem, principal, protocol, account_, allowed, name, ?_⟩
  cases listPrefix with
  | some => exact prefixContains_some covers
  | none =>
    intro _ some_
    rw [some_] at covers
    cases covers

theorem granted_bucket
    (h : auth.allowsRequirement operation account (.inNamespace .s3 bucket none) = true) :
    Granted auth operation (.bucket bucket) := by
  obtain ⟨_, grant, mem, principal, protocol, account_, name, allowed, covers⟩ :=
    allowsRequirement_grant h
  refine ⟨grant, mem, principal, protocol, account_, allowed, name, ?_⟩
  cases none_ : grant.objectPrefix with
  | none => rfl
  | some =>
    rw [none_] at covers
    cases covers

end Grants

section Calls

/-- Every copy source among the headers names an object that may be read. -/
def ReadsSources (readers : Readers) (auth : RequestAuthorization) (headers : Headers) : Prop :=
  ∀ value ∈ headerValues headers copySourceName,
    ∃ source, parseCopySource readers value = .ok source ∧ Granted auth .read (.object source)

def multipartOperationOf (method : Method) : GatewayOperation :=
  if method = .get then .list else if method = .delete then .delete else .write

/-- What a call of the origin does is granted; the metadata fetched for a `GET` counts as its read.
-/
def Authorized (services : S3Services) (auth : RequestAuthorization) (r : Request) :
    OriginCall → Prop
  | .head object _ => Granted auth (if r.method = .get then .read else .stat) (.object object)
  | .get object _ _ => Granted auth .read (.object object)
  | .list bucket listPrefix _ _ _ _ | .listV1 bucket listPrefix _ _ _ _ =>
    Granted auth .list (.listing bucket listPrefix)
  | .headBucket bucket => Granted auth .probe (.bucket bucket)
  | .putBody object headers _ _ | .putFile object headers _ _ | .copy object headers =>
    Granted auth .write (.object object) ∧ ReadsSources services.readers auth headers
  | .delete object _ => Granted auth .delete (.object object)
  | .deleteObjects bucket headers body =>
    (∃ keys, services.parseDeleteObjects body = .ok keys ∧
      ∀ key ∈ keys, Granted auth .delete (.object ⟨.s3, bucket, key⟩)) ∧
      ReadsSources services.readers auth headers
  | .multipart request | .multipartBody request _ _ | .multipartFile request _ _ =>
    Granted auth (multipartOperationOf request.method) (.object request.object) ∧
      ReadsSources services.readers auth request.headers

/-- A read of the cache counts as a read of the object; the other effects are local. -/
def Allowed (services : S3Services) (auth : RequestAuthorization) (r : Request) : Effect → Prop
  | .origin c => Authorized services auth r c
  | .cacheStream request => Granted auth .read (.object request.object)
  | _ => True

end Calls

variable {readers : Readers} {out headers : Headers} {q : S3Query}

section Forwarded

theorem headerValues_append (a b : Headers) (name : Bytes) :
    headerValues (a ++ b) name = headerValues a name ++ headerValues b name := by
  simp [headerValues]

theorem headerValues_cons_self (name value : Bytes) (rest : Headers) :
    headerValues ((name, value) :: rest) name = value :: headerValues rest name := by
  simp [headerValues]

theorem headerValues_cons_of_ne {name other : Bytes} (ne : other ≠ name) (value : Bytes)
    (rest : Headers) : headerValues ((other, value) :: rest) name = headerValues rest name := by
  simp [headerValues, ne]

variable {headers : Headers}

theorem headerValues_eq_nil {name : Bytes} (h : headers.any (·.1 = name) = false) :
    headerValues headers name = [] := by
  induction headers with
  | nil => rfl
  | cons x _ ih =>
    simp only [any_cons, Bool.or_eq_false_iff, decide_eq_false_iff_not] at h
    obtain ⟨_, _⟩ := x
    rw [headerValues_cons_of_ne h.1, ih h.2]

variable {copying : Bool} {name : Bytes}

variable {output : Headers}

theorem mutationHeaders_dropped (dropped : forwarded copying name = false)
    (h : mutationHeadersFrom readers copying output headers = .ok out) :
    headerValues out name = headerValues output name := by
  induction headers generalizing output with
  | nil =>
    cases h
    rfl
  | cons x _ ih =>
    obtain ⟨other, _⟩ := x
    rw [mutationHeadersFrom] at h
    split_ifs at h with skip twice
    · exact ih h
    · cases h
    · split at h
      · cases h
      · have ne : other ≠ name := by
          rintro rfl
          exact skip dropped
        rw [ih h, headerValues_append, headerValues_cons_of_ne ne]
        exact append_nil _

theorem mutationHeaders_kept (kept : forwarded copying name = true)
    (single : (headerValues output name).length ≤ 1)
    (h : mutationHeadersFrom readers copying output headers = .ok out) :
    headerValues out name = headerValues output name ++ headerValues headers name ∧
      (headerValues out name).length ≤ 1 := by
  induction headers generalizing output with
  | nil =>
    cases h
    exact ⟨(append_nil _).symm, single⟩
  | cons x _ ih =>
    obtain ⟨other, _⟩ := x
    rw [mutationHeadersFrom] at h
    by_cases same : other = name
    · subst same
      rw [if_neg (by rw [kept]; exact nofun)] at h
      split_ifs at h with twice
      · cases h
      · split at h
        · cases h
        · rename_i text shown
          have empty := headerValues_eq_nil ((Bool.not_eq_true _).mp twice)
          have one : headerValues (output ++ [(other, text)]) other = [text] := by
            rw [headerValues_append, empty, headerValues_cons_self]
            rfl
          obtain ⟨values, bound⟩ := ih (by rw [one]; exact Nat.le_refl 1) h
          refine ⟨?_, bound⟩
          rw [values, one, empty, headerValues_cons_self, readers.toStr_some shown]
          rfl
    · rw [headerValues_cons_of_ne same]
      split_ifs at h with skip twice
      · exact ih single h
      · cases h
      · split at h
        · cases h
        · rename_i text _
          have unchanged : headerValues (output ++ [(other, text)]) name = headerValues
              output name := by
            rw [headerValues_append, headerValues_cons_of_ne same]
            exact append_nil _
          rw [← unchanged]
          exact ih (by rwa [unchanged]) h

theorem copySource_dropped : forwarded false copySourceName = false := by decide +kernel

theorem copySource_kept : forwarded true copySourceName = true := by decide +kernel

variable {auth : RequestAuthorization}

theorem readsSources_of_plain (h : mutationHeaders readers headers false = .ok out) :
    ReadsSources readers auth out := by
  intro _ mem
  rw [mutationHeaders_dropped copySource_dropped h] at mem
  cases mem

theorem readsSources_strip (h : headerValues headers copySourceName = []) :
    ReadsSources readers auth (stripAwsChunkedEncoding headers) := by
  intro _ mem
  obtain ⟨entry, held, rfl⟩ := mem_map.mp mem
  obtain ⟨inside, named⟩ := mem_filter.mp held
  obtain ⟨source, present, made⟩ := mem_filterMap.mp inside
  have same : source.1 = copySourceName := by
    have kept : entry.1 = source.1 := by
      dsimp only at made
      split_ifs at made <;> cases made <;> rfl
    rw [← kept]
    exact of_decide_eq_true named
  have listed : source.2 ∈ headerValues headers copySourceName :=
    mem_map.mpr ⟨source, mem_filter.mpr ⟨present, decide_eq_true same⟩, rfl⟩
  rw [h] at listed
  cases listed

theorem readsSources_of_copy {r : Request} {additional : List GatewayAccessRequirement}
    (s3 : auth.protocol = .s3) (put : r.method = .put)
    (required : copyRequirements readers r.method r.headers = .ok additional)
    (allowed : ∀ x ∈ additional,
      auth.allowsRequirement x.operation x.providerAccount x.target = true)
    (h : mutationHeaders readers r.headers true = .ok out) : ReadsSources readers auth out := by
  intro value mem
  have none_ : (headerValues [] copySourceName).length ≤ 1 := Nat.zero_le 1
  obtain ⟨values, bound⟩ := mutationHeaders_kept copySource_kept none_ h
  have given : headerValues r.headers copySourceName = [value] := by
    change _ = [] ++ _ at values
    rw [nil_append] at values
    rw [values] at mem bound
    match listed : headerValues r.headers copySourceName with
    | [] =>
      rw [listed] at mem
      cases mem
    | [v] =>
      rw [listed] at mem
      rw [mem_singleton.mp mem]
    | _ :: _ :: _ =>
      rw [listed] at bound
      exact absurd bound (by simp)
  rw [copyRequirements, if_pos put] at required
  obtain ⟨_, read, required⟩ := bind_ok required
  rw [copySource, headerValue, given] at read
  obtain ⟨source, parsed, read⟩ := bind_ok read
  cases read
  cases required
  exact ⟨source, parsed, granted_object s3 (allowed _ mem_cons_self)⟩

end Forwarded

section Handlers

open Calls (within_pure within_bind within_ask within_lift)

variable {services : S3Services} {config : S3AdapterConfig} {auth : RequestAuthorization}
  {r : Request}

abbrev Stays (services : S3Services) (auth : RequestAuthorization) (r : Request) {α : Type}
    (p : Handler α) : Prop :=
  Within (Allowed services auth r) (fun _ => True) p

theorem stays_pure {α : Type} (value : α) : Stays services auth r (pure value) :=
    within_pure trivial

theorem stays_received {α : Type} (x : Except S3RequestError α) :
    Stays services auth r (received x) := by
  cases x <;> trivial

theorem stays_whenever {c : Bool} {p : Handler Unit} (h : Stays services auth r p) :
    Stays services auth r (whenever c p) := by
  unfold whenever
  split_ifs
  · exact h
  · exact stays_pure ()

variable {c : OriginCall}

theorem stays_tryOrigin (h : Authorized services auth r c) : Stays services auth r (tryOrigin c) :=
  within_ask h

theorem stays_callOrigin (e : S3RequestError) (h : Authorized services auth r c) :
    Stays services auth r (callOrigin e c) := by
  refine within_bind (stays_tryOrigin h) fun answer _ => ?_
  cases answer <;> trivial

theorem stays_invalidate (object : ObjectId) : Stays services auth r (invalidate object) :=
  within_ask trivial

theorem stays_invalidateAll (bucket : Bytes) (keys : List Bytes) :
    Stays services auth r (invalidateAll bucket keys) := by
  induction keys with
  | nil => trivial
  | cons _ _ ih => exact within_bind (stays_invalidate _) fun _ _ => ih

theorem stays_spoolAndHash (len : Nat) : Stays services auth r (spoolAndHash len) :=
  within_bind (within_ask trivial) fun answer _ => stays_received answer

theorem stays_collectBody (len : Nat) : Stays services auth r (collectBody len) :=
  within_bind (within_ask trivial) fun answer _ => stays_received answer

theorem stays_drain : Stays services auth r drain :=
  within_bind (within_ask trivial) fun answer _ => stays_received answer

theorem within_prepareWriteBody :
    Within (Allowed services auth r) (fun x => ReadsSources services.readers auth x.1)
      (prepareWriteBody services r) := by
  refine within_lift fun payloadHash _ => ?_
  split_ifs
  · refine within_lift fun len _ => within_lift fun algorithm _ => within_lift
      fun headers passed => ?_
    refine within_bind (within_bind (within_ask trivial) fun answer _ => stays_received answer)
      fun _ _ => ?_
    exact within_pure (readsSources_strip (mutationHeaders_dropped copySource_dropped passed))
  · refine within_lift fun len _ => within_lift fun headers passed => ?_
    exact within_pure (readsSources_of_plain passed)
  · refine within_lift fun len _ => within_lift fun headers passed => ?_
    refine within_bind (stays_spoolAndHash len) fun actualHash _ => ?_
    split_ifs
    · trivial
    · exact within_pure (readsSources_of_plain passed)

/-- The per-key checks discharge what the check of the whole request left open. -/
theorem stays_deleteObjects (s3 : auth.protocol = .s3) (bucket : Bytes) :
    Stays services auth r (deleteObjects services (some auth) bucket r) := by
  refine within_lift fun len _ => ?_
  split_ifs
  · trivial
  · refine within_lift fun payloadHash _ => within_lift fun headers passed => ?_
    refine within_bind (stays_collectBody len) fun body _ => ?_
    split_ifs
    · trivial
    · split
      · trivial
      · rename_i keys parsed
        refine within_lift fun _ checked => ?_
        have granted : ∀ key ∈ keys, Granted auth .delete (.object ⟨.s3, bucket, key⟩) := by
          intro key mem
          unfold authorizeKeys at checked
          dsimp only at checked
          split_ifs at checked with all
          have allowed := all_eq_true.mp all key mem
          exact granted_object s3 (Bool.and_eq_true_iff.mp allowed).1
        have call : Authorized services auth r (.deleteObjects bucket headers body) :=
          ⟨⟨keys, parsed, granted⟩, readsSources_of_plain passed⟩
        refine within_bind (stays_callOrigin _ call) fun response _ => ?_
        exact within_bind (stays_whenever (stays_invalidateAll bucket keys)) fun _ _ => stays_pure _

variable {object : ObjectId} {operation : MultipartOperation}

theorem stays_head (other : r.method ≠ .get) (granted : Granted auth .stat (.object object)) :
    Stays services auth r (head services object headers) := by
  refine within_lift fun conditions _ => ?_
  have call : Authorized services auth r (.head object conditions) := by
    rwa [Authorized, if_neg other]
  exact within_bind (stays_callOrigin _ call) fun _ _ => stays_pure _

variable {range : Option (Nat × Nat)} {conditions : Headers} {metadata : HttpResponse}

theorem stays_originGet (granted : Granted auth .read (.object object)) :
    Stays services auth r (originGet object range conditions metadata) := by
  have call : Authorized services auth r (.get object range conditions) := granted
  refine within_bind (stays_callOrigin _ call) fun response _ => ?_
  split
  · exact within_bind stays_drain fun _ _ => stays_pure _
  split
  · trivial
  split
  · trivial
  exact within_lift fun _ _ => stays_pure _

theorem stays_cacheNext : Stays services auth r cacheNext := within_ask trivial

theorem stays_cacheGet {size : Nat} {etag : Bytes} (granted : Granted auth .read (.object object)) :
    Stays services auth r (cacheGet config object range conditions metadata size etag) := by
  have fallback (e : CacheReadError) : Stays services auth r
      (if e.fallbackEligible ∧ config.defaultRoute = .cache then
        originGet object range (originConditions conditions etag) metadata
      else halt (cacheError e)) := by
    split_ifs
    · exact stays_originGet granted
    · trivial
  refine within_bind (within_ask granted) fun opened _ => ?_
  cases opened with
  | error e => exact fallback e
  | ok _ =>
    refine within_bind stays_cacheNext fun first _ => ?_
    match first with
    | some (.ok _) => trivial
    | some (.error e) => exact fallback e
    | none =>
      split_ifs <;> trivial

theorem stays_get (method : r.method = .get) (granted : Granted auth .read (.object object)) :
    Stays services auth r (get services config object headers) := by
  refine within_lift fun conditions _ => ?_
  have call : Authorized services auth r (.head object conditions) := by
    rwa [Authorized, if_pos method]
  refine within_bind (stays_callOrigin _ call) fun metadata _ => ?_
  split
  · trivial
  split
  · trivial
  split
  · trivial
  refine within_lift fun size _ => within_lift fun tag _ => within_lift fun asked _ => ?_
  split_ifs
  all_goals first | exact stays_originGet granted | exact stays_cacheGet granted

theorem stays_delete (granted : Granted auth .delete (.object object)) :
    Stays services auth r (delete services object headers) := by
  refine within_lift fun conditions _ => ?_
  have call : Authorized services auth r (.delete object conditions) := granted
  refine within_bind (stays_callOrigin _ call) fun response _ => ?_
  exact within_bind (stays_whenever (stays_invalidate object)) fun _ _ => stays_pure _

variable (granted : Granted auth .write (.object object))
include granted

variable (sources : ∀ out, mutationHeaders services.readers r.headers true = .ok out →
  ReadsSources services.readers auth out)
include sources

theorem stays_copy : Stays services auth r (copy services object r.headers) := by
  refine within_lift fun headers passed => ?_
  have call : Authorized services auth r (.copy object headers) := ⟨granted, sources headers passed⟩
  refine within_bind (stays_callOrigin _ call) fun response _ => ?_
  exact within_bind (stays_whenever (stays_invalidate object)) fun _ _ => stays_pure _

theorem stays_put : Stays services auth r (put services object r) := by
  refine within_lift fun source _ => ?_
  split
  · exact stays_copy granted sources
  · refine within_bind within_prepareWriteBody fun prepared plain => ?_
    have call : Authorized services auth r (putCall object prepared.1 prepared.2) := by
      cases prepared.2 <;> exact ⟨granted, plain⟩
    refine within_bind (stays_callOrigin _ call) fun response _ => ?_
    exact within_bind (stays_whenever (stays_invalidate object)) fun _ _ => stays_pure _

omit sources

omit granted

theorem stays_cancelReservation : Stays services auth r cancelReservation := within_ask trivial

include granted in
theorem stays_createMultipart {principal : AuthenticatedPrincipal} {decision : EffectiveDecision} :
    Stays services auth r (createMultipart services object r.headers principal decision) := by
  refine within_bind (Q := fun _ => True) (within_ask trivial) fun reserved _ => ?_
  split
  · trivial
  split
  · exact within_bind stays_cancelReservation fun _ _ => trivial
  · rename_i headers passed
    have call : Authorized services auth r
        (.multipart ⟨.post, object, MultipartOperation.create.query, headers⟩) :=
      ⟨granted, readsSources_of_plain passed⟩
    refine within_bind (stays_tryOrigin call) fun answer _ => ?_
    cases answer with
    | none => exact within_bind stays_cancelReservation fun _ _ => trivial
    | some =>
      dsimp only
      split
      · exact within_bind stays_cancelReservation fun _ _ => trivial
      split
      · exact within_bind stays_cancelReservation fun _ _ => trivial
      · refine within_bind (Q := fun _ => True) (within_ask trivial) fun published _ => ?_
        split <;> trivial

theorem authorized_multipartCall {request : S3MultipartRequest} (body : WriteBody)
    (granted : Granted auth (multipartOperationOf request.method) (.object request.object))
    (sources : ReadsSources services.readers auth request.headers) :
    Authorized services auth r (multipartCall request body) := by
  cases body <;> exact ⟨granted, sources⟩

include granted in
theorem stays_uploadPart {isCopy : Bool}
    (sources : ∀ out, mutationHeaders services.readers r.headers true = .ok out →
      ReadsSources services.readers auth out) :
    Stays services auth r (uploadPart services object operation isCopy r) := by
  unfold uploadPart
  split
  · refine within_lift fun headers passed => ?_
    have call : Authorized services auth r (.multipart ⟨.put, object, operation.query, headers⟩) :=
      ⟨granted, sources headers passed⟩
    exact within_bind (stays_callOrigin _ call) fun _ _ => stays_pure _
  · refine within_bind within_prepareWriteBody fun prepared plain => ?_
    have call : Authorized services auth r
        (multipartCall ⟨.put, object, operation.query, prepared.1⟩ prepared.2) :=
      authorized_multipartCall prepared.2 granted plain
    exact within_bind (stays_callOrigin _ call) fun _ _ => stays_pure _

theorem stays_listParts (granted : Granted auth .list (.object object)) :
    Stays services auth r (listParts object operation) := by
  have call : Authorized services auth r (.multipart ⟨.get, object, operation.query, []⟩) :=
    ⟨granted, nofun⟩
  exact within_bind (stays_callOrigin _ call) fun _ _ => stays_pure _

theorem stays_removeUpload (uploadId : Bytes) : Stays services auth r (removeUpload uploadId) :=
  within_ask trivial

theorem stays_completionBody (len : Nat) (payloadHash : Bytes) :
    Stays services auth r (completionBody len payloadHash) := by
  unfold completionBody
  split
  · trivial
  · refine within_bind (stays_spoolAndHash len) fun actualHash _ => ?_
    split <;> trivial

include granted in
theorem stays_completeMultipart :
    Stays services auth r (completeMultipart services object uploadId operation r) := by
  refine within_lift fun len _ => within_lift fun payloadHash _ => within_lift
    fun headers passed => ?_
  refine within_bind (stays_completionBody len payloadHash) fun body _ => ?_
  have call : Authorized services auth r
      (multipartCall ⟨.post, object, operation.query, headers⟩ body) :=
    authorized_multipartCall body granted (readsSources_of_plain passed)
  refine within_bind (stays_callOrigin _ call) fun response _ => ?_
  refine within_bind (stays_whenever (stays_removeUpload uploadId)) fun _ _ => ?_
  exact within_bind (stays_whenever (stays_invalidate object)) fun _ _ => stays_pure _

theorem stays_abortMultipart (granted : Granted auth .delete (.object object)) :
    Stays services auth r (abortMultipart object uploadId operation) := by
  have call : Authorized services auth r (.multipart ⟨.delete, object, operation.query, []⟩) :=
    ⟨granted, nofun⟩
  refine within_bind (stays_callOrigin _ call) fun response _ => ?_
  exact within_bind (stays_whenever (stays_removeUpload uploadId)) fun _ _ => stays_pure _

theorem stays_onUpload {binding : MultipartBinding} {p : Handler GatewayResponse}
    (h : Stays services auth r p) : Stays services auth r (onUpload uploadId binding p) := by
  refine within_bind (Q := fun _ => True) (within_ask trivial) fun known _ => ?_
  split
  · trivial
  · exact h

theorem stays_multipart {principal : Option AuthenticatedPrincipal}
    (granted : Granted auth (objectOperation r.method (some operation)) (.object object))
    (sources : (∃ uploadId part isCopy, operation = .uploadPart uploadId part isCopy) →
      ∀ out, mutationHeaders services.readers r.headers true = .ok out →
        ReadsSources services.readers auth out) :
    Stays services auth r (multipart services object operation principal r) := by
  cases principal with
  | none => trivial
  | some =>
    refine within_lift fun decision _ => ?_
    cases operation with
    | create => exact stays_createMultipart granted
    | uploadPart =>
      exact stays_onUpload (stays_uploadPart granted (sources ⟨_, _, _, rfl⟩))
    | listParts => exact stays_onUpload (stays_listParts granted)
    | complete => exact stays_onUpload (stays_completeMultipart granted)
    | abort => exact stays_onUpload (stays_abortMultipart granted)

theorem stays_plainObject (granted : Granted auth (objectOperation r.method none) (.object object))
    (sources : r.method = .put →
      ∀ out, mutationHeaders services.readers r.headers true = .ok out →
        ReadsSources services.readers auth out) :
    Stays services auth r (plainObject services config object r) := by
  unfold plainObject
  unfold objectOperation at granted
  by_cases isHead : r.method = .head
  · rw [if_pos isHead] at granted ⊢
    exact stays_head (by rw [isHead]; decide) granted
  rw [if_neg isHead] at granted ⊢
  by_cases isGet : r.method = .get
  · rw [if_pos isGet] at granted ⊢
    exact stays_get isGet granted
  rw [if_neg isGet] at granted ⊢
  by_cases isPut : r.method = .put
  · rw [if_pos (.inl isPut)] at granted
    rw [if_pos isPut]
    exact stays_put granted (sources isPut)
  rw [if_neg isPut]
  by_cases isDelete : r.method = .delete
  · have other : ¬ (r.method = .put ∨ r.method = .post) := by
      rw [isDelete]
      decide
    rw [if_neg other, if_pos isDelete] at granted
    rw [if_pos isDelete]
    exact stays_delete granted
  · rw [if_neg isDelete]
    trivial

end Handlers

section Ladder

open Calls (within_pure within_bind within_ask within_lift)

variable {services : S3Services} {config : S3AdapterConfig} {auth : RequestAuthorization}
  {r : Request}

theorem multipartOperation_uploadPart {method : Method} {flag isCopy : Bool} {part : Nat}
    (h : q.multipartOperation method flag = .ok (some (.uploadPart uploadId part isCopy))) :
    method = .put := by
  by_contra other
  unfold S3Query.multipartOperation at h
  split at h
  · cases h
  split at h
  · split at h <;> cases h
  split at h
  · cases h
  split at h
  · obtain ⟨_, _, h⟩ := bind_ok h
    obtain ⟨_, _, h⟩ := bind_ok h
    cases h
  split at h
  · cases h
  split at h <;> cases h

variable {access : GatewayAccess} {principal : Option AuthenticatedPrincipal}

variable (s3 : auth.protocol = .s3)
include s3

variable (allowed : auth.allows access = true)
include allowed

variable {target : ParsedTarget}

theorem stays_object {key : Bytes} {operation : Option MultipartOperation}
    (read : q.multipartOperation r.method (containsHeader r.headers copySourceName) = .ok operation)
    {additional : List GatewayAccessRequirement}
    (required : copyRequirements services.readers r.method r.headers = .ok additional)
    (known : access = ⟨objectOperation r.method operation, none, .object ⟨.s3, target.bucket, key⟩,
      additional⟩) :
    Stays services auth r (match operation with
      | some operation => multipart services ⟨.s3, target.bucket, key⟩ operation principal r
      | none => plainObject services config ⟨.s3, target.bucket, key⟩ r) := by
  subst known
  obtain ⟨main, others⟩ := Bool.and_eq_true_iff.mp allowed
  have granted := granted_object s3 main
  have sources (put : r.method = .put) :
      ∀ out, mutationHeaders services.readers r.headers true = .ok out →
      ReadsSources services.readers auth out :=
    fun out passed => readsSources_of_copy s3 put required (all_eq_true.mp others) passed
  cases operation with
  | none => exact stays_plainObject granted sources
  | some =>
    refine stays_multipart granted ?_
    rintro ⟨_, _, _, rfl⟩
    exact sources (multipartOperation_uploadPart read)

/-- The ladder that carries a request out makes the calls the ladder that classified it asked for.
-/
theorem stays_carryOut
    (known : accessOf services.readers target q r.method r.headers = .ok access) :
    Stays services auth r (carryOut services config (some auth) principal target q r) := by
  have main := (Bool.and_eq_true_iff.mp allowed).1
  unfold accessOf at known
  unfold carryOut
  by_cases v2 : r.method = .get ∧ target.key.isNone ∧ q.isListV2
  · rw [if_pos v2] at known ⊢
    cases known
    exact within_lift fun _ _ =>
      within_bind (stays_callOrigin _ (granted_listing main)) fun _ _ => stays_pure _
  rw [if_neg v2] at known ⊢
  cases probed : bucketProbe r.method target q with
  | some probe =>
    rw [probed, if_pos (show (some probe).isSome = true from rfl)] at known
    cases known
    cases probe with
    | head => exact within_bind (stays_callOrigin _ (granted_bucket main)) fun _ _ => stays_pure _
    | location => trivial
  | none =>
    rw [probed, if_neg (show ¬(none : Option BucketProbe).isSome = true from nofun)] at known
    by_cases batch : r.method = .post ∧ target.key.isNone ∧ q.has .delete
    · rw [if_pos batch]
      exact within_lift fun _ _ => stays_deleteObjects s3 target.bucket
    rw [if_neg batch] at known ⊢
    by_cases v1 : r.method = .get ∧ target.key.isNone
    · rw [if_pos v1] at known ⊢
      obtain ⟨_, _, known⟩ := bind_ok known
      cases known
      exact within_lift fun _ _ => within_lift fun _ _ =>
        within_bind (stays_callOrigin _ (granted_listing main)) fun _ _ => stays_pure _
    rw [if_neg v1] at known ⊢
    cases named : target.key with
    | none => trivial
    | some =>
      rw [named] at known
      split_ifs at known ⊢
      · trivial
      · obtain ⟨_, read, known⟩ := bind_ok known
        obtain ⟨_, required, known⟩ := bind_ok known
        refine within_lift fun operation' read' => ?_
        cases read.symm.trans read'
        exact stays_object s3 allowed read required (Except.ok.inj known).symm

theorem stays_handleRequest (known : classifyAccess services.readers config r = .ok access) :
    Stays services auth r (handleRequest services config (some auth) principal r) := by
  obtain ⟨_, parsedTarget, known⟩ := bind_ok known
  obtain ⟨q, parsedQuery, known⟩ := bind_ok known
  obtain ⟨_, _, known⟩ := bind_ok known
  refine within_lift fun target' again => ?_
  cases parsedTarget.symm.trans again
  refine within_lift fun q' again => ?_
  cases parsedQuery.symm.trans again
  exact within_lift fun _ _ => stays_carryOut s3 allowed known

omit allowed

omit s3

end Ladder

end Talon.Gateway
