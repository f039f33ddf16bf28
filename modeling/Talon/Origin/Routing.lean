import Talon.Core.Namespace
import Talon.Lib.Fallible
import Talon.Lib.Json

/-!
# Request-supplied origins

A request may bring the configuration of a credential broker.  The resolver normalises it to a route
and keys its stores and the persistent cache scope by the text of the normalised route.
-/

set_option autoImplicit false

namespace Talon.Origin

open Talon.Core Fallible

structure OriginOptions where
  endpoint : Option Str := none
  region : Option Str := none
  useSsl : Option Bool := none
  useVirtualHost : Option Bool := none
  tlsCaPem : Option Str := none
  tlsMinVersion : Option Str := none
  requestTimeoutMs : Option Nat := none
  maxConnections : Option Nat := none
deriving DecidableEq

namespace OriginOptions

def fields (o : OriginOptions) : List (Str × Option Json.Value) :=
  [("endpoint".toList, o.endpoint.map .str),
   ("max_connections".toList, o.maxConnections.map (.num <| .ofNat ·)),
   ("region".toList, o.region.map .str),
   ("request_timeout_ms".toList, o.requestTimeoutMs.map (.num <| .ofNat ·)),
   ("tls_ca_pem".toList, o.tlsCaPem.map .str),
   ("tls_min_version".toList, o.tlsMinVersion.map .str),
   ("use_ssl".toList, o.useSsl.map .bool),
   ("use_virtual_host".toList, o.useVirtualHost.map .bool)]

/-- A field that is `None` is skipped. -/
def toJson (o : OriginOptions) : Json.Value := .obj (Json.present o.fields)

end OriginOptions

structure BrokerConfig where
  url : Str
  request : Json.Value
  origin : Option OriginOptions

inductive BackendBuildConfig
  | s3 (region endpoint : Str) (pathStyle tls : Bool)
  | gcs (endpoint : Str) (tls : Bool)
  | azure (account endpointSuffix : Str) (endpointHost : Option Str) (pathStyle tls : Bool)
deriving DecidableEq

def BackendBuildConfig.key : BackendBuildConfig → Json.Value
  | .s3 region endpoint pathStyle tls =>
    .arr [.str "s3".toList, .str region, .str endpoint, .bool pathStyle, .bool tls]
  | .gcs endpoint tls => .arr [.str "gcs".toList, .str endpoint, .bool tls]
  | .azure account endpointSuffix endpointHost pathStyle tls =>
    .arr [.str "azure".toList, .str account, .str endpointSuffix,
      (endpointHost.map .str).getD .null, .bool pathStyle, .bool tls]

structure NormalizedBrokerConfig where
  url : Str
  request : Json.Value
  requestTimeoutMs : Nat

structure RouteBuildConfig where
  bucket : Str
  origin : BackendBuildConfig
  broker : NormalizedBrokerConfig
  reservedOrigin : Option OriginOptions

/-- `serde_json::to_string` on values. -/
structure Printer where
  print : Json.Value → Str
  injective : Function.Injective print

def Printer.compact : Printer := ⟨Json.print, Json.print_injective⟩

/-- The text that identifies the normalised configuration. -/
def RouteBuildConfig.key (p : RouteBuildConfig) (json : Printer) : Str :=
  json.print (.arr ([p.origin.key, .str p.bucket, .str p.broker.url, p.broker.request] ++
    (p.reservedOrigin.map OriginOptions.toJson).toList))

/-- `ConfigKey::access_scope`; `digest` is the hexadecimal SHA-256. -/
def accessScope (digest : Str → Str) (key : Str) : Except Str AccessScope :=
  AccessScope.fromStr ("v1-".toList ++ digest key)

/-! ## Normalisation -/

def get (v : Json.Value) (field : Str) : Option Json.Value :=
  match v with
  | .obj fields => fields.lookup field
  | _ => none

def asStr : Json.Value → Option Str
  | .str s => some s
  | _ => none

def isObject : Json.Value → Bool
  | .obj _ => true
  | _ => false

def insertField (field : Str) (x : Json.Value) : List (Str × Json.Value) → List (Str × Json.Value)
  | [] => [(field, x)]
  | (k, y) :: rest =>
    if field = k then (k, x) :: rest
    else if field < k then (field, x) :: (k, y) :: rest
    else (k, y) :: insertField field x rest

def set (v : Json.Value) (field : Str) (x : Json.Value) : Json.Value :=
  match v with
  | .obj fields => .obj (insertField field x fields)
  | v => v

def brokerRequestTimeoutMs : Nat := 3000

/-- The parts of the normalisation that parse URLs and cloud-specific request fields, and the
worker's own defaults. -/
structure OriginRules where
  validate : BrokerConfig → Except Str Unit
  endpoint : Str → Option Bool → Except Str (Str × Bool)
  normalizeRequest : BrokerConfig → Backend → Option Str → Except Str (Str × Json.Value)
  s3PathStyle : Option Bool

def s3OriginRegionCsps : List Str := ["aws".toList, "ali".toList, "tc".toList, "hwc".toList]

def validateRequest (rules : OriginRules) (broker : BrokerConfig) : Except Str Unit := do
  rules.validate broker
  if (broker.origin.bind (·.endpoint)).isNone then
    .error "credential_broker origin endpoint is required".toList
  else if ((get broker.request "csp".toList).bind asStr).any (· ∈ s3OriginRegionCsps) ∧
      (broker.origin.bind (·.region)).isNone then
    .error "credential_broker origin region is required for S3".toList
  else .ok ()

/-- `normalize_config`; the deadline comes from the origin options. -/
def normalizeConfig (rules : OriginRules) (broker : BrokerConfig) (backend : Backend)
    (account : Option Str) : Except Str NormalizedBrokerConfig := do
  let (url, request) ← rules.normalizeRequest broker backend account
  .ok ⟨url, request, (broker.origin.bind (·.requestTimeoutMs)).getD brokerRequestTimeoutMs⟩

def isRegion (region : Str) : Bool :=
  region != [] && region.all fun c => isAsciiAlphanumeric c || c == '-' || c == '_'

def isAccount (account : Str) : Bool := account != [] && account.all isAsciiAlphanumeric

/-- `BackendBuildConfig::dynamic`: the addressing fields are consumed, the rest is reserved. -/
def dynamic (rules : OriginRules) (backend : Backend) (broker : BrokerConfig) :
    Except Str (BackendBuildConfig × NormalizedBrokerConfig × OriginOptions) := do
  validateRequest rules broker
  match broker.origin, broker.origin.bind (·.endpoint) with
  | some options, some endpoint =>
    let rest := { options with endpoint := none, useSsl := none }
    match backend with
    | .s3 =>
      match rest.region.filter (!isBlank ·) with
      | none => .error "credential_broker origin region is required for S3".toList
      | some region =>
        if !isRegion region then .error "S3 region contains invalid characters".toList
        else do
          let (host, tls) ← rules.endpoint endpoint options.useSsl
          let normalized ← normalizeConfig rules broker .s3 none
          let pathStyle :=
            ((rest.useVirtualHost.map (!·)).or rules.s3PathStyle).getD false
          .ok (.s3 region host pathStyle (options.useSsl.getD tls), normalized,
            { rest with region := none, useVirtualHost := none })
    | .gcs => do
      let (host, tls) ← rules.endpoint endpoint options.useSsl
      let normalized ← normalizeConfig rules broker .gcs none
      .ok (.gcs host (options.useSsl.getD tls), normalized, rest)
    | .azure =>
      match ((get broker.request "azureAccountName".toList).bind asStr).filter (!isBlank ·) with
      | none => .error "bucket requires nonempty azure_account".toList
      | some account =>
        if !isAccount account then .error "Azure account contains invalid characters".toList
        else do
          let (host, tls) ← rules.endpoint endpoint options.useSsl
          let normalized ← normalizeConfig rules broker .azure (some account)
          let pathStyle := (rest.useVirtualHost.map (!·)).getD false
          .ok (.azure account "blob.core.windows.net".toList (some host) pathStyle
            (options.useSsl.getD tls), normalized, { rest with useVirtualHost := none })
  | _, _ => .error "credential_broker origin endpoint is required".toList

def isBucketName (name : Str) : Bool :=
  name != [] && name != ".".toList && name != "..".toList &&
    name.all fun c => isAsciiAlphanumeric c || c == '.' || c == '-' || c == '_'

/-- The broker request names the requested bucket; it is filled in except for Azure. -/
def bindBucket (backend : Backend) (bucket : Str) (request : Json.Value) : Except Str Json.Value :=
  match get request "bucket".toList with
  | some named =>
    if asStr named ≠ some bucket then
      .error "broker request bucket does not match requested bucket".toList
    else .ok request
  | none => .ok (if backend = .azure then request else set request "bucket".toList (.str bucket))

/-- `prepare_dynamic` of a resolver for one backend. -/
def prepareDynamic (rules : OriginRules) (backend requested : Backend) (bucket : Str)
    (broker : BrokerConfig) : Except Str RouteBuildConfig :=
  if requested ≠ backend then .error "backend is not configured in this router".toList
  else if !isObject broker.request then .error "broker request must be a JSON object".toList
  else do
    let request ← bindBucket backend bucket broker.request
    if !isBucketName bucket then
      .error "bucket name must be a nonempty, safe bucket/container component".toList
    else do
      let (origin, normalized, rest) ← dynamic rules backend { broker with request := request }
      .ok ⟨bucket, origin, normalized, if rest = {} then none else some rest⟩

/-! ## The key determines the route -/

theorem BackendBuildConfig.key_injective : Function.Injective BackendBuildConfig.key := by
  intro a b same
  cases a <;> cases b <;> simp [key] at same ⊢
  · exact same
  · exact same
  · rename_i host _ _ _ _ host' _ _
    obtain ⟨account, suffix, _, style⟩ := same
    refine ⟨account, suffix, ?_, style⟩
    cases host <;> cases host' <;> simp_all

theorem OriginOptions.toJson_injective : Function.Injective OriginOptions.toJson := by
  intro a b same
  have once : (a.fields.map Prod.fst).Nodup := by
    show ["endpoint".toList, "max_connections".toList, "region".toList, "request_timeout_ms".toList,
      "tls_ca_pem".toList, "tls_min_version".toList, "use_ssl".toList,
      "use_virtual_host".toList].Nodup
    decide
  have fields : a.fields = b.fields := Json.present_injective rfl once (Json.Value.obj.inj same)
  have str := Option.map_injective (f := Json.Value.str) fun _ _ => Json.Value.str.inj
  have bool := Option.map_injective (f := Json.Value.bool) fun _ _ => Json.Value.bool.inj
  have num := Option.map_injective (f := fun n => Json.Value.num (.ofNat n))
    fun _ _ same => Json.Number.ofNat_injective (Json.Value.num.inj same)
  simp only [OriginOptions.fields, List.cons.injEq, Prod.mk.injEq, true_and, and_true] at fields
  obtain ⟨endpoint, connections, region, timeout, pem, version, ssl, host⟩ := fields
  cases a
  cases b
  simp only [mk.injEq]
  exact ⟨str endpoint, str region, bool ssl, bool host, str pem, str version, num timeout,
    num connections⟩

theorem RouteBuildConfig.key_eq_iff (json : Printer) {p q : RouteBuildConfig} :
    p.key json = q.key json ↔
    p.origin = q.origin ∧ p.bucket = q.bucket ∧ p.broker.url = q.broker.url ∧
      p.broker.request = q.broker.request ∧ p.reservedOrigin = q.reservedOrigin := by
  constructor
  · intro same
    have items := Json.Value.arr.inj (json.injective same)
    simp only [List.cons_append, List.nil_append, List.cons.injEq, Json.Value.str.injEq] at items
    obtain ⟨origin, bucket, url, request, reserved⟩ := items
    refine ⟨BackendBuildConfig.key_injective origin, bucket, url, request, ?_⟩
    have inner : p.reservedOrigin.map OriginOptions.toJson =
        q.reservedOrigin.map OriginOptions.toJson := by
      simpa using congrArg List.head? reserved
    exact Option.map_injective OriginOptions.toJson_injective inner
  · rintro ⟨origin, bucket, url, request, reserved⟩
    simp [key, origin, bucket, url, request, reserved]

/-! ## What a prepared route says -/

variable {rules : OriginRules} {broker : BrokerConfig} {backend : Backend}

variable {normalized : NormalizedBrokerConfig}

theorem normalizeConfig_timeout {account : Option Str}
    (ok : normalizeConfig rules broker backend account = .ok normalized) :
    normalized.requestTimeoutMs =
      (broker.origin.bind (·.requestTimeoutMs)).getD brokerRequestTimeoutMs := by
  obtain ⟨⟨_, _⟩, _, ok⟩ := bind_ok ok
  cases ok
  rfl

theorem dynamic_timeout {origin : BackendBuildConfig}
    {rest : OriginOptions} (ok : dynamic rules backend broker = .ok (origin, normalized, rest)) :
    normalized.requestTimeoutMs = rest.requestTimeoutMs.getD brokerRequestTimeoutMs := by
  obtain ⟨_, _, ok⟩ := bind_ok ok
  split at ok
  · rename_i options endpoint given _
    have timeout : (broker.origin.bind (·.requestTimeoutMs)) = options.requestTimeoutMs := by
      rw [given]
      rfl
    cases backend with
    | s3 =>
      dsimp only at ok
      split at ok
      · cases ok
      · obtain ⟨_, ok⟩ := guard_ok ok
        obtain ⟨⟨host, tls⟩, _, ok⟩ := bind_ok ok
        obtain ⟨normalized', normal, ok⟩ := bind_ok ok
        cases ok
        rw [normalizeConfig_timeout normal, timeout]
    | gcs =>
      obtain ⟨⟨host, tls⟩, _, ok⟩ := bind_ok ok
      obtain ⟨normalized', normal, ok⟩ := bind_ok ok
      cases ok
      rw [normalizeConfig_timeout normal, timeout]
    | azure =>
      dsimp only at ok
      split at ok
      · cases ok
      · obtain ⟨_, ok⟩ := guard_ok ok
        obtain ⟨⟨_, _⟩, _, ok⟩ := bind_ok ok
        obtain ⟨_, normal, ok⟩ := bind_ok ok
        cases ok
        rw [normalizeConfig_timeout normal, timeout]
  · cases ok

theorem prepareDynamic_timeout {requested : Backend} {bucket : Str} {p : RouteBuildConfig}
    (ok : prepareDynamic rules backend requested bucket broker = .ok p) :
    p.broker.requestTimeoutMs =
      (p.reservedOrigin.bind (·.requestTimeoutMs)).getD brokerRequestTimeoutMs := by
  obtain ⟨_, ok⟩ := guard_ok ok
  obtain ⟨_, ok⟩ := guard_ok ok
  obtain ⟨_, _, ok⟩ := bind_ok ok
  obtain ⟨_, ok⟩ := guard_ok ok
  obtain ⟨⟨_, normalized, _⟩, built, ok⟩ := bind_ok ok
  cases ok
  rw [dynamic_timeout built]
  split
  · next unset => rw [unset]; rfl
  · rfl

theorem prepared_eq_of_key {requested requested' : Backend} {bucket bucket' : Str}
    {broker' : BrokerConfig} {p q : RouteBuildConfig} {json : Printer}
    (first : prepareDynamic rules backend requested bucket broker = .ok p)
    (second : prepareDynamic rules backend requested' bucket' broker' = .ok q)
    (same : p.key json = q.key json) : p = q := by
  have timeout := prepareDynamic_timeout first
  have timeout' := prepareDynamic_timeout second
  obtain ⟨origin, bucket, url, request, reserved⟩ := (RouteBuildConfig.key_eq_iff json).mp same
  rw [reserved, ← timeout'] at timeout
  obtain ⟨_, _, ⟨_, _, _⟩, _⟩ := p
  obtain ⟨_, _, ⟨_, _, _⟩, _⟩ := q
  dsimp only at origin bucket url request reserved timeout
  rw [origin, bucket, url, request, reserved, timeout]

end Talon.Origin
