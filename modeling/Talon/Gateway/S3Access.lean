import Talon.Gateway.Access

/-!
# How the S3 adapter classifies a request

The bucket and key of a request come from its path or its host, the operation from its method and
query, and a copy names a second object in a header.  `classifyAccess` is the ladder that turns a
request into the access the policy is asked for.
-/

set_option autoImplicit false

namespace Talon.Gateway

open Wire (Bytes)
open Text (ascii)

structure S3AdapterConfig where
  endpointSuffix : Bytes
  pathStyle : Bool
  blockSize : Nat
  transferChunkBytes : Nat
  defaultRoute : GatewayRoute

def unsignedPayload : Bytes := ascii "UNSIGNED-PAYLOAD"

def streamingUnsignedTrailer : Bytes := ascii "STREAMING-UNSIGNED-PAYLOAD-TRAILER"

structure ParsedTarget where
  bucket : Bytes
  key : Option Bytes
deriving DecidableEq

def slash : UInt8 := 47

variable (readers : Readers)

def decodePath (value : Bytes) : Except Halt Bytes := do
  validatePercentEncoding value (ascii "path")
  match Utf8.strict (readers.percentDecode value) with
  | some decoded => .ok decoded
  | none => refuse "InvalidURI" (ascii "path is not valid UTF-8")

/-- `trim_start_matches('/')`, then `split('/')`. -/
def segments (path : Bytes) : List Bytes := (path.dropWhile (· = slash)).splitOn slash

def stripSuffix (suffix s : Bytes) : Option Bytes :=
  if suffix.isSuffixOf s then some (s.take (s.length - suffix.length)) else none

def hostName : Bytes := ascii "host"

def hostBucket (config : S3AdapterConfig) (headers : Headers) : Except Halt Bytes :=
  match (headerValue headers hostName).bind readers.toStr with
  | none => refuse "InvalidURI" (ascii "missing Host header")
  | some host =>
    match stripSuffix (ascii "." ++ config.endpointSuffix) (host.takeWhile (· ≠ 58)) with
    | none => refuse "InvalidURI" (ascii "host is not the configured S3 endpoint")
    | some bucket => .ok bucket

def bucketAndKey (config : S3AdapterConfig) (headers : Headers) (parts : List Bytes) :
    Except Halt (Bytes × List Bytes) :=
  if config.pathStyle then do
    let bucket ← decodePath readers (parts.headD [])
    .ok (bucket, parts.drop 1)
  else do
    let bucket ← hostBucket readers config headers
    .ok (bucket, parts)

def parseKey (raw : Bytes) : Except Halt (Option Bytes) :=
  if raw = [] then .ok none
  else do
    let key ← decodePath readers raw
    .ok (some key)

def targetOf (config : S3AdapterConfig) (headers : Headers) (parts : List Bytes) :
    Except Halt ParsedTarget := do
  let (bucket, keySegments) ← bucketAndKey readers config headers parts
  if bucket = [] then refuse "InvalidURI" (ascii "missing bucket")
  else do
    let key ← parseKey readers (Text.joined slash keySegments)
    .ok ⟨bucket, key⟩

def parseTarget (config : S3AdapterConfig) (r : Request) : Except Halt ParsedTarget :=
  targetOf readers config r.headers (segments r.path)

def copySourceName : Bytes := ascii "x-amz-copy-source"

def parseCopySource (value : Bytes) : Except Halt ObjectId :=
  match readers.toStr value with
  | none => refuse "InvalidArgument" (ascii "copy source is invalid")
  | some value =>
    if value.contains 63 then refuse "NotImplemented"
      (ascii "versioned CopyObject is not supported")
    else do
      let decoded ← decodePath readers (value.dropWhile (· = slash))
      match (Text.cut slash decoded).filter (fun x => x.1 ≠ [] ∧ x.2 ≠ []) with
      | none => refuse "InvalidArgument" (ascii "copy source is invalid")
      | some (bucket, key) => .ok ⟨.s3, bucket, key⟩

def copySource (headers : Headers) : Except Halt (Option ObjectId) :=
  match headerValue headers copySourceName with
  | none => .ok none
  | some value => do
    let source ← parseCopySource readers value
    .ok (some source)

inductive BucketProbe
  | head
  | location
deriving DecidableEq

def bucketProbe (method : Method) (target : ParsedTarget) (q : S3Query) : Option BucketProbe :=
  if target.key.isSome then none
  else if method = .head then some .head
  else if method = .get ∧ q.has .location then some .location
  else none

def objectOperation (method : Method) : Option MultipartOperation → GatewayOperation
  | some (.listParts ..) => .list
  | some (.abort _) => .delete
  | some _ => .write
  | none =>
    if method = .head then .stat
    else if method = .get then .read
    else if method = .put ∨ method = .post then .write
    else if method = .delete then .delete
    else .unsupported

def copyRequirements (method : Method) (headers : Headers) :
    Except Halt (List GatewayAccessRequirement) :=
  if method = .put then do
    match ← copySource readers headers with
    | none => .ok []
    | some source => .ok [⟨.read, none, .object source⟩]
  else .ok []

def accessOf (target : ParsedTarget) (q : S3Query) (method : Method) (headers : Headers) :
    Except Halt GatewayAccess :=
  if method = .get ∧ target.key.isNone ∧ q.isListV2 then
    .ok ⟨.list, none, .inNamespace .s3 target.bucket (q.value .keyPrefix), []⟩
  else if (bucketProbe method target q).isSome then
    .ok ⟨.probe, none, .inNamespace .s3 target.bucket none, []⟩
  else if method = .post ∧ target.key.isNone ∧ q.has .delete then do
    q.requireDeleteObjectsShape
    .ok ⟨.delete, none, .namespaceBodyObjects .s3 target.bucket, []⟩
  else if method = .get ∧ target.key.isNone then do
    q.requireV1ListShape
    .ok ⟨.list, none, .inNamespace .s3 target.bucket (q.value .keyPrefix), []⟩
  else
    match target.key with
    | none => refuse "InvalidURI" (ascii "request has no object key")
    | some key =>
      if q.has .delete then
        refuse "InvalidRequest" (ascii "delete is a bucket-level sub-resource")
      else do
        let multipart ← q.multipartOperation method (containsHeader headers copySourceName)
        let additional ← copyRequirements readers method headers
        .ok ⟨objectOperation method multipart, none, .object ⟨.s3, target.bucket, key⟩, additional⟩

def classifyAccess (config : S3AdapterConfig) (r : Request) : Except Halt GatewayAccess := do
  let target ← parseTarget readers config r
  let q ← S3Query.parse readers r.query
  q.requireKnownSubResources
  accessOf readers target q r.method r.headers

end Talon.Gateway
