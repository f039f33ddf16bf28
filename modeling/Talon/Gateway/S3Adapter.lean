import Talon.Lib.Calls
import Talon.Gateway.CacheMark
import Talon.Gateway.S3Access

/-!
# How the S3 adapter carries a request out

The second ladder of the adapter, down to the calls of the origin and of the cache.  Everything the
adapter does not decide itself is an effect with an arbitrary answer: what the origin and the cache
return, what the body of the request turns out to be, and the state of the multipart registry.

Of a response its status, operation and target are kept; its body and headers are those of the
origin or of the cache.
-/

set_option autoImplicit false

namespace Talon.Gateway

open Wire (Bytes)
open Text (ascii)
open Calls (Prog)
open Calls.Prog (ask lift)

structure HttpResponse where
  status : Nat
  headers : Headers
  body : Bytes

namespace HttpResponse

def isSuccess (r : HttpResponse) : Bool := 200 ≤ r.status ∧ r.status < 300

def header (r : HttpResponse) (name : Bytes) : Option Bytes :=
  (r.headers.find? fun x => x.1.map Text.toLower = name).map (·.2)

end HttpResponse

inductive CacheReadError
  | invalidRequest (message : Bytes)
  | notFound (message : Bytes)
  | cacheMiss (message : Bytes)
  | unavailable (message : Bytes)
  | timeout (message : Bytes)
  | versionMismatch (message : Bytes)
  | origin (message : Bytes)
  | protocol (message : Bytes)
  | internal (message : Bytes)
  | unknown (message : Bytes)
  | rateLimited (message : Bytes)

def CacheReadError.fallbackEligible : CacheReadError → Bool
  | .unavailable _ | .timeout _ => true
  | _ => false

structure S3CacheRequest where
  object : ObjectId
  version : Bytes
  objectSize : Nat
  offset : Nat
  len : Nat
  blockSize : Nat
  chunkSize : Nat

structure S3MultipartRequest where
  method : Method
  object : ObjectId
  query : Bytes
  headers : Headers

inductive OriginCall
  | head (object : ObjectId) (conditions : Headers)
  | get (object : ObjectId) (range : Option (Nat × Nat)) (conditions : Headers)
  | list (bucket listPrefix : Bytes) (delimiter continuationToken : Option Bytes) (maxKeys : Nat)
      (encodingType : Option Bytes)
  | headBucket (bucket : Bytes)
  | listV1 (bucket listPrefix : Bytes) (delimiter marker : Option Bytes) (maxKeys : Nat)
      (encodingType : Option Bytes)
  | putBody (object : ObjectId) (headers : Headers) (len : Nat) (payloadHash : Bytes)
  | putFile (object : ObjectId) (headers : Headers) (len : Nat) (payloadHash : Bytes)
  | copy (object : ObjectId) (headers : Headers)
  | delete (object : ObjectId) (conditions : Headers)
  | deleteObjects (bucket : Bytes) (headers : Headers) (body : Bytes)
  | multipart (request : S3MultipartRequest)
  | multipartBody (request : S3MultipartRequest) (len : Nat) (payloadHash : Bytes)
  | multipartFile (request : S3MultipartRequest) (len : Nat) (payloadHash : Bytes)

inductive ChecksumAlgorithm
  | crc32
  | crc32c
  | crc64Nvme
  | sha256
deriving DecidableEq

structure MultipartBinding where
  object : ObjectId
  principal : AuthenticatedPrincipal
  decision : EffectiveDecision

inductive Effect
  | origin (c : OriginCall)
  /-- Reading the streamed body of an origin response that is passed on as an error. -/
  | drain
  | cacheStream (request : S3CacheRequest)
  /-- The first item of an open cache stream. -/
  | cacheNext
  | invalidateObject (object : ObjectId)
  | spoolDecoded (len : Nat) (algorithm : Option ChecksumAlgorithm)
  | spoolAndHash (len : Nat)
  | collectBody (len : Nat)
  | reserve
  | cancelReservation
  | publish (uploadId : Bytes) (binding : MultipartBinding)
  | authorizeUpload (uploadId : Bytes) (binding : MultipartBinding)
  | removeUpload (uploadId : Bytes)

/-- An origin call that fails gives no response; the text of the failure is dropped. -/
def Effect.Answer : Effect → Type
  | .origin _ => Option HttpResponse
  | .drain => Except S3RequestError Unit
  | .cacheStream _ => Except CacheReadError Unit
  | .cacheNext => Option (Except CacheReadError Unit)
  | .spoolDecoded _ _ => Except S3RequestError Unit
  | .spoolAndHash _ => Except S3RequestError Bytes
  | .collectBody _ => Except S3RequestError Bytes
  | .reserve | .publish _ _ | .authorizeUpload _ _ => Bool
  | .invalidateObject _ | .cancelReservation | .removeUpload _ => Unit

abbrev Handler := Prog Effect Effect.Answer Halt

structure GatewayResponse where
  status : Nat
  operation : GatewayOperation
  target : Option GatewayTarget

inductive DeleteXmlError
  | malformed (reason : Bytes)
  | unsupportedEntry
  | keyTooLong

/-- What the adapter computes with and does not define: the readers of requests, the hash of a body,
the XML readers and the reader of HTTP dates. -/
structure S3Services where
  readers : Readers
  sha256Hex : Bytes → Bytes
  parseDeleteObjects : Bytes → Except DeleteXmlError (List Bytes)
  xmlElement : Bytes → Bytes → Option Bytes
  xmlUnescape : Bytes → Bytes
  parseHttpDate : Bytes → Option Nat

namespace S3RequestError

def invalidRange (size : Nat) : S3RequestError :=
  ⟨416, "InvalidRange", ascii "The requested range is not satisfiable", .invalidRequest,
    some (ascii "bytes */" ++ (Nat.toDigits 10 size).map fun c => UInt8.ofNat c.toNat), false⟩

def notFound : S3RequestError :=
  ⟨404, "NoSuchKey", ascii "The specified key does not exist", .notFound, none, false⟩

def noSuchUpload : S3RequestError :=
  ⟨404, "NoSuchUpload", ascii "The specified multipart upload does not exist",
    .notFound, none, false⟩

def accessDenied : S3RequestError :=
  ⟨403, "AccessDenied", ascii "Access Denied", .authorization, none, false⟩

def multipartCapacity : S3RequestError :=
  ⟨503, "ServiceUnavailable", ascii "Multipart upload capacity is temporarily exhausted", .internal,
    none, false⟩

def preconditionFailed : S3RequestError :=
  ⟨412, "PreconditionFailed", ascii "At least one precondition failed", .precondition, none, false⟩

def originUnavailable : S3RequestError :=
  ⟨503, "ServiceUnavailable", ascii "Please reduce your request rate", .origin, none, false⟩

def commitUnknown : S3RequestError :=
  ⟨500, "InternalError",
    ascii "The mutation result is indeterminate; inspect the object before retrying",
    .origin, none, true⟩

def internalError (message : Bytes) : S3RequestError :=
  ⟨500, "InternalError", message, .internal, none, false⟩

def methodNotAllowed : S3RequestError :=
  ⟨405, "MethodNotAllowed", ascii "The specified method is not allowed", .unsupported, none, false⟩

end S3RequestError

def cacheError : CacheReadError → S3RequestError
  | .invalidRequest message => .invalid "InvalidRange" message
  | .notFound message | .cacheMiss message => ⟨404, "NoSuchKey", message, .notFound, none, false⟩
  | .versionMismatch message => ⟨412, "PreconditionFailed", message, .precondition, none, false⟩
  | .timeout message => ⟨504, "RequestTimeout", message, .timeout, none, false⟩
  | .unavailable message => ⟨503, "ServiceUnavailable", message, .cacheUnavailable, none, false⟩
  | .origin _ => .originUnavailable
  | .rateLimited message => ⟨503, "SlowDown", message, .rateLimited, none, false⟩
  | .protocol message | .internal message | .unknown message => .internalError message

def deleteXmlError : DeleteXmlError → S3RequestError
  | .malformed reason => .invalid "MalformedXML" reason
  | .unsupportedEntry =>
    .invalid "NotImplemented"
      (ascii "versioned or conditional DeleteObjects entries are not supported")
  | .keyTooLong => .invalid "KeyTooLongError" (ascii "the object key is longer than 1024 bytes")

section Reading

variable (readers : Readers)

/-- The one value of a header that must be there, as a number of 64 bits. -/
def singleNumber (headers : Headers) (name : Bytes) (missing : String) (label : String) :
    Except Halt Nat :=
  match headerValues headers name with
  | [] => refuse "MissingContentLength" (ascii missing)
  | [value] =>
    match (readers.toStr value).bind (Text.parseUnsigned 64) with
    | some n => .ok n
    | none => refuse "InvalidArgument" (ascii label ++ ascii " is invalid")
  | _ => refuse "InvalidArgument" (ascii label ++ ascii " must occur exactly once")

def singleContentLength (headers : Headers) : Except Halt Nat :=
  singleNumber readers headers (ascii "content-length") "Content-Length is required"
    "Content-Length"

def decodedContentLength (headers : Headers) : Except Halt Nat :=
  singleNumber readers headers (ascii "x-amz-decoded-content-length")
    "x-amz-decoded-content-length is required for an aws-chunked body"
    "x-amz-decoded-content-length"

def payloadDeclaration (r : Request) : Except Halt Bytes :=
  match headerValue r.headers (ascii "x-amz-content-sha256") with
  | some value =>
    match readers.toStr value with
    | some text => .ok text
    | none => refuse "InvalidArgument" (ascii "payload hash is invalid")
  | none =>
    match (readers.formPairs (r.query.getD [])).find? fun x =>
        x.1.map Text.toLower = ascii "x-amz-content-sha256" with
    | some x => .ok x.2
    | none => .ok unsignedPayload

def cacheDecision (headers : Headers) : Except Halt EffectiveDecision :=
  match headerValues headers s3CacheMarkHeader with
  | [] => .ok .default
  | [value] =>
    match (readers.toStr value).map EffectiveDecision.parse with
    | some (.ok decision) => .ok decision
    | _ => refuse "InvalidRequest" (ascii "cache decision is invalid")
  | _ => refuse "InvalidRequest" (ascii "cache decision must occur exactly once")

def fromTrailerName (name : Bytes) : Option ChecksumAlgorithm :=
  let name := (Text.trim name).map Text.toLower
  if name = ascii "x-amz-checksum-crc32" then some .crc32
  else if name = ascii "x-amz-checksum-crc32c" then some .crc32c
  else if name = ascii "x-amz-checksum-crc64nvme" then some .crc64Nvme
  else if name = ascii "x-amz-checksum-sha256" then some .sha256
  else none

def declaredTrailerAlgorithm (headers : Headers) : Except Halt (Option ChecksumAlgorithm) :=
  match headerValue headers (ascii "x-amz-trailer") with
  | none => .ok none
  | some value =>
    match readers.toStr value with
    | none => refuse "InvalidArgument" (ascii "x-amz-trailer is invalid")
    | some name =>
      match fromTrailerName name with
      | some algorithm => .ok (some algorithm)
      | none =>
        refuse "InvalidRequest"
          (ascii "the declared aws-chunked trailer checksum is not supported")

def exactMutationHeaders : List Bytes :=
  [ascii "cache-control", ascii "content-disposition", ascii "content-encoding",
    ascii "content-language", ascii "content-md5", ascii "content-type", ascii "expires",
    ascii "if-match", ascii "if-none-match", ascii "x-amz-acl", ascii "x-amz-checksum-algorithm",
    ascii "x-amz-copy-source", ascii "x-amz-copy-source-range", ascii "x-amz-metadata-directive",
    ascii "x-amz-storage-class", ascii "x-amz-tagging", ascii "x-amz-tagging-directive",
    ascii "x-amz-server-side-encryption", ascii "x-amz-server-side-encryption-aws-kms-key-id"]

/-- The headers a mutation passes on; those of a copy only on a copy. -/
def forwarded (copy : Bool) (name : Bytes) : Bool :=
  (exactMutationHeaders.contains name || (ascii "x-amz-meta-").isPrefixOf name ||
    (ascii "x-amz-checksum-").isPrefixOf name ||
    (copy && (ascii "x-amz-copy-source-if-").isPrefixOf name)) &&
    (copy || !(ascii "x-amz-copy-").isPrefixOf name)

def mutationHeadersFrom (copy : Bool) (output : Headers) : Headers → Except Halt Headers
  | [] => .ok output
  | (name, value) :: rest =>
    if forwarded copy name = false then mutationHeadersFrom copy output rest
    else if output.any (·.1 = name) then
      refuse "InvalidArgument" (name ++ ascii " must occur exactly once")
    else
      match readers.toStr value with
      | none => refuse "InvalidArgument" (name ++ ascii " is invalid")
      | some text => mutationHeadersFrom copy (output ++ [(name, text)]) rest

def mutationHeaders (headers : Headers) (copy : Bool) : Except Halt Headers :=
  mutationHeadersFrom readers copy [] headers

def stripAwsChunkedEncoding (headers : Headers) : Headers :=
  headers.filterMap fun (name, value) =>
    if name.map Text.toLower ≠ ascii "content-encoding" then some (name, value)
    else
      let kept := ((value.splitOn 44).map Text.trim).filter fun token =>
        token.map Text.toLower ≠ ascii "aws-chunked" ∧ token ≠ []
      if kept = [] then none else some (name, Text.joined 44 kept)

def conditionNames : List String :=
  ["if-match", "if-none-match", "if-modified-since", "if-unmodified-since"]

def conditionalHeaders (headers : Headers) : Except Halt Headers := do
  let found ← conditionNames.mapM fun name =>
    match headerValue headers (ascii name) with
    | none => .ok none
    | some value =>
      match readers.toStr value with
      | some text => .ok (some (ascii name, text))
      | none => refuse "InvalidArgument" (ascii name ++ ascii " is not ASCII")
  .ok (found.filterMap id)

/-- The inclusive range of a `Range` header, clipped to the object. -/
def requestedRange (headers : Headers) (objectSize : Nat) : Except Halt (Option (Nat × Nat)) :=
  match headerValue headers (ascii "range") with
  | none => .ok none
  | some value =>
    let unsatisfiable : Except Halt (Option (Nat × Nat)) :=
      .error (.error (.invalidRange objectSize))
    match readers.toStr value with
    | none => refuse "InvalidArgument" (ascii "Range is not ASCII")
    | some value =>
      if value.contains 44 ∨ (ascii "bytes=").isPrefixOf value = false then unsatisfiable
      else
        match Text.cut 45 (value.drop 6) with
        | none => unsatisfiable
        | some (start, stop) =>
          if objectSize = 0 then unsatisfiable
          else if start = [] then
            match (Text.parseUnsigned 64 stop).filter (0 < ·) with
            | none => unsatisfiable
            | some suffix => .ok (some (objectSize - suffix, objectSize - 1))
          else
            match Text.parseUnsigned 64 start with
            | none => unsatisfiable
            | some start =>
              if objectSize ≤ start then unsatisfiable
              else
                match if stop = [] then some (objectSize - 1)
                    else (Text.parseUnsigned 64 stop).map (min · (objectSize - 1)) with
                | none => unsatisfiable
                | some stop => if stop < start then unsatisfiable else .ok (some (start, stop))

def trimQuotes (s : Bytes) : Bytes := ((s.dropWhile (· = 34)).reverse.dropWhile (· = 34)).reverse

def ifRangeMatches (services : S3Services) (headers : Headers) (metadata : HttpResponse)
    (etag : Bytes) :
    Bool :=
  match (headerValue headers (ascii "if-range")).bind services.readers.toStr with
  | none => true
  | some value =>
    let weak := (ascii "W/").isPrefixOf value
    if value.head? = some 34 ∨ weak then !weak && trimQuotes value = etag
    else
      match services.parseHttpDate value, metadata.header (ascii "last-modified") with
      | some condition, some modified =>
        match services.parseHttpDate modified with
        | some modified => modified ≤ condition
        | none => false
      | _, _ => false

def requiredHeader (response : HttpResponse) (name : String) : Except Halt Bytes :=
  match (response.header (ascii name)).filter (· ≠ []) with
  | some value => .ok value
  | none => .error (.error (.internalError (ascii "origin response omitted " ++ ascii name)))

def requiredU64Header (response : HttpResponse) (name : String) : Except Halt Nat := do
  let value ← requiredHeader response name
  match Text.parseUnsigned 64 value with
  | some n => .ok n
  | none => .error (.error (.internalError (ascii "origin returned invalid " ++ ascii name)))

def originConditions (conditions : Headers) (etag : Bytes) : Headers :=
  conditions.filter (fun x => x.1.map Text.toLower ≠ ascii "if-match") ++
    [(ascii "if-match", 34 :: etag ++ [34])]

def decimal (n : Nat) : Bytes := (Nat.toDigits 10 n).map fun c => UInt8.ofNat c.toNat

/-- The query that a multipart operation sends to the origin. -/
def MultipartOperation.query : MultipartOperation → Bytes
  | .create => ascii "uploads="
  | .uploadPart uploadId partNumber _ =>
    ascii "partNumber=" ++ decimal partNumber ++ ascii "&uploadId=" ++ encodeQueryValue uploadId
  | .listParts uploadId marker maxParts =>
    ascii "uploadId=" ++ encodeQueryValue uploadId ++
      (match marker with
        | some marker => ascii "&part-number-marker=" ++ decimal marker
        | none => []) ++
      ascii "&max-parts=" ++ decimal maxParts
  | .complete uploadId | .abort uploadId => ascii "uploadId=" ++ encodeQueryValue uploadId
where
  encodeQueryValue : Bytes → Bytes :=
    Percent.encode fun b =>
      Text.isDigit b || Text.isLower b || Text.isUpper b || b ∈ ascii "-_.~"

end Reading

section Handlers

variable (services : S3Services) (config : S3AdapterConfig)

def halt {α : Type} (e : S3RequestError) : Handler α := .fail (.error e)

def received {α : Type} : Except S3RequestError α → Handler α
  | .ok value => pure value
  | .error e => halt e

def tryOrigin (c : OriginCall) : Handler (Option HttpResponse) := ask (Effect.origin c)

def callOrigin (e : S3RequestError) (c : OriginCall) : Handler HttpResponse := do
  match ← tryOrigin c with
  | some response => pure response
  | none => halt e

def drain : Handler Unit := ask Effect.drain >>= received

def cacheStream (request : S3CacheRequest) : Handler (Except CacheReadError Unit) :=
  ask (Effect.cacheStream request)

def cacheNext : Handler (Option (Except CacheReadError Unit)) := ask Effect.cacheNext

def invalidate (object : ObjectId) : Handler Unit := ask (Effect.invalidateObject object)

def spoolDecoded (len : Nat) (algorithm : Option ChecksumAlgorithm) : Handler Unit :=
  ask (Effect.spoolDecoded len algorithm) >>= received

def spoolAndHash (len : Nat) : Handler Bytes := ask (Effect.spoolAndHash len) >>= received

def collectBody (len : Nat) : Handler Bytes := ask (Effect.collectBody len) >>= received

def reserve : Handler Bool := ask Effect.reserve

def cancelReservation : Handler Unit := ask Effect.cancelReservation

def publish (uploadId : Bytes) (binding : MultipartBinding) : Handler Bool :=
  ask (Effect.publish uploadId binding)

def authorizeUpload (uploadId : Bytes) (binding : MultipartBinding) : Handler Bool :=
  ask (Effect.authorizeUpload uploadId binding)

def removeUpload (uploadId : Bytes) : Handler Unit := ask (Effect.removeUpload uploadId)

def whenever (c : Bool) (p : Handler Unit) : Handler Unit := if c then p else pure ()

def rawResponse (origin : HttpResponse) (operation : GatewayOperation) (target : GatewayTarget) :
    GatewayResponse :=
  -- What `StatusCode` does not take is `BAD_GATEWAY`.
  let status := if 100 ≤ origin.status ∧ origin.status < 1000 then origin.status else 502
  ⟨status, operation, some target⟩

def copyResponseFailed (response : HttpResponse) : Bool :=
  !response.isSuccess ||
    (Utf8.valid response.body && (services.xmlElement response.body (ascii "Error")).isSome)

def payloadMismatch : S3RequestError :=
  .invalid "XAmzContentSHA256Mismatch"
    (ascii "The provided payload hash does not match the request body")

inductive WriteBody
  | stream (len : Nat) (payloadHash : Bytes)
  | spool (len : Nat) (hash : Bytes)

/-- The headers and the body that a write passes on.  A declared hash is checked first, and so are
the chunks of a chunked body. -/
def prepareWriteBody (r : Request) : Handler (Headers × WriteBody) := do
  let payloadHash ← lift (payloadDeclaration services.readers r)
  if payloadHash = streamingUnsignedTrailer then
    let len ← lift (decodedContentLength services.readers r.headers)
    let algorithm ← lift (declaredTrailerAlgorithm services.readers r.headers)
    let headers ← lift (mutationHeaders services.readers r.headers false)
    spoolDecoded len algorithm
    pure (stripAwsChunkedEncoding headers, .spool len unsignedPayload)
  else
    let len ← lift (singleContentLength services.readers r.headers)
    let headers ← lift (mutationHeaders services.readers r.headers false)
    if payloadHash = unsignedPayload then pure (headers, .stream len payloadHash)
    else
      let actualHash ← spoolAndHash len
      if actualHash ≠ payloadHash then halt payloadMismatch
      else pure (headers, .spool len actualHash)

def list (bucket : Bytes) (q : S3Query) : Handler GatewayResponse := do
  let maxKeys ← lift q.maxKeys
  let response ← callOrigin .originUnavailable
    (.list bucket ((q.value .keyPrefix).getD []) (q.value .delimiter) (q.value .continuationToken)
      maxKeys (q.value .encodingType))
  pure (rawResponse response .list (.inNamespace .s3 bucket (q.value .keyPrefix)))

def listV1 (bucket : Bytes) (q : S3Query) : Handler GatewayResponse := do
  let maxKeys ← lift q.maxKeys
  let response ← callOrigin .originUnavailable
    (.listV1 bucket ((q.value .keyPrefix).getD []) (q.value .delimiter) (q.value .marker) maxKeys
      (q.value .encodingType))
  pure (rawResponse response .list (.inNamespace .s3 bucket (q.value .keyPrefix)))

def headBucket (bucket : Bytes) : Handler GatewayResponse := do
  let response ← callOrigin .originUnavailable (.headBucket bucket)
  pure (rawResponse response .probe (.inNamespace .s3 bucket none))

def bucketLocation (bucket : Bytes) : Handler GatewayResponse :=
  pure ⟨200, .probe, some (.inNamespace .s3 bucket none)⟩

def invalidateAll (bucket : Bytes) : List Bytes → Handler Unit
  | [] => pure ()
  | key :: keys => do
    invalidate ⟨.s3, bucket, key⟩
    invalidateAll bucket keys

def maxDeleteObjectsBodyBytes : Nat := 8 * 1024 * 1024

/-- Every key of the body against the snapshot; without a policy nothing is checked. -/
def authorizeKeys (authorization : Option RequestAuthorization) (bucket : Bytes)
    (keys : List Bytes) :
    Except Halt Unit :=
  match authorization with
  | none => .ok ()
  | some auth =>
    if keys.all fun key => auth.allows ⟨.delete, none, .object ⟨.s3, bucket, key⟩, []⟩ then .ok ()
    else .error (.error .accessDenied)

def deleteObjects (authorization : Option RequestAuthorization) (bucket : Bytes) (r : Request) :
    Handler GatewayResponse := do
  let len ← lift (singleContentLength services.readers r.headers)
  if maxDeleteObjectsBodyBytes < len then
    halt (.invalid "MaxMessageLengthExceeded" (ascii "the DeleteObjects request body is too large"))
  else
    let payloadHash ← lift (payloadDeclaration services.readers r)
    let headers ← lift (mutationHeaders services.readers r.headers false)
    let body ← collectBody len
    if payloadHash ≠ unsignedPayload ∧ services.sha256Hex body ≠ payloadHash then
      halt payloadMismatch
    else
      match services.parseDeleteObjects body with
      | .error e => halt (deleteXmlError e)
      | .ok keys =>
        let _ ← lift (authorizeKeys authorization bucket keys)
        let response ← callOrigin .commitUnknown (.deleteObjects bucket headers body)
        whenever (response.isSuccess ∨ response.status = 404) (invalidateAll bucket keys)
        pure (rawResponse response .delete (.namespaceBodyObjects .s3 bucket))

def head (object : ObjectId) (headers : Headers) : Handler GatewayResponse := do
  let conditions ← lift (conditionalHeaders services.readers headers)
  let response ← callOrigin .originUnavailable (.head object conditions)
  pure (rawResponse response .stat (.object object))

def originGet (object : ObjectId) (range : Option (Nat × Nat)) (conditions : Headers)
    (metadata : HttpResponse) : Handler GatewayResponse := do
  let response ← callOrigin .originUnavailable (.get object range conditions)
  if ¬ response.isSuccess then
    drain
    pure (rawResponse response .read (.object object))
  else if range.isSome ∧ response.status ≠ 206 then
    halt (.internalError (ascii "origin returned HTTP " ++ decimal response.status ++
      ascii " for a ranged GET"))
  else if range.isNone ∧ response.status ≠ 200 then
    halt (.internalError (ascii "origin returned HTTP " ++ decimal response.status ++
      ascii " for a whole GET"))
  else
    let _ ← lift (if range.isSome then .ok 0 else requiredU64Header metadata "content-length")
    pure ⟨if range.isSome then 206 else 200, .read, some (.object object)⟩

/-- The cache, and the origin where the cache is unreachable and the route allows it. -/
def cacheGet (object : ObjectId) (range : Option (Nat × Nat)) (conditions : Headers)
    (metadata : HttpResponse) (size : Nat) (etag : Bytes) : Handler GatewayResponse := do
  let (offset, len) := match range with
    | some (start, stop) => (start, stop - start + 1)
    | none => (0, size)
  let served : GatewayResponse := ⟨if range.isSome then 206 else 200, .read, some (.object object)⟩
  let failed (e : CacheReadError) : Handler GatewayResponse :=
    if e.fallbackEligible ∧ config.defaultRoute = .cache then
      originGet object range (originConditions conditions etag) metadata
    else halt (cacheError e)
  match ← cacheStream ⟨object, etag, size, offset, len, config.blockSize,
      config.transferChunkBytes⟩ with
  | .error e => failed e
  | .ok () =>
    match ← cacheNext with
    | some (.ok ()) => pure served
    | some (.error e) => failed e
    | none =>
      if len = 0 then pure served
      else halt (.internalError (ascii "cache stream ended before producing the requested bytes"))

def get (object : ObjectId) (headers : Headers) : Handler GatewayResponse := do
  let conditions ← lift (conditionalHeaders services.readers headers)
  let metadata ← callOrigin .originUnavailable (.head object conditions)
  if metadata.status = 404 then halt .notFound
  else if metadata.status = 412 then halt .preconditionFailed
  else if ¬ metadata.isSuccess then pure (rawResponse metadata .read (.object object))
  else
    let size ← lift (requiredU64Header metadata "content-length")
    let tag ← lift (requiredHeader metadata "etag")
    let etag := trimQuotes tag
    let asked ← lift (requestedRange services.readers headers size)
    let range := if ifRangeMatches services headers metadata etag then asked else none
    if config.defaultRoute = .origin then originGet object range conditions metadata
    else cacheGet config object range conditions metadata size etag

def copy (object : ObjectId) (headers : Headers) : Handler GatewayResponse := do
  let headers ← lift (mutationHeaders services.readers headers true)
  let response ← callOrigin .commitUnknown (.copy object headers)
  whenever (!copyResponseFailed services response) (invalidate object)
  pure (rawResponse response .write (.object object))

def putCall (object : ObjectId) (headers : Headers) : WriteBody → OriginCall
  | .stream len payloadHash => .putBody object headers len payloadHash
  | .spool len hash => .putFile object headers len hash

def put (object : ObjectId) (r : Request) : Handler GatewayResponse := do
  let source ← lift (copySource services.readers r.headers)
  if source.isSome then copy services object r.headers
  else
    let (headers, body) ← prepareWriteBody services r
    let response ← callOrigin .commitUnknown (putCall object headers body)
    whenever response.isSuccess (invalidate object)
    pure (rawResponse response .write (.object object))

def delete (object : ObjectId) (headers : Headers) : Handler GatewayResponse := do
  let conditions ← lift (conditionalHeaders services.readers headers)
  let response ← callOrigin .commitUnknown (.delete object conditions)
  whenever (response.isSuccess ∨ response.status = 404) (invalidate object)
  pure (rawResponse response .delete (.object object))

def createMultipart (object : ObjectId) (headers : Headers) (principal : AuthenticatedPrincipal)
    (decision : EffectiveDecision) : Handler GatewayResponse := do
  if !(← reserve) then halt .multipartCapacity
  else
    match mutationHeaders services.readers headers false with
    | .error e => do
      cancelReservation
      .fail e
    | .ok headers =>
      match ← tryOrigin (.multipart ⟨.post, object, MultipartOperation.create.query, headers⟩) with
      | none => do
        cancelReservation
        halt .commitUnknown
      | some response =>
        if ¬ response.isSuccess then do
          cancelReservation
          pure (rawResponse response .write (.object object))
        else
          let uploadId := if Utf8.valid response.body then
              ((services.xmlElement response.body (ascii "UploadId")).map
                services.xmlUnescape).filter
                fun id => id ≠ [] ∧ id.length ≤ 2048
            else none
          match uploadId with
          | none => do
            cancelReservation
            halt .commitUnknown
          | some uploadId =>
            if !(← publish uploadId ⟨object, principal, decision⟩) then halt .commitUnknown
            else pure (rawResponse response .write (.object object))

def multipartCall (request : S3MultipartRequest) : WriteBody → OriginCall
  | .stream len payloadHash => .multipartBody request len payloadHash
  | .spool len hash => .multipartFile request len hash

def uploadPart (object : ObjectId) (operation : MultipartOperation) (isCopy : Bool) (r : Request) :
    Handler GatewayResponse := do
  if isCopy then
    let headers ← lift (mutationHeaders services.readers r.headers true)
    let response ← callOrigin .commitUnknown (.multipart ⟨.put, object, operation.query, headers⟩)
    pure (rawResponse response .write (.object object))
  else
    let (headers, body) ← prepareWriteBody services r
    let response ← callOrigin .commitUnknown
      (multipartCall ⟨.put, object, operation.query, headers⟩ body)
    pure (rawResponse response .write (.object object))

def listParts (object : ObjectId) (operation : MultipartOperation) : Handler GatewayResponse := do
  let response ← callOrigin .originUnavailable (.multipart ⟨.get, object, operation.query, []⟩)
  pure (rawResponse response .list (.object object))

/-- The body of a completion: streamed, or checked against its declared hash. -/
def completionBody (len : Nat) (payloadHash : Bytes) : Handler WriteBody :=
  if payloadHash = unsignedPayload then pure (.stream len payloadHash)
  else do
    let actualHash ← spoolAndHash len
    if actualHash ≠ payloadHash then halt payloadMismatch
    else pure (.spool len actualHash)

def completeMultipart (object : ObjectId) (uploadId : Bytes) (operation : MultipartOperation)
    (r : Request) : Handler GatewayResponse := do
  let len ← lift (singleContentLength services.readers r.headers)
  let payloadHash ← lift (payloadDeclaration services.readers r)
  let headers ← lift (mutationHeaders services.readers r.headers false)
  let body ← completionBody len payloadHash
  let response ← callOrigin .commitUnknown
    (multipartCall ⟨.post, object, operation.query, headers⟩ body)
  let embeddedError := copyResponseFailed services response
  whenever ((response.isSuccess ∧ ¬ embeddedError) ∨ response.status = 404) (removeUpload uploadId)
  whenever (response.isSuccess ∧ ¬ embeddedError) (invalidate object)
  pure (rawResponse response .write (.object object))

def abortMultipart (object : ObjectId) (uploadId : Bytes) (operation : MultipartOperation) :
    Handler GatewayResponse := do
  let response ← callOrigin .commitUnknown (.multipart ⟨.delete, object, operation.query, []⟩)
  whenever (response.isSuccess ∨ response.status = 404) (removeUpload uploadId)
  pure (rawResponse response .delete (.object object))

def onUpload (uploadId : Bytes) (binding : MultipartBinding) (p : Handler GatewayResponse) :
    Handler GatewayResponse := do
  if !(← authorizeUpload uploadId binding) then halt .noSuchUpload else p

def multipart (object : ObjectId) (operation : MultipartOperation)
    (principal : Option AuthenticatedPrincipal) (r : Request) : Handler GatewayResponse :=
  match principal with
  | none => halt .accessDenied
  | some principal => do
    let decision ← lift (cacheDecision services.readers r.headers)
    match operation with
    | .create => createMultipart services object r.headers principal decision
    | .uploadPart uploadId _ isCopy =>
      onUpload uploadId ⟨object, principal, decision⟩
        (uploadPart services object operation isCopy r)
    | .listParts uploadId _ _ =>
      onUpload uploadId ⟨object, principal, decision⟩ (listParts object operation)
    | .complete uploadId =>
      onUpload uploadId ⟨object, principal, decision⟩
        (completeMultipart services object uploadId operation r)
    | .abort uploadId =>
      onUpload uploadId ⟨object, principal, decision⟩ (abortMultipart object uploadId operation)

def plainObject (object : ObjectId) (r : Request) : Handler GatewayResponse :=
  if r.method = .head then head services object r.headers
  else if r.method = .get then get services config object r.headers
  else if r.method = .put then put services object r
  else if r.method = .delete then delete services object r.headers
  else halt .methodNotAllowed

def carryOut (authorization : Option RequestAuthorization)
    (principal : Option AuthenticatedPrincipal)
    (target : ParsedTarget) (q : S3Query) (r : Request) : Handler GatewayResponse :=
  if r.method = .get ∧ target.key.isNone ∧ q.isListV2 then list target.bucket q
  else
    match bucketProbe r.method target q with
    | some .head => headBucket target.bucket
    | some .location => bucketLocation target.bucket
    | none =>
      if r.method = .post ∧ target.key.isNone ∧ q.has .delete then do
        lift q.requireDeleteObjectsShape
        deleteObjects services authorization target.bucket r
      else if r.method = .get ∧ target.key.isNone then do
        lift q.requireV1ListShape
        listV1 target.bucket q
      else
        match target.key with
        | none => lift (refuse "InvalidURI" (ascii "request has no object key"))
        | some key =>
          if q.has .delete then
            lift (refuse "InvalidRequest" (ascii "delete is a bucket-level sub-resource"))
          else do
            let operation ← lift (q.multipartOperation r.method
              (containsHeader r.headers copySourceName))
            match operation with
            | some operation => multipart services ⟨.s3, target.bucket, key⟩ operation principal r
            | none => plainObject services config ⟨.s3, target.bucket, key⟩ r

def handleRequest (authorization : Option RequestAuthorization)
    (principal : Option AuthenticatedPrincipal) (r : Request) : Handler GatewayResponse := do
  let target ← lift (parseTarget services.readers config r)
  let q ← lift (S3Query.parse services.readers r.query)
  lift q.requireKnownSubResources
  carryOut services config authorization principal target q r

def bindPolicy (policy : Option CompiledPolicy) (authenticated : Option AuthenticatedPrincipal) :
    Option RequestAuthorization :=
  match policy, authenticated with
  | some policy, some principal => some ⟨policy, principal, .s3⟩
  | _, _ => none

/-- From the authenticated request on: the policy is read once, and with one installed the request
is classified and checked before it is handled. -/
def adapterHandler (policy : Option CompiledPolicy) (authenticated : Option AuthenticatedPrincipal)
    (r : Request) : Handler GatewayResponse :=
  let authorization := bindPolicy policy authenticated
  match policy with
  | none => handleRequest services config authorization authenticated r
  | some _ => do
    let access ← lift (classifyAccess services.readers config r)
    if authorization.any (·.allows access) then
      handleRequest services config authorization authenticated r
    else pure ⟨403, access.operation, some access.target⟩

end Handlers

end Talon.Gateway
