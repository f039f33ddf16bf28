import Mathlib.Data.List.Sort
import Talon.Gateway.CacheMark
import Talon.Gateway.S3Access

/-!
# Incoming Signature Version 4 authentication

A request is signed in its `authorization` header or in its query.  Either way the authenticator
rebuilds a canonical request from the method, path, query and the headers the client says it signed,
hashes it into the string to sign, and verifies the signature over that string.

SHA-256 and HMAC are parameters; everything the authenticator itself computes is here.
-/

set_option autoImplicit false

namespace Talon.Gateway

open Wire (Bytes)
open Text (ascii)

/-- The two cryptographic functions; `sha256Hex` gives lower-case hexadecimal. -/
structure Crypto where
  sha256Hex : Bytes → Bytes
  hmac : Bytes → Bytes → Bytes

structure S3ClientIdentity where
  accessKeyId : Bytes
  secretAccessKey : Bytes
  sessionToken : Option Bytes
  principal : AuthenticatedPrincipal
deriving DecidableEq

/-- Times and durations are in nanoseconds; times are relative to the Unix epoch. -/
structure S3SigV4Authenticator where
  region : Bytes
  maxClockSkew : Nat
  identities : Bytes → Option S3ClientIdentity

structure CredentialScope where
  accessKeyId : Bytes
  date : Bytes
  region : Bytes
  service : Bytes
deriving DecidableEq

structure SignedRequest where
  scope : CredentialScope
  datetime : Bytes
  signedHeaders : List Bytes
  signature : Bytes
  payloadHash : Bytes
  presigned : Bool
deriving DecidableEq

def algorithm : Bytes := ascii "AWS4-HMAC-SHA256"

def emptySha256 : Bytes := ascii "e3b0c44298fc1c149afbf4c8996fb92427ae41e4649b934ca495991b7852b855"

def maxPresignedExpiry : Nat := 7 * 24 * 60 * 60

/-- `None` is an `AuthFailure`, which carries nothing. -/
def ensure (c : Prop) [Decidable c] : Option Unit := if c then some () else none

variable (readers : Readers)

section Texts

def singleHeader (headers : Headers) (name : Bytes) : Option Bytes :=
  match headerValues headers name with
  | [value] => readers.toStr value
  | _ => none

/-- `percent_decode`: a percent sign that starts no escape is a failure. -/
def percentDecode (value : Bytes) : Option Bytes :=
  if Percent.wellFormed value then Utf8.strict (Percent.decode value) else none

def decodePair (segment : Bytes) : Option (Bytes × Bytes) := do
  let key ← percentDecode (S3Query.segmentPair segment).1
  let value ← percentDecode (S3Query.segmentPair segment).2
  some (key, value)

def parseQuery (raw : Bytes) : Option (List (Bytes × Bytes)) :=
  if raw = [] then some [] else (raw.splitOn 38).mapM decodePair

def queryValue (query : List (Bytes × Bytes)) (name : Bytes) : Option (Option Bytes) :=
  match (query.filter (·.1 = name)).map (·.2) with
  | [] => some none
  | [value] => some (some value)
  | _ => none

def requiredValue (query : List (Bytes × Bytes)) (name : Bytes) : Option Bytes := do
  let value ← queryValue query name
  value

/-- The bytes that `push_encoded` does not escape. -/
def isUnreserved (b : UInt8) : Bool :=
  Text.isDigit b || Text.isLower b || Text.isUpper b || b ∈ ascii "-_.~"

def uriEncode : Bytes → Bytes := Percent.encode isUnreserved

def canonicalUri (path : Bytes) : Bytes :=
  let output := Percent.respell isUnreserved 47 path
  if output = [] then ascii "/" else output

def pairLe (a b : Bytes × Bytes) : Bool := a.1 < b.1 || (a.1 = b.1 && decide (a.2 ≤ b.2))

def signatureName : Bytes := ascii "X-Amz-Signature"

def canonicalPairs (query : List (Bytes × Bytes)) (presigned : Bool) : List (Bytes × Bytes) :=
  query.filter fun x => ¬ (presigned ∧ x.1 = signatureName)

def encodePair (x : Bytes × Bytes) : Bytes × Bytes := (uriEncode x.1, uriEncode x.2)

def pairText (x : Bytes × Bytes) : Bytes := x.1 ++ 61 :: x.2

def canonicalQuery (query : List (Bytes × Bytes)) (presigned : Bool) : Bytes :=
  Text.joined 38 ((((canonicalPairs query presigned).map encodePair).insertionSort (pairLe · ·)).map
    pairText)

def normalizeHeader (value : Bytes) : Bytes := Text.joined 32 (Text.words value)

def headerLine (headers : Headers) (name : Bytes) : Option Bytes := do
  ensure (headerValues headers name ≠ [])
  let values ← (headerValues headers name).mapM fun value =>
    (readers.toStr value).map normalizeHeader
  some (name ++ 58 :: Text.joined 44 values)

def canonicalHeaders (headers : Headers) (signedHeaders : List Bytes) : Option (List Bytes) :=
  signedHeaders.mapM (headerLine readers headers)

end Texts

section Dates

def daysFromCivil (year : Int) (month day : Nat) : Int :=
  let year := year - if month ≤ 2 then 1 else 0
  let era := (if 0 ≤ year then year else year - 399).tdiv 400
  let yearOfEra := year - era * 400
  let shiftedMonth := (month : Int) + if 2 < month then -3 else 9
  let dayOfYear := (153 * shiftedMonth + 2).tdiv 5 + day - 1
  let dayOfEra := yearOfEra * 365 + yearOfEra.tdiv 4 - yearOfEra.tdiv 100 + dayOfYear
  era * 146097 + dayOfEra - 719468

/-- Year, month and day of a day since the epoch. -/
def civilFromDays (z : Nat) : Nat × Nat × Nat :=
  let z := z + 719468
  let era := z / 146097
  let doe := z - era * 146097
  let yoe := (doe - doe / 1460 + doe / 36524 - doe / 146096) / 365
  let y := yoe + era * 400
  let doy := doe - (365 * yoe + yoe / 4 - yoe / 100)
  let mp := (5 * doy + 2) / 153
  let d := doy - (153 * mp + 2) / 5 + 1
  let m := if mp < 10 then mp + 3 else mp - 9
  (if m ≤ 2 then y + 1 else y, m, d)

def padded (width n : Nat) : Bytes :=
  let digits := (Nat.toDigits 10 n).map fun c => UInt8.ofNat c.toNat
  List.replicate (width - digits.length) 48 ++ digits

/-- `AmzDate::from_system_time(..).datetime` for a time in seconds. -/
def amzDatetime (seconds : Nat) : Bytes :=
  let (y, mo, d) := civilFromDays (seconds / 86400)
  let sod := seconds % 86400
  padded 4 y ++ padded 2 mo ++ padded 2 d ++ ascii "T" ++ padded 2 (sod / 3600) ++
    padded 2 (sod % 3600 / 60) ++ padded 2 (sod % 60) ++ ascii "Z"

def slice (s : Bytes) (start stop : Nat) : Bytes := (s.drop start).take (stop - start)

def parseDatetime (value : Bytes) : Option Nat := do
  ensure (value.length = 16)
  ensure (value[8]? = some 84 ∧ value[15]? = some 90)
  ensure ((slice value 0 8).all Text.isDigit ∧ (slice value 9 15).all Text.isDigit)
  let year ← Text.parseUnsigned 32 (slice value 0 4)
  let month ← Text.parseUnsigned 32 (slice value 4 6)
  let day ← Text.parseUnsigned 32 (slice value 6 8)
  let hour ← Text.parseUnsigned 32 (slice value 9 11)
  let minute ← Text.parseUnsigned 32 (slice value 11 13)
  let second ← Text.parseUnsigned 32 (slice value 13 15)
  ensure (1 ≤ month ∧ month ≤ 12 ∧ 1 ≤ day ∧ day ≤ 31 ∧ hour ≤ 23 ∧ minute ≤ 59 ∧ second ≤ 59)
  let days := daysFromCivil year month day
  ensure (0 ≤ days)
  let seconds := days.toNat * 86400 + hour * 3600 + minute * 60 + second
  ensure (amzDatetime seconds = value)
  some seconds

def nanos (seconds : Nat) : Nat := seconds * 1000000000

def validateHeaderTime (now : Int) (signedAt maxClockSkew : Nat) : Option Unit :=
  ensure ((now - nanos signedAt).natAbs ≤ maxClockSkew)

/-- `SystemTime::checked_add`. -/
def checkedAdd (time : Int) (duration : Nat) : Option Int :=
  if time + duration < 2 ^ 63 * 1000000000 then some (time + duration) else none

def validatePresignedTime (now : Int) (signedAt expires maxClockSkew : Nat) : Option Unit := do
  ensure ((nanos signedAt : Int) - now ≤ maxClockSkew)
  let expiry ← checkedAdd (nanos signedAt) (nanos expires)
  let deadline ← checkedAdd expiry maxClockSkew
  ensure (now ≤ deadline)

end Dates

section Parts

def parseScope (value : Bytes) : Option CredentialScope :=
  match value.splitOn 47 with
  | [key, date, region, service, terminator] => do
    ensure (key ≠ [] ∧ date ≠ [] ∧ region ≠ [] ∧ service ≠ [])
    ensure (terminator = ascii "aws4_request" ∧ date.length = 8 ∧ date.all Text.isDigit)
    some ⟨key, date, region, service⟩
  | _ => none

def isHeaderNameByte (b : UInt8) : Bool := Text.isLower b || Text.isDigit b || b = 45

def parseSignedHeaders (value : Bytes) : Option (List Bytes) := do
  let headers := value.splitOn 59
  ensure (headers.all fun header => header ≠ [] ∧ header.all isHeaderNameByte)
  ensure ((headers.zip headers.tail).all fun pair => pair.1 < pair.2)
  ensure (hostName ∈ headers)
  some headers

def isLowerHex (value : Bytes) (length : Nat) : Bool :=
  value.length = length && value.all fun b => Text.isDigit b || (97 ≤ b && b ≤ 102)

def decodeHexPairs : Bytes → Option Bytes
  | high :: low :: rest => do
    let h ← Percent.hexValue high
    let l ← Percent.hexValue low
    let more ← decodeHexPairs rest
    some ((h <<< 4 ||| l) :: more)
  | _ => some []

def decodeSignature (value : Bytes) : Option Bytes :=
  if isLowerHex value 64 then decodeHexPairs value else none

/-- The fields of an authorization header; a repeated or empty one is a failure. -/
def authorizationFields (fields : List (Bytes × Bytes)) : List Bytes → Option (List (Bytes × Bytes))
  | [] => some fields
  | field :: rest => do
    let (name, value) ← Text.cut 61 (Text.trim field)
    ensure (value ≠ [])
    ensure (name ∉ fields.map (·.1))
    authorizationFields (fields ++ [(name, value)]) rest

def stripPrefix (start s : Bytes) : Option Bytes :=
  if start.isPrefixOf s then some (s.drop start.length) else none

def dateHeader : Bytes := ascii "x-amz-date"

def contentHashHeader : Bytes := ascii "x-amz-content-sha256"

def parseHeaderSigned (r : Request) (now : Int) (maxClockSkew : Nat) : Option SignedRequest := do
  let authorization ← singleHeader readers r.headers (ascii "authorization")
  let parameters ← stripPrefix (algorithm ++ ascii " ") authorization
  let fields ← authorizationFields [] (parameters.splitOn 44)
  ensure (fields.length = 3)
  let scope ← parseScope (← fields.lookup (ascii "Credential"))
  let signedHeaders ← parseSignedHeaders (← fields.lookup (ascii "SignedHeaders"))
  ensure (dateHeader ∈ signedHeaders ∧ contentHashHeader ∈ signedHeaders)
  let datetime ← singleHeader readers r.headers dateHeader
  let signedAt ← parseDatetime datetime
  validateHeaderTime now signedAt maxClockSkew
  ensure (scope.date.isPrefixOf datetime)
  let signature ← decodeSignature (← fields.lookup (ascii "Signature"))
  let payloadHash ← singleHeader readers r.headers contentHashHeader
  some ⟨scope, datetime, signedHeaders, signature, payloadHash, false⟩

def parsePresigned (r : Request) (query : List (Bytes × Bytes)) (now : Int) (maxClockSkew : Nat) :
    Option SignedRequest := do
  ensure (containsHeader r.headers (ascii "authorization") = false)
  let named ← requiredValue query (ascii "X-Amz-Algorithm")
  ensure (named = algorithm)
  let scope ← parseScope (← requiredValue query (ascii "X-Amz-Credential"))
  let datetime ← requiredValue query (ascii "X-Amz-Date")
  let signedAt ← parseDatetime datetime
  ensure (scope.date.isPrefixOf datetime)
  let expires ← Text.parseUnsigned 64 (← requiredValue query (ascii "X-Amz-Expires"))
  ensure (expires ≠ 0 ∧ expires ≤ maxPresignedExpiry)
  validatePresignedTime now signedAt expires maxClockSkew
  let signedHeaders ← parseSignedHeaders (← requiredValue query (ascii "X-Amz-SignedHeaders"))
  let declared ← queryValue query (ascii "X-Amz-Content-Sha256")
  let signature ← decodeSignature (← requiredValue query signatureName)
  some ⟨scope, datetime, signedHeaders, signature, declared.getD unsignedPayload, true⟩

def securityTokenHeader : Bytes := ascii "x-amz-security-token"

def suppliedToken (r : Request) (query : List (Bytes × Bytes)) (signed : SignedRequest) :
    Option (Option Bytes) :=
  if signed.presigned then queryValue query (ascii "X-Amz-Security-Token")
  else
    match headerValue r.headers securityTokenHeader with
    | none => some none
    | some value => (readers.toStr value).map some

def validateSessionToken (identity : S3ClientIdentity) (r : Request) (query : List (Bytes × Bytes))
    (signed : SignedRequest) : Option Unit := do
  let supplied ← suppliedToken readers r query signed
  ensure (supplied = identity.sessionToken)
  ensure (signed.presigned = true ∨ supplied = none ∨ securityTokenHeader ∈ signed.signedHeaders)

def validatePayloadHash (method : Method) (payloadHash : Bytes) : Option Unit :=
  if method ∈ [Method.get, .head, .delete, .options] then
    ensure (payloadHash = emptySha256 ∨ payloadHash = unsignedPayload)
  else
    ensure (payloadHash = unsignedPayload ∨ payloadHash = streamingUnsignedTrailer ∨
      isLowerHex payloadHash 64 = true)

def validateCacheMark (headers : Headers) (signedHeaders : List Bytes) : Option Unit :=
  match headerValues headers s3CacheMarkHeader with
  | [] => some ()
  | [value] => do
    ensure (s3CacheMarkHeader ∈ signedHeaders)
    let text ← readers.toStr value
    ensure (EffectiveDecision.parse text).isOk
  | _ => none

end Parts

section Verify

variable (crypto : Crypto)

def verifySignature (secret : Bytes) (scope : CredentialScope) (stringToSign signature : Bytes) :
    Option Unit :=
  let dateKey := crypto.hmac (ascii "AWS4" ++ secret) scope.date
  let regionKey := crypto.hmac dateKey scope.region
  let serviceKey := crypto.hmac regionKey scope.service
  let signingKey := crypto.hmac serviceKey (ascii "aws4_request")
  ensure (crypto.hmac signingKey stringToSign = signature)

/-- The lines of the canonical request; the header block ends in an empty one. -/
def canonicalLines (r : Request) (query : List (Bytes × Bytes)) (signed : SignedRequest)
    (headerLines : List Bytes) : List Bytes :=
  [r.method.text, canonicalUri r.path, canonicalQuery query signed.presigned] ++ headerLines ++
    [[], Text.joined 59 signed.signedHeaders, signed.payloadHash]

def canonicalRequest (r : Request) (query : List (Bytes × Bytes)) (signed : SignedRequest) :
    Option Bytes := do
  let headerLines ← canonicalHeaders readers r.headers signed.signedHeaders
  some (Text.joined 10 (canonicalLines r query signed headerLines))

def scopeText (scope : CredentialScope) : Bytes :=
  scope.date ++ 47 :: scope.region ++ 47 :: scope.service ++ ascii "/aws4_request"

def stringToSign (signed : SignedRequest) (canonical : Bytes) : Bytes :=
  algorithm ++ 10 :: signed.datetime ++ 10 :: scopeText signed.scope ++ 10 ::
    crypto.sha256Hex canonical

/-- What the authenticator has established when it turns to the signature. -/
structure Prepared where
  identity : S3ClientIdentity
  signed : SignedRequest
  canonical : Bytes
deriving DecidableEq

def bootstrapProbe (r : Request) (query : List (Bytes × Bytes)) : Option Bool :=
  if r.method = .get then do
    let location ← queryValue query (ascii "location")
    some location.isSome
  else some false

def parseSigned (auth : S3SigV4Authenticator) (r : Request) (query : List (Bytes × Bytes))
    (now : Int) :
    Option SignedRequest := do
  let named ← queryValue query (ascii "X-Amz-Algorithm")
  if named.isSome then parsePresigned r query now auth.maxClockSkew
  else parseHeaderSigned readers r now auth.maxClockSkew

def prepare (auth : S3SigV4Authenticator) (r : Request) (now : Int) : Option Prepared := do
  let query ← parseQuery (r.query.getD [])
  let signed ← parseSigned readers auth r query now
  ensure (signed.scope.service = ascii "s3")
  let probe ← bootstrapProbe r query
  ensure (signed.scope.region = auth.region ∨ probe = true ∧
    signed.scope.region = ascii "us-east-1")
  let identity ← auth.identities signed.scope.accessKeyId
  validateSessionToken readers identity r query signed
  validatePayloadHash r.method signed.payloadHash
  validateCacheMark readers r.headers signed.signedHeaders
  let canonical ← canonicalRequest readers r query signed
  some ⟨identity, signed, canonical⟩

def verified (auth : S3SigV4Authenticator) (r : Request) (now : Int) : Option Prepared := do
  let prepared ← prepare readers auth r now
  verifySignature crypto prepared.identity.secretAccessKey prepared.signed.scope
    (stringToSign crypto prepared.signed prepared.canonical) prepared.signed.signature
  some prepared

def authenticateAt (auth : S3SigV4Authenticator) (r : Request) (now : Int) :
    Option AuthenticatedPrincipal := do
  let prepared ← verified readers crypto auth r now
  some prepared.identity.principal

end Verify

end Talon.Gateway
