import Talon.Lib.Fallible
import Talon.Lib.PartialMap
import Talon.Gateway.Http

/-!
# The query of an S3 request

The adapter reads the query as form data and collects the parameters it knows.  Some may be repeated
and the last value wins; the others are refused when they occur twice.  Names under `x-amz-` are
ignored, and any other name is remembered and refused later.

`collect_iff` says what is collected.  It depends on the order of the pairs only where a parameter
of the first kind is repeated.
-/

set_option autoImplicit false

namespace Talon.Gateway

open Wire (Bytes)
open List
open Text (ascii)

inductive FailureReason
  | invalidRequest
  | authentication
  | authorization
  | notFound
  | precondition
  | cacheUnavailable
  | timeout
  | origin
  | internal
  | unsupported
  | rateLimited
deriving DecidableEq

structure S3RequestError where
  status : Nat
  code : String
  message : Bytes
  failure : FailureReason
  contentRange : Option Bytes
  indeterminateCommit : Bool
deriving DecidableEq

/-- How a request ends before it is carried out: with an error, or in a panic of its task. -/
inductive Halt
  | error (e : S3RequestError)
  | panicked
deriving DecidableEq

def S3RequestError.invalid (code : String) (message : Bytes) : S3RequestError :=
  ⟨400, code, message, .invalidRequest, none, false⟩

def refuse {α : Type} (code : String) (message : Bytes) : Except Halt α :=
  .error (.error (.invalid code message))

def validatePercentEncoding (value component : Bytes) : Except Halt Unit :=
  if Percent.wellFormed value then .ok ()
  else refuse "InvalidURI" (component ++ ascii " contains malformed percent encoding")

inductive Parameter
  | listType
  | keyPrefix
  | delimiter
  | continuationToken
  | maxKeys
  | encodingType
  | uploads
  | uploadId
  | partNumber
  | partNumberMarker
  | maxParts
  | location
  | marker
  | delete
deriving DecidableEq

namespace Parameter

def all : List Parameter :=
  [listType, keyPrefix, delimiter, continuationToken, maxKeys, encodingType, uploads, uploadId,
    partNumber, partNumberMarker, maxParts, location, marker, delete]

def name : Parameter → Bytes
  | listType => ascii "list-type"
  | keyPrefix => ascii "prefix"
  | delimiter => ascii "delimiter"
  | continuationToken => ascii "continuation-token"
  | maxKeys => ascii "max-keys"
  | encodingType => ascii "encoding-type"
  | uploads => ascii "uploads"
  | uploadId => ascii "uploadId"
  | partNumber => ascii "partNumber"
  | partNumberMarker => ascii "part-number-marker"
  | maxParts => ascii "max-parts"
  | location => ascii "location"
  | marker => ascii "marker"
  | delete => ascii "delete"

/-- Set by plain assignment; the others go through `set_query_value`. -/
def lastWins : Parameter → Bool
  | listType | keyPrefix | delimiter | continuationToken | maxKeys | encodingType => true
  | _ => false

def ofName (text : Bytes) : Option Parameter := all.find? (fun p => p.name = text)

theorem ofName_some {text : Bytes} {p : Parameter} (h : ofName text = some p) : p.name = text := by
  simpa using find?_some h

end Parameter

structure S3Query where
  value : Parameter → Option Bytes
  /-- The first name that is neither known nor reserved. -/
  unknown : Option Bytes

namespace S3Query

def empty : S3Query := ⟨PartialMap.empty, none⟩

/-- A byte at which a string may be sliced. -/
def isCharBoundary (s : Bytes) (index : Nat) : Bool :=
  match s[index]? with
  | none => index = s.length
  | some b => ¬ (128 ≤ b ∧ b < 192)

/-- The names under `x-amz-`, in any case; a name cut inside a character is not among them. -/
def reserved (name : Bytes) : Bool :=
  6 < name.length ∧ isCharBoundary name 6 ∧ (name.take 6).map Text.toLower = ascii "x-amz-"

def set (q : S3Query) (name value : Bytes) : Except Halt S3Query :=
  match Parameter.ofName name with
  | some p =>
    if p.lastWins = false ∧ (q.value p).isSome then
      refuse "InvalidArgument" (name ++ ascii " must occur exactly once")
    else .ok { q with value := PartialMap.insert q.value p value }
  | none =>
    -- `other[..6]` panics when the sixth byte is inside a character.
    if 6 < name.length ∧ isCharBoundary name 6 = false then .error .panicked
    else if reserved name then .ok q
    else .ok { q with unknown := q.unknown.or (some name) }

def collect (q : S3Query) : List (Bytes × Bytes) → Except Halt S3Query
  | [] => .ok q
  | (name, value) :: rest =>
    match q.set name value with
    | .error e => .error e
    | .ok q => collect q rest

def segmentPair (segment : Bytes) : Bytes × Bytes := (Text.cut 61 segment).getD (segment, [])

def plusToBlank (b : UInt8) : UInt8 := if b = 43 then 32 else b

def formDecode (s : Bytes) : Bytes := Utf8.lossy (Percent.decode (s.map plusToBlank))

/-- `form_urlencoded::parse`. -/
def formPairs (query : Bytes) : List (Bytes × Bytes) :=
  ((query.splitOn 38).filter (· ≠ [])).map fun segment =>
    (formDecode (segmentPair segment).1, formDecode (segmentPair segment).2)

end S3Query

/-- The readers as the libraries document them. -/
def Readers.documented : Readers :=
  ⟨S3Query.formPairs, Percent.decode, HeaderValue.toStr, HeaderValue.toStr_some⟩

structure Readers.Documented (readers : Readers) : Prop where
  form_urlencoded : ∀ s, readers.formPairs s = S3Query.formPairs s
  percent_encoding : ∀ s, readers.percentDecode s = Percent.decode s
  to_str : ∀ s, readers.toStr s = HeaderValue.toStr s

theorem Readers.Documented.eq {readers : Readers} (h : readers.Documented) :
    readers = .documented := by
  obtain ⟨form, percent, toStr_, same⟩ := readers
  cases (funext h.form_urlencoded : form = _)
  cases (funext h.percent_encoding : percent = _)
  cases (funext h.to_str : toStr_ = _)
  rfl

namespace S3Query

def checkEncodingType (q : S3Query) : Except Halt S3Query :=
  match q.value .encodingType with
  | none => .ok q
  | some v =>
    if v = ascii "url" then .ok q
    else refuse "InvalidArgument" (ascii "encoding-type must be url")

def parse (readers : Readers) (query : Option Bytes) : Except Halt S3Query := do
  validatePercentEncoding (query.getD []) (ascii "query")
  let q ← collect empty (readers.formPairs (query.getD []))
  checkEncodingType q

def has (q : S3Query) (p : Parameter) : Bool := (q.value p).isSome

def isListV2 (q : S3Query) : Bool := q.value .listType = some (ascii "2")

def requireKnownSubResources (q : S3Query) : Except Halt Unit :=
  match q.unknown with
  | none => .ok ()
  | some name =>
    refuse "NotImplemented" (ascii "the " ++ name ++ ascii " sub-resource is not supported")

def requireV1ListShape (q : S3Query) : Except Halt Unit :=
  if q.has .listType then refuse "InvalidArgument" (ascii "list-type must be 2")
  else if [Parameter.uploads, .uploadId, .partNumber, .partNumberMarker, .maxParts, .delete].any
      q.has
      ∨ q.unknown.isSome then
    refuse "NotImplemented" (ascii "bucket sub-resource requests are not supported")
  else .ok ()

def requireDeleteObjectsShape (q : S3Query) : Except Halt Unit :=
  if q.value .delete = some [] ∧ (Parameter.all.filter (· ≠ .delete)).all (fun p => ¬ q.has p) ∧
      q.unknown.isNone then .ok ()
  else refuse "InvalidRequest" (ascii "invalid DeleteObjects request")

def maxKeys (q : S3Query) : Except Halt Nat :=
  match q.value .maxKeys with
  | none => .ok 1000
  | some v =>
    match (Text.parseUnsigned 32 v).filter (· ≤ 1000) with
    | some n => .ok n
    | none => refuse "InvalidArgument" (ascii "max-keys must be between 0 and 1000")

end S3Query

inductive MultipartOperation
  | create
  | uploadPart (uploadId : Bytes) (partNumber : Nat) (copy : Bool)
  | listParts (uploadId : Bytes) (partNumberMarker : Option Nat) (maxParts : Nat)
  | complete (uploadId : Bytes)
  | abort (uploadId : Bytes)
deriving DecidableEq

def parseBounded (low high : Nat) (message : String) (value : Bytes) : Except Halt Nat :=
  match (Text.parseUnsigned 16 value).filter (fun n => low ≤ n ∧ n ≤ high) with
  | some n => .ok n
  | none => refuse "InvalidArgument" (ascii message)

def parsePartNumber (value : Option Bytes) : Except Halt Nat :=
  match value with
  | none => refuse "InvalidArgument" (ascii "partNumber must be between 1 and 10000")
  | some v => parseBounded 1 10000 "partNumber must be between 1 and 10000" v

def parsePartMarker : Bytes → Except Halt Nat :=
    parseBounded 0 10000 "part-number-marker is invalid"

def parseMaxParts : Bytes → Except Halt Nat := parseBounded 0 1000 "max-parts is invalid"

namespace S3Query

def multipartOperation (q : S3Query) (method : Method) (copy : Bool) :
    Except Halt (Option MultipartOperation) :=
  if ¬ [Parameter.uploads, .uploadId, .partNumber, .partNumberMarker, .maxParts].any
    q.has then .ok none
  else
    match q.value .uploads with
    | some v =>
      if method = .post ∧ v = [] ∧
          ¬ [Parameter.uploadId, .partNumber, .partNumberMarker, .maxParts].any q.has then
        .ok (some .create)
      else refuse "InvalidRequest" (ascii "invalid CreateMultipartUpload request")
    | none =>
      match (q.value .uploadId).filter (fun v => v ≠ [] ∧ v.length ≤ 2048) with
      | none => refuse "InvalidArgument" (ascii "uploadId is invalid")
      | some uploadId =>
        if method = .put then
          if q.has .partNumberMarker ∨ q.has .maxParts then
            refuse "InvalidArgument" (ascii "invalid UploadPart request")
          else do
            let partNumber ← parsePartNumber (q.value .partNumber)
            .ok (some (.uploadPart uploadId partNumber copy))
        else if method = .get ∧ ¬ q.has .partNumber then do
          let marker ← (q.value .partNumberMarker).mapM parsePartMarker
          let maxParts ← (q.value .maxParts).mapM parseMaxParts
          .ok (some (.listParts uploadId marker (maxParts.getD 1000)))
        else if method = .post ∧
            ¬ [Parameter.partNumber, .partNumberMarker, .maxParts].any q.has then
          .ok (some (.complete uploadId))
        else if method = .delete ∧
            ¬ [Parameter.partNumber, .partNumberMarker, .maxParts].any q.has then
          .ok (some (.abort uploadId))
        else refuse "InvalidRequest" (ascii "unsupported multipart request shape")

end S3Query

section Collect

open S3Query

theorem reserved_name (p : Parameter) : reserved p.name = false := by
  cases p <;> decide

def valuesOf (pairs : List (Bytes × Bytes)) (p : Parameter) : List Bytes :=
  (pairs.filter (fun x => Parameter.ofName x.1 = some p)).map (·.2)

theorem valuesOf_append (pairs : List (Bytes × Bytes)) (x : Bytes × Bytes) (p : Parameter) :
    valuesOf (pairs ++ [x]) p =
      valuesOf pairs p ++ if Parameter.ofName x.1 = some p then [x.2] else [] := by
  by_cases here : Parameter.ofName x.1 = some p <;> simp [valuesOf, here]

def recognised (name : Bytes) : Bool := (Parameter.ofName name).isSome || reserved name

/-- Every name is known or reserved, and what may occur once occurs once. -/
structure Tidy (pairs : List (Bytes × Bytes)) : Prop where
  names : ∀ x ∈ pairs, recognised x.1 = true
  once : ∀ p : Parameter, p.lastWins = false → (valuesOf pairs p).length ≤ 1

def collected (pairs : List (Bytes × Bytes)) : S3Query :=
    ⟨fun p => (valuesOf pairs p).getLast?, none⟩

variable {pairs : List (Bytes × Bytes)} {x : Bytes × Bytes} {q : S3Query}

theorem collected_known {p : Parameter} (known : Parameter.ofName x.1 = some p) :
    collected (pairs ++ [x]) =
      { collected pairs with value := PartialMap.insert (collected pairs).value p x.2 } := by
  unfold collected
  congr 1
  funext other
  by_cases same : other = p
  · rw [same, PartialMap.insert_self, valuesOf_append, if_pos known, getLast?_concat]
  · have absent : Parameter.ofName x.1 ≠ some other := by
      rw [known]
      exact fun eq => same (Option.some.inj eq).symm
    rw [PartialMap.insert_of_ne same, valuesOf_append, if_neg absent, append_nil]

theorem tidy_append : Tidy (pairs ++ [x]) ↔ Tidy pairs ∧ recognised x.1 = true ∧
    ∀ p, Parameter.ofName x.1 = some p → p.lastWins = false → valuesOf pairs p = [] := by
  constructor
  · intro tidy
    refine ⟨⟨fun y mem => tidy.names y (mem_append_left _ mem), fun p once => ?_⟩,
      tidy.names x (by simp), fun p known once => ?_⟩
    all_goals
      have few := tidy.once p once
      rw [valuesOf_append, length_append] at few
    · omega
    · rw [if_pos known, length_singleton] at few
      exact length_eq_zero_iff.mp (by omega)
  · rintro ⟨tidy, fine, room⟩
    refine ⟨fun y mem => ?_, fun p once => ?_⟩
    · rcases mem_append.mp mem with early | last
      · exact tidy.names y early
      · rwa [mem_singleton.mp last]
    · rw [valuesOf_append]
      split_ifs with known
      · rw [room p known once]
        simp
      · rw [append_nil]
        exact tidy.once p once

theorem set_iff : ((collected pairs).set x.1 x.2 = .ok q ∧ q.unknown = none) ↔
    (recognised x.1 = true ∧
      ∀ p, Parameter.ofName x.1 = some p → p.lastWins = false → valuesOf pairs p = []) ∧
        q = collected (pairs ++ [x]) := by
  unfold S3Query.set recognised
  cases known : Parameter.ofName x.1 with
  | some p =>
    have room : (p.lastWins = false → valuesOf pairs p = []) ↔
        ¬ (p.lastWins = false ∧ ((collected pairs).value p).isSome = true) := by
      simp [collected]
    simp only [collected_known known, Option.isSome_some, Bool.true_or, true_and, Option.some.injEq,
      forall_eq', room]
    split_ifs with full
    · exact iff_of_false (fun h => nomatch h.1) fun h => h.1 full
    · constructor
      · rintro ⟨made, -⟩
        exact ⟨full, (Except.ok.inj made).symm⟩
      · rintro ⟨-, rfl⟩
        exact ⟨rfl, rfl⟩
  | none =>
    have same : collected (pairs ++ [x]) = collected pairs := by
      unfold collected
      congr 1
      funext p
      rw [valuesOf_append, known, if_neg nofun, append_nil]
    simp only [same, Option.isSome_none, Bool.false_or, reduceCtorEq, false_implies, implies_true,
      and_true]
    by_cases fine : reserved x.1 = true
    · have whole : ¬ (6 < x.1.length ∧ isCharBoundary x.1 6 = false) := by
        intro cutInside
        simp [reserved, cutInside.2] at fine
      rw [if_neg whole, if_pos fine]
      constructor
      · rintro ⟨made, -⟩
        exact ⟨fine, (Except.ok.inj made).symm⟩
      · rintro ⟨-, rfl⟩
        exact ⟨rfl, rfl⟩
    · -- A name that is remembered, or that panics: refused either way.
      refine ⟨?_, fun h => absurd h.1 fine⟩
      rw [if_neg fine]
      split_ifs
      · exact fun h => nomatch h.1
      · rintro ⟨made, none_⟩
        cases made
        cases none_

theorem set_unknown {q' : S3Query} {name value : Bytes} (h : q.set name value = .ok q')
    (none_ : q'.unknown = none) : q.unknown = none := by
  unfold S3Query.set at h
  split at h
  · split_ifs at h
    · cases h
    · cases h
      exact none_
  · split_ifs at h <;> cases h
    · exact none_
    · exact (Option.or_eq_none_iff.mp none_).1

theorem collect_append : collect q (pairs ++ [x]) = collect q pairs >>= fun q => q.set x.1 x.2 := by
  induction pairs generalizing q with
  | nil =>
    change (match q.set x.1 x.2 with | .error e => .error e | .ok q => collect q []) = q.set x.1 x.2
    cases q.set x.1 x.2 <;> rfl
  | cons y pairs ih =>
    rw [cons_append, collect, collect]
    cases q.set y.1 y.2 with
    | error => rfl
    | ok q => exact ih

theorem collect_iff :
    (collect empty pairs = .ok q ∧ q.unknown = none) ↔ Tidy pairs ∧ q = collected pairs := by
  induction pairs using List.reverseRecOn generalizing q with
  | nil =>
    have tidy : Tidy [] := ⟨nofun, fun _ _ => Nat.zero_le 1⟩
    constructor
    · rintro ⟨made, -⟩
      exact ⟨tidy, (Except.ok.inj made).symm⟩
    · rintro ⟨-, rfl⟩
      exact ⟨rfl, rfl⟩
  | append_singleton pairs x ih =>
    rw [collect_append, tidy_append, and_assoc]
    constructor
    · rintro ⟨made, none_⟩
      obtain ⟨before, gathered, made⟩ := Fallible.bind_ok made
      obtain ⟨tidy, rfl⟩ := ih.mp ⟨gathered, set_unknown made none_⟩
      exact ⟨tidy, set_iff.mp ⟨made, none_⟩⟩
    · rintro ⟨tidy, step⟩
      obtain ⟨made, none_⟩ := set_iff.mpr step
      rw [(ih.mpr ⟨tidy, rfl⟩).1]
      exact ⟨made, none_⟩

end Collect

section Order

open S3Query

def unreserved (pairs : List (Bytes × Bytes)) : List (Bytes × Bytes) :=
  pairs.filter fun x => ¬ reserved x.1

theorem valuesOf_unreserved (pairs : List (Bytes × Bytes)) (p : Parameter) :
    valuesOf (unreserved pairs) p = valuesOf pairs p := by
  rw [valuesOf, valuesOf, unreserved, filter_filter]
  congr 1
  apply filter_congr
  intro x _
  by_cases known : Parameter.ofName x.1 = some p
  · rw [← Parameter.ofName_some known]
    simp [reserved_name]
  · simp [known]

variable {a b : List (Bytes × Bytes)} (perm : (unreserved a).Perm (unreserved b))
include perm

theorem valuesOf_perm (p : Parameter) : (valuesOf a p).Perm (valuesOf b p) := by
  rw [← valuesOf_unreserved a, ← valuesOf_unreserved b]
  exact (perm.filter _).map _

theorem tidy_perm (tidy : Tidy a) : Tidy b := by
  refine ⟨fun x mem => ?_, fun p once => (valuesOf_perm perm p).length_eq ▸ tidy.once p once⟩
  by_cases fine : reserved x.1 = true
  · simp [recognised, fine]
  · have kept : x ∈ unreserved b := mem_filter.mpr ⟨mem, by simpa using fine⟩
    exact tidy.names x (mem_of_mem_filter (perm.mem_iff.mpr kept))

omit perm

theorem parse_ok {readers : Readers} {query : Option Bytes} {q : S3Query} :
    parse readers query = .ok q ↔ Percent.wellFormed (query.getD []) = true ∧
      collect empty (readers.formPairs (query.getD [])) = .ok q ∧
        ∀ v, q.value .encodingType = some v → v = ascii "url" := by
  constructor
  · intro h
    obtain ⟨_, checked, h⟩ := Fallible.bind_ok h
    obtain ⟨_, gathered, h⟩ := Fallible.bind_ok h
    have formed : Percent.wellFormed (query.getD []) = true := by
      by_contra bad
      rw [validatePercentEncoding, if_neg bad] at checked
      cases checked
    unfold checkEncodingType at h
    split at h
    · rename_i absent
      cases h
      exact ⟨formed, gathered, fun v given => by rw [absent] at given; cases given⟩
    · rename_i v given
      split_ifs at h with url
      · cases h
        refine ⟨formed, gathered, fun w other => ?_⟩
        rw [given] at other
        exact Option.some.inj other ▸ url
      · cases h
  · rintro ⟨formed, gathered, url⟩
    have checked : validatePercentEncoding (query.getD []) (ascii "query") = .ok () := if_pos formed
    have kept : checkEncodingType q = .ok q := by
      unfold checkEncodingType
      split
      · rfl
      · rename_i v given
        exact if_pos (url v given)
    rw [parse, checked]
    rw [gathered]
    exact kept

end Order

end Talon.Gateway
