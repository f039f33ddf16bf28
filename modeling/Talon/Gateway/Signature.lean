import Talon.Gateway.SigV4

/-!
# What a signature fixes

Two requests with one string to sign have one canonical request, and with it one method, one path up
to spelling, one set of query pairs and one text of every signed header.
-/

set_option autoImplicit false

namespace Talon.Gateway

open Wire (Bytes)
open S3Query Percent Fallible List
open Text (ascii)
open Option (bind_eq_bind bind_eq_some_iff)

theorem slash_separates : Percent.Separates slash := by decide

theorem sign_escaped : isUnreserved sign = false := by decide

theorem slash_escaped : isUnreserved slash = false := by decide

variable {headers : Headers} {value : Bytes} {query : List (Bytes × Bytes)}

section Path

/-- One canonical path has one list of decoded segments. -/
theorem segments_decoded (path : Bytes) :
    (segments path).map decode = (segments (canonicalUri path)).map decode := by
  have same := parts_respell sign_escaped slash_separates slash_escaped path
  simp only [canonicalUri]
  split_ifs with none_
  · rw [segments, ← same, show respell isUnreserved slash path = [] from none_]
    rfl
  · exact same.symm

theorem wellFormed_segments (path : Bytes) : (segments path).all wellFormed = wellFormed path := by
  rw [← wellFormed_joined slash_separates, segments, Text.joined, intercalate_splitOn]
  induction path with
  | nil => rfl
  | cons b path ih =>
    by_cases same : b = slash
    · rw [dropWhile_cons_of_pos (by simpa using same), ih, same]
      exact (wellFormed_append slash_separates [] path).symm
    · rw [dropWhile_cons_of_neg (by simpa using same)]

theorem decodePath_ok {s decoded : Bytes} :
    decodePath .documented s = .ok decoded ↔ percentDecode s = some decoded := by
  unfold decodePath validatePercentEncoding percentDecode
  rw [show Readers.documented.percentDecode s = decode s from rfl]
  split_ifs
  · cases Utf8.strict (decode s) <;> simp [refuse, bind, Except.bind]
  · exact iff_of_false nofun nofun

theorem percentDecode_some {decoded : Bytes} : percentDecode value = some decoded ↔
    wellFormed value = true ∧ Utf8.valid (decode value) = true ∧ decoded = decode value := by
  unfold percentDecode Utf8.strict
  split_ifs with formed valid
  · exact ⟨fun h => ⟨formed, valid, (Option.some.inj h).symm⟩, fun h => congrArg some h.2.2.symm⟩
  · exact iff_of_false nofun fun h => valid h.2.1
  · exact iff_of_false nofun fun h => formed h.1

theorem decode_eq_nil {s : Bytes} : decode s = [] ↔ s = [] :=
  map_eq_nil_iff.trans lex_eq_nil

theorem parseKey_ok {raw : Bytes} {key : Option Bytes} : parseKey .documented raw = .ok key ↔
    wellFormed raw = true ∧ Utf8.valid (decode raw) = true ∧
      key = if decode raw = [] then none else some (decode raw) := by
  unfold parseKey
  by_cases none_ : raw = []
  · rw [none_]
    simp [wellFormed, decode, Percent.lex, Utf8.valid, Utf8.chunks, eq_comm]
  · simp [none_, decode_eq_nil, bind_ok_iff, decodePath_ok, percentDecode_some, and_assoc,
      eq_comm (b := key)]

variable {config : S3AdapterConfig}

/-- The part of a path that names the key. -/
def keyParts (config : S3AdapterConfig) (parts : List Bytes) : List Bytes :=
  if config.pathStyle then parts.drop 1 else parts

/-- The target that the decoded segments of a path name. -/
structure Names (config : S3AdapterConfig) (headers : Headers) (parts : List Bytes)
    (target : ParsedTarget) : Prop where
  bucket : if config.pathStyle then Utf8.valid (parts.headD []) = true ∧
      target.bucket = parts.headD []
    else hostBucket .documented config headers = .ok target.bucket
  given : target.bucket ≠ []
  valid : Utf8.valid (Text.joined slash (keyParts config parts)) = true
  key : target.key = if Text.joined slash (keyParts config parts) = [] then none
    else some (Text.joined slash (keyParts config parts))

theorem keyParts_map (f : Bytes → Bytes) (parts : List Bytes) :
    keyParts config (parts.map f) = (keyParts config parts).map f := by
  unfold keyParts
  split_ifs
  · exact map_drop.symm
  · rfl

variable {parts : List Bytes} {target : ParsedTarget}

theorem targetOf_ok {headers : Headers} :
    targetOf .documented config headers parts = .ok target ↔
      (if config.pathStyle then decodePath .documented (parts.headD [])
        else hostBucket .documented config headers) = .ok target.bucket ∧ target.bucket ≠ [] ∧
      parseKey .documented (Text.joined slash (keyParts config parts)) = .ok target.key := by
  obtain ⟨bucket, key⟩ := target
  unfold targetOf bucketAndKey keyParts
  split_ifs <;> simp [bind_ok_iff, guard_ok_iff, refuse]

theorem parseTarget_iff {r : Request} :
    parseTarget .documented config r = .ok target ↔
      wellFormed r.path = true ∧ Names config r.headers ((segments r.path).map decode) target := by
  obtain ⟨part, rest, cuts⟩ := exists_cons_of_ne_nil
    (splitOn_ne_nil slash (r.path.dropWhile (· = slash)))
  change segments r.path = part :: rest at cuts
  rw [← wellFormed_segments, parseTarget, targetOf_ok, parseKey_ok,
    wellFormed_joined slash_separates, decode_joined slash_separates, ← keyParts_map, cuts]
  constructor
  · rintro ⟨bucket, given, formed, valid, key⟩
    unfold keyParts at formed
    split_ifs at bucket formed with style
    · obtain ⟨first, shown, read⟩ := percentDecode_some.mp (decodePath_ok.mp bucket)
      exact ⟨by simp_all, by rw [if_pos style]; exact ⟨shown, read⟩, given, valid, key⟩
    · exact ⟨formed, by rwa [if_neg style], given, valid, key⟩
  · rintro ⟨formed, bucket, given, valid, key⟩
    refine ⟨?_, given, ?_, valid, key⟩
    · split_ifs at bucket ⊢
      · exact decodePath_ok.mpr (percentDecode_some.mpr ⟨by simp_all, bucket⟩)
      · exact bucket
    · unfold keyParts
      split_ifs
      · simp_all
      · exact formed

/-- Whether the path goes on after the bucket. -/
def namesKey (config : S3AdapterConfig) (path : Bytes) : Bool :=
  Text.joined slash (keyParts config (segments path)) ≠ []

theorem Names.named {headers : Headers} {path : Bytes}
    (names : Names config headers ((segments path).map decode) target) :
    target.key.isSome = namesKey config path := by
  rw [names.key, keyParts_map, ← decode_joined slash_separates, namesKey]
  split_ifs with bare <;> rw [decode_eq_nil] at bare <;> simp [bare]

theorem Names.host {headers : Headers}
    (names : Names config headers parts target) (hosted : config.pathStyle = false) :
    hostBucket .documented config headers = .ok target.bucket := by
  simpa [hosted] using names.bucket

end Path

variable {segment name line : Bytes} {method : Method} {now : Int}

section Query

theorem segmentPair_cases (segment : Bytes) :
    segment = (segmentPair segment).1 ++ 61 :: (segmentPair segment).2 ∨
      segmentPair segment = (segment, []) := by
  unfold segmentPair
  cases found : Text.cut 61 segment with
  | none => exact .inr rfl
  | some => exact .inl (Text.cut_some found).1

def readPair (text : Bytes) : Bytes × Bytes :=
  (decode (segmentPair text).1, decode (segmentPair text).2)

theorem decodePair_some {pair : Bytes × Bytes} (h : decodePair segment = some pair) :
    readPair segment = pair ∧ wellFormed segment = true ∧ Utf8.valid pair.1 = true ∧
      Utf8.valid pair.2 = true := by
  obtain ⟨_, decodedKey, h⟩ := bind_some h
  obtain ⟨_, decodedValue, h⟩ := bind_some h
  cases h
  obtain ⟨name, validName, rfl⟩ := percentDecode_some.mp decodedKey
  obtain ⟨value, validValue, rfl⟩ := percentDecode_some.mp decodedValue
  refine ⟨rfl, ?_, validName, validValue⟩
  rcases segmentPair_cases segment with split | whole
  · rw [split, wellFormed_append (by decide), name, value]
    rfl
  · rwa [whole] at name

theorem parseQuery_wellFormed {raw : Bytes} (parsed : parseQuery raw = some query) :
    wellFormed raw = true := by
  unfold parseQuery at parsed
  split_ifs at parsed with empty
  · rw [empty]
    rfl
  · have separates : Percent.Separates 38 := by decide
    have whole := wellFormed_joined separates (raw.splitOn 38)
    rw [Text.joined, intercalate_splitOn] at whole
    rw [whole, all_eq_true]
    intro segment mem
    obtain ⟨_, _, read, _⟩ := mapM_same parsed parsed segment mem
    exact (decodePair_some read).2.1

theorem readPair_encoded (x : Bytes × Bytes) : readPair (pairText (encodePair x)) = x := by
  have free : 61 ∉ (encodePair x).1 := notMem_encode (by decide) (by decide) x.1
  rw [readPair, segmentPair, pairText, Text.cut_append free]
  exact Prod.ext (decode_encode sign_escaped x.1) (decode_encode sign_escaped x.2)

def queryTexts (query : List (Bytes × Bytes)) (presigned : Bool) : List Bytes :=
  (((canonicalPairs query presigned).map encodePair).insertionSort (pairLe · ·)).map pairText

theorem queryTexts_perm (query : List (Bytes × Bytes)) (presigned : Bool) :
    ((queryTexts query presigned).map readPair).Perm (canonicalPairs query presigned) := by
  have sorted :=
    ((perm_insertionSort (pairLe · ·) ((canonicalPairs query presigned).map encodePair)).map
    pairText).map readPair
  rwa [map_map (l := canonicalPairs _ _), map_map (l := canonicalPairs _ _),
    show readPair ∘ pairText ∘ encodePair = id from funext readPair_encoded, map_id] at sorted

variable {presigned : Bool}

theorem mem_queryTexts {text : Bytes} (mem : text ∈ queryTexts query presigned) :
    ∃ x, text = pairText (encodePair x) := by
  obtain ⟨_, inside, rfl⟩ := mem_map.mp mem
  obtain ⟨x, _, rfl⟩ := mem_map.mp ((mem_insertionSort _).mp inside)
  exact ⟨x, rfl⟩

theorem notMem_queryText {c : UInt8} (separates : Percent.Separates c)
    (dropped : isUnreserved c = false) (ne : c ≠ 61) :
    ∀ text ∈ queryTexts query presigned, c ∉ text := by
  intro _ mem inside
  obtain ⟨x, rfl⟩ := mem_queryTexts mem
  rw [pairText, mem_append, mem_cons] at inside
  rcases inside with key | same | value
  · exact notMem_encode separates dropped x.1 key
  · exact ne same
  · exact notMem_encode separates dropped x.2 value

/-- The pairs are read off the canonical query, whose empty text is that of no pair. -/
theorem canonicalPairs_perm (query : List (Bytes × Bytes)) (presigned : Bool) :
    ((((canonicalQuery query presigned).splitOn 38).filter (· ≠ [])).map readPair).Perm
      (canonicalPairs query presigned) := by
  have texts : ((canonicalQuery query presigned).splitOn 38).filter (· ≠ []) =
      queryTexts query presigned := by
    by_cases none_ : queryTexts query presigned = []
    · rw [none_]
      change ((Text.joined 38 (queryTexts query presigned)).splitOn 38).filter _ = []
      rw [none_]
      rfl
    · change ((Text.joined 38 (queryTexts query presigned)).splitOn 38).filter _ = _
      rw [Text.joined, splitOn_intercalate _ (notMem_queryText (by decide) (by decide) (by decide))
        none_]
      refine filter_eq_self.mpr fun text mem => ?_
      obtain ⟨x, rfl⟩ := mem_queryTexts mem
      simp [pairText]
  rw [texts]
  exact queryTexts_perm query presigned

theorem unreserved_canonicalPairs (query : List (Bytes × Bytes)) (presigned : Bool) :
    unreserved (canonicalPairs query presigned) = unreserved query := by
  have hidden : reserved signatureName = true := by decide
  rw [unreserved, unreserved, canonicalPairs, filter_filter]
  apply filter_congr
  intro x _
  by_cases same : x.1 = signatureName
  · simp [same, hidden]
  · simp [same]

end Query

section Lines

theorem normalizeHeader_free (value : Bytes) : 10 ∉ normalizeHeader value := by
  refine Text.notMem_joined (by decide) fun word held inside => ?_
  have clean := Text.not_of_mem_splitOnP (mem_of_mem_filter held) 10 inside
  exact absurd clean (by decide)

theorem headerLine_some (h : headerLine .documented headers name = some line) :
    headerValues headers name ≠ [] ∧ ∃ values,
      (headerValues headers name).mapM (fun value =>
        (Readers.documented.toStr value).map normalizeHeader) = some values ∧
        line = name ++ 58 :: Text.joined 44 values := by
  obtain ⟨_, given, h⟩ := bind_some h
  obtain ⟨values, read, h⟩ := bind_some h
  refine ⟨?_, values, read, (Option.some.inj h).symm⟩
  intro none_
  rw [none_] at given
  cases given

theorem headerLine_free (clean : 10 ∉ name) (h : headerLine .documented headers name = some line) :
    10 ∉ line := by
  obtain ⟨_, _, read, rfl⟩ := headerLine_some h
  intro mem
  rw [mem_append, mem_cons] at mem
  rcases mem with inName | same | inValues
  · exact clean inName
  · exact absurd same (by decide)
  · refine Text.notMem_joined (by decide) (fun value held => ?_) inValues
    obtain ⟨_, _, made⟩ := mem_of_mapM read held
    obtain ⟨text, _, rfl⟩ := Option.map_eq_some_iff.mp made
    exact normalizeHeader_free text

theorem isHeaderNameByte_newline : isHeaderNameByte 10 = false := by decide

theorem ensure_some {c : Prop} [Decidable c] {u : Unit} (h : ensure c = some u) : c := by
  by_contra absurd_
  rw [ensure, if_neg absurd_] at h
  cases h

/-- What is known of the signed headers: names of header bytes, the host among them. -/
structure SignedNames (names : List Bytes) : Prop where
  bytes : ∀ name ∈ names, ∀ b ∈ name, isHeaderNameByte b = true
  host : hostName ∈ names

theorem parseSignedHeaders_some {names : List Bytes} (h : parseSignedHeaders value = some names) :
    SignedNames names := by
  simp only [parseSignedHeaders, bind_eq_bind, bind_eq_some_iff] at h
  obtain ⟨_, spelled, _, -, _, host, h⟩ := h
  cases h
  refine ⟨fun name mem b inside => ?_, ensure_some host⟩
  have checked := all_eq_true.mp (ensure_some spelled) name mem
  simp only [Bool.decide_and, Bool.decide_eq_true, Bool.and_eq_true] at checked
  exact all_eq_true.mp checked.2 b inside

namespace SignedNames

variable {names : List Bytes}

theorem notMem (known : SignedNames names) {c : UInt8} (other : isHeaderNameByte c = false) :
    ∀ name ∈ names, c ∉ name := by
  intro name mem inside
  have fine := known.bytes name mem c inside
  rw [other] at fine
  cases fine

theorem ne_nil (known : SignedNames names) : names ≠ [] := ne_nil_of_mem known.host

end SignedNames

theorem payloadHash_free {payloadHash : Bytes} {u : Unit}
    (h : validatePayloadHash method payloadHash = some u) : 10 ∉ payloadHash := by
  have constants : 10 ∉ emptySha256 ∧ 10 ∉ unsignedPayload ∧ 10 ∉ streamingUnsignedTrailer := by
    decide +kernel
  unfold validatePayloadHash at h
  split_ifs at h
  · rcases ensure_some h with rfl | rfl
    · exact constants.1
    · exact constants.2.1
  · rcases ensure_some h with rfl | rfl | hex
    · exact constants.2.1
    · exact constants.2.2
    · intro mem
      simp only [isLowerHex, Bool.and_eq_true] at hex
      have digit := all_eq_true.mp hex.2 10 mem
      exact absurd digit (by decide)

theorem parseDatetime_length {seconds : Nat} (h : parseDatetime value = some seconds) :
    value.length = 16 := by
  obtain ⟨_, long, _⟩ := bind_some h
  exact ensure_some long

/-- What the authenticator has checked of a request it prepared. -/
structure Checked (r : Request) (p : Prepared) (query : List (Bytes × Bytes))
    (headerLines : List Bytes) : Prop where
  parsed : parseQuery (r.query.getD []) = some query
  lines : canonicalHeaders .documented r.headers p.signed.signedHeaders = some headerLines
  canonical : p.canonical = Text.joined 10 (canonicalLines r query p.signed headerLines)
  names : SignedNames p.signed.signedHeaders
  payload : 10 ∉ p.signed.payloadHash
  dated : p.signed.datetime.length = 16

theorem prepare_some {auth : S3SigV4Authenticator} {r : Request} {p : Prepared}
    (h : prepare .documented auth r now = some p) :
    ∃ query headerLines, Checked r p query headerLines := by
  simp only [prepare, bind_eq_bind, bind_eq_some_iff] at h
  obtain ⟨query, parsed, signed, read, _, -, _, -, _, -, _, -, _, -, _, payload, _, -, _,
    made, h⟩ := h
  obtain ⟨headerLines, lines, made⟩ := bind_some made
  cases h
  cases made
  have parts : SignedNames signed.signedHeaders ∧ signed.datetime.length = 16 := by
    obtain ⟨_, _, read⟩ := bind_some read
    split_ifs at read
    · simp only [parsePresigned, bind_eq_bind, bind_eq_some_iff] at read
      obtain ⟨_, -, _, -, _, -, _, -, _, -, _, -, _, dated, _, -, _, -, _, -, _, -,
        _, -, _, -, _, split, _, -, _, -, _, -, read⟩ := read
      cases read
      exact ⟨parseSignedHeaders_some split, parseDatetime_length dated⟩
    · simp only [parseHeaderSigned, bind_eq_bind, bind_eq_some_iff] at read
      obtain ⟨_, -, _, -, _, -, _, -, _, -, _, -, _, -, _, split, _, -, _, -, _, dated,
        _, -, _, -, _, -, _, -, _, -, read⟩ := read
      cases read
      exact ⟨parseSignedHeaders_some split, parseDatetime_length dated⟩
  exact ⟨query, headerLines, parsed, lines, rfl, parts.1, payloadHash_free payload, parts.2⟩

namespace Checked

variable {a b : Request} {p q : Prepared} {query other : List (Bytes × Bytes)}
  {headerLines otherLines : List Bytes}

theorem canonicalUri_free (path : Bytes) : 10 ∉ canonicalUri path := by
  simp only [canonicalUri]
  split_ifs
  · decide
  · exact notMem_respell_of_ne (by decide) (by decide) (by decide) path

section

variable (known : Checked a p query headerLines)
include known

theorem headerLines_free : ∀ line ∈ headerLines, 10 ∉ line := by
  intro _ mem
  obtain ⟨name, listed, made⟩ := mem_of_mapM known.lines mem
  exact headerLine_free (known.names.notMem isHeaderNameByte_newline name listed) made

theorem signedHeaders_free : 10 ∉ Text.joined 59 p.signed.signedHeaders :=
  Text.notMem_joined (by decide) (known.names.notMem isHeaderNameByte_newline)

theorem lines_free : ∀ line ∈ canonicalLines a query p.signed headerLines, 10 ∉ line := by
  intro line mem
  simp only [canonicalLines, mem_append, mem_cons, not_mem_nil, or_false] at mem
  rcases mem with ((rfl | rfl | rfl) | held) | (rfl | rfl | rfl)
  · exact a.method.newline_notMem
  · exact canonicalUri_free a.path
  · exact Text.notMem_joined (by decide) (notMem_queryText (by decide) (by decide) (by decide))
  · exact known.headerLines_free line held
  · exact not_mem_nil
  · exact known.signedHeaders_free
  · exact known.payload

end

/-- One canonical request: one method, path spelling, set of pairs and header block. -/
structure SameSigned (a b : Request) (p q : Prepared) (query other : List (Bytes × Bytes))
    (headerLines otherLines : List Bytes) : Prop where
  method : a.method = b.method
  uri : canonicalUri a.path = canonicalUri b.path
  pairs : (unreserved query).Perm (unreserved other)
  names : p.signed.signedHeaders = q.signed.signedHeaders
  lines : headerLines = otherLines

theorem same_of_canonical (left : Checked a p query headerLines)
    (right : Checked b q other otherLines) (same : p.canonical = q.canonical) :
    SameSigned a b p q query other headerLines otherLines := by
  rw [left.canonical, right.canonical] at same
  have all := Text.joined_inj left.lines_free right.lines_free (by simp [canonicalLines])
    (by simp [canonicalLines]) same
  simp only [canonicalLines, cons_append, nil_append, cons.injEq] at all
  obtain ⟨method, uri, queryText, rest⟩ := all
  obtain ⟨lines, tail⟩ := append_inj' rest rfl
  simp only [cons.injEq, true_and, and_true] at tail
  have pairs := canonicalPairs_perm query p.signed.presigned
  rw [queryText] at pairs
  have kept := (pairs.symm.trans (canonicalPairs_perm other q.signed.presigned)).filter fun x =>
    ¬ reserved x.1
  change (unreserved _).Perm (unreserved _) at kept
  rw [unreserved_canonicalPairs, unreserved_canonicalPairs] at kept
  have semicolon : isHeaderNameByte 59 = false := by decide
  exact ⟨Method.ext_text method, uri, kept,
    Text.joined_inj (left.names.notMem semicolon) (right.names.notMem semicolon) left.names.ne_nil
      right.names.ne_nil tail.1, lines⟩

end Checked

end Lines

end Talon.Gateway
