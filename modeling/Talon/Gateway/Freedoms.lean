import Talon.Gateway.Signature

/-!
# What the adapter reads and nobody signed

The adapter treats a plus sign as a blank, lets the last of several values win, skips empty segments
of a query, takes the first value of a header and follows a copy source that nobody signed.  Two
requests under one signature ask for one access where it reads them alike in this.
-/

set_option autoImplicit false

namespace Talon.Gateway

open Wire (Bytes)
open S3Query Percent Fallible List Option
open Text (ascii)
open HeaderValue (toStr toStr_some)

section Form

/-- A text with some of its plus signs read as blanks. -/
def Blanked (s t : Bytes) : Prop := Forall₂ (fun b c => c = b ∨ b = 43 ∧ c = 32) s t

variable {s t : Bytes}

theorem Blanked.eq (h : Blanked s t) (free : 43 ∉ s ∨ 32 ∉ t) : t = s := by
  induction h with
  | nil => rfl
  | cons first _ ih =>
    simp only [mem_cons, not_or] at free
    rcases first with rfl | ⟨rfl, rfl⟩
    · rw [ih (free.imp And.right And.right)]
    · exact absurd free (by simp)

theorem Blanked.length_eq (h : Blanked s t) : t.length = s.length := (Forall₂.length_eq h).symm

theorem formDecode_blanked (valid : Utf8.valid (decode s) = true) :
    Blanked (decode s) (formDecode s) := by
  have blanked : Blanked (decode s) (decode (s.map plusToBlank)) := by
    rw [decode, decode, lex_map (forall_byte (by decide +kernel)) (forall_byte (by decide +kernel)),
      Blanked, forall₂_map_left_iff, forall₂_map_right_iff, forall₂_map_right_iff, forall₂_same]
    intro x _
    cases x with
    | escaped b => exact .inl rfl
    | plain b =>
      by_cases plus : b = 43
      · exact .inr ⟨plus, if_pos plus⟩
      · exact .inl (if_neg plus)
  have ascii : Forall₂ (fun b c => c = b ∨ b < 0x80 ∧ c < 0x80) (decode s)
      (decode (s.map plusToBlank)) := by
    refine Forall₂.imp (fun b c each => each.imp_right ?_) blanked
    rintro ⟨rfl, rfl⟩
    decide
  rwa [formDecode, Utf8.lossy_of_valid (Utf8.valid_of_forall₂ ascii valid)]

theorem Blanked.ofName (h : Blanked s t) : Parameter.ofName t = Parameter.ofName s := by
  have clean (p : Parameter) : 43 ∉ p.name ∧ 32 ∉ p.name := by cases p <;> decide
  unfold Parameter.ofName
  congr 1
  funext p
  refine decide_eq_decide.mpr ⟨fun same => ?_, fun same => ?_⟩
  · rw [same, h.eq (.inr (same ▸ (clean p).2))]
  · rw [same, h.eq (.inl (same ▸ (clean p).1))]

theorem Blanked.reserved (h : Blanked s t) : S3Query.reserved t = S3Query.reserved s := by
  have boundary : isCharBoundary t 6 = isCharBoundary s 6 := by
    unfold isCharBoundary
    have size := h.length_eq
    by_cases inside : 6 < s.length
    · have each := (forall₂_iff_get.mp h).2 6 inside (size ▸ inside)
      rw [getElem?_eq_getElem inside, getElem?_eq_getElem (size ▸ inside)]
      simp only [get_eq_getElem] at each
      rcases each with same | ⟨plus, blank⟩
      · simp [same]
      · simp [plus, blank]
    · rw [getElem?_eq_none (by omega), getElem?_eq_none (by omega), size]
  have start : (t.take 6).map Text.toLower = ascii "x-amz-" ↔
      (s.take 6).map Text.toLower = ascii "x-amz-" := by
    have taken : Blanked (s.take 6) (t.take 6) := forall₂_take 6 h
    constructor
    · intro same
      rwa [← taken.eq (.inr fun mem => ?_)]
      have bad := mem_map_of_mem (f := Text.toLower) mem
      rw [same] at bad
      revert bad
      decide
    · intro same
      rwa [taken.eq (.inl fun mem => ?_)]
      have bad := mem_map_of_mem (f := Text.toLower) mem
      rw [same] at bad
      revert bad
      decide
  unfold S3Query.reserved
  rw [h.length_eq, boundary]
  simp only [start]

def BlankedPair (x y : Bytes × Bytes) : Prop := Blanked x.1 y.1 ∧ Blanked x.2 y.2

/-- The pairs that are not empty. -/
def filled (pairs : List (Bytes × Bytes)) : List (Bytes × Bytes) := pairs.filter (· ≠ ([], []))

theorem readPair_eq_nil (h : readPair s = ([], [])) : s = [] ∨ s = [61] := by
  have name := map_eq_nil_iff.mp (congrArg Prod.fst h)
  have value := map_eq_nil_iff.mp (congrArg Prod.snd h)
  rw [lex_eq_nil] at name value
  rcases segmentPair_cases s with split | whole
  · rw [name, value] at split
    exact .inr split
  · rw [whole] at name
    exact .inl name

theorem formPairs_blanked {raw : Bytes} {pairs : List (Bytes × Bytes)}
    (parsed : parseQuery raw = some pairs) (named : [61] ∉ raw.splitOn 38) :
    Forall₂ BlankedPair (filled pairs) (formPairs raw) := by
  unfold parseQuery at parsed
  split_ifs at parsed with empty
  · cases parsed
    rw [empty]
    exact .nil
  · have each := mapM_some parsed
    rw [formPairs, forall₂_map_right_iff]
    generalize raw.splitOn 38 = segments at each named
    clear parsed
    induction each with
    | nil => exact .nil
    | @cons segment x segments pairs read _ ih =>
      have later := ih fun mem => named (mem_cons_of_mem _ mem)
      obtain ⟨rfl, -, validName, validValue⟩ := decodePair_some read
      by_cases none_ : segment = []
      · rw [none_] at read ⊢
        exact later
      · have some_ : readPair segment ≠ ([], []) := fun same =>
          (readPair_eq_nil same).elim none_ fun eq => named (eq ▸ mem_cons_self)
        rw [filled, filter_cons_of_pos (by simpa using some_),
          filter_cons_of_pos (by simpa using none_)]
        exact .cons ⟨formDecode_blanked validName, formDecode_blanked validValue⟩ later

variable {pairs form : List (Bytes × Bytes)} (blanked : Forall₂ BlankedPair pairs form)
include blanked

theorem valuesOf_blanked (p : Parameter) :
    Forall₂ Blanked (valuesOf pairs p) (valuesOf form p) := by
  rw [valuesOf, valuesOf, forall₂_map_left_iff, forall₂_map_right_iff]
  refine Forall₂.imp (fun _ _ h => h.2) (rel_filter (fun x y h => ?_) blanked)
  simp [h.1.ofName]

theorem tidy_blanked : Tidy pairs ↔ Tidy form := by
  have names {x y : Bytes × Bytes} (h : BlankedPair x y) : recognised y.1 = recognised x.1 := by
    rw [recognised, recognised, h.1.ofName, h.1.reserved]
  have sizes (p : Parameter) := (valuesOf_blanked blanked p).length_eq
  constructor
  · intro tidy
    refine ⟨fun y mem => ?_, fun p once => sizes p ▸ tidy.once p once⟩
    obtain ⟨x, inside, h⟩ := mem_of_forall₂ blanked mem
    rw [names h]
    exact tidy.names x inside
  · intro tidy
    refine ⟨fun x mem => ?_, fun p once => sizes p ▸ tidy.once p once⟩
    obtain ⟨y, inside, h⟩ :=
      mem_of_forall₂ (Forall₂.flip (R := fun y x => BlankedPair x y) blanked) mem
    rw [← names h]
    exact tidy.names y inside

variable {other form' : List (Bytes × Bytes)} (blanked' : Forall₂ BlankedPair other form')
  (perm : (unreserved pairs).Perm (unreserved other))
include blanked' perm

/-- Of one parameter two requests take values that were signed, or neither takes one. -/
theorem value_cases (p : Parameter) :
    (collected form).value p = none ∧ (collected form').value p = none ∨
      ∃ v ∈ valuesOf pairs p, ∃ v' ∈ valuesOf pairs p, ∃ w w',
        (collected form).value p = some w ∧ (collected form').value p = some w' ∧
          Blanked v w ∧ Blanked v' w' := by
  have values := valuesOf_blanked blanked p
  have values' := valuesOf_blanked blanked' p
  have same := valuesOf_perm perm p
  unfold collected
  dsimp only
  cases last : (valuesOf form p).getLast? with
  | none =>
    rw [getLast?_eq_none_iff.mp last, forall₂_nil_right_iff] at values
    rw [values, nil_perm] at same
    rw [same, forall₂_nil_left_iff] at values'
    rw [values']
    exact .inl ⟨rfl, rfl⟩
  | some w =>
    obtain ⟨v, mem, read⟩ := mem_of_forall₂ values (mem_of_getLast? last)
    cases last' : (valuesOf form' p).getLast? with
    | none =>
      rw [getLast?_eq_none_iff.mp last', forall₂_nil_right_iff] at values'
      rw [values'] at same
      exact absurd (same.mem_iff.mp mem) not_mem_nil
    | some w' =>
      obtain ⟨v', mem', read'⟩ := mem_of_forall₂ values' (mem_of_getLast? last')
      exact .inr ⟨v, mem, v', same.mem_iff.mpr mem', w, w', rfl, rfl, read, read'⟩

end Form

section Access

variable {config : S3AdapterConfig} {r : Request} {target : ParsedTarget} {access : GatewayAccess}
  {method : Method} {q q' : S3Query} {headers a b : Headers}

/-- The parameters of a query as the adapter takes them. -/
def Request.reading (r : Request) : S3Query := collected (formPairs (r.query.getD []))

structure Classified (config : S3AdapterConfig) (r : Request) (target : ParsedTarget)
    (access : GatewayAccess) : Prop where
  parsed : parseTarget .documented config r = .ok target
  formed : wellFormed (r.query.getD []) = true
  tidy : Tidy (formPairs (r.query.getD []))
  url : ∀ v, r.reading.value .encodingType = some v → v = ascii "url"
  asked : accessOf .documented target r.reading r.method r.headers = .ok access

theorem classify_iff :
    classifyAccess .documented config r = .ok access ↔ ∃ target, Classified config r target
      access := by
  constructor
  · intro h
    obtain ⟨target, parsed, h⟩ := bind_ok h
    obtain ⟨q, read, h⟩ := bind_ok h
    obtain ⟨_, checked, h⟩ := bind_ok h
    have known : q.unknown = none := by
      unfold requireKnownSubResources at checked
      split at checked
      · assumption
      · cases checked
    obtain ⟨formed, gathered, url⟩ := parse_ok.mp read
    obtain ⟨tidy, rfl⟩ := collect_iff.mp ⟨gathered, known⟩
    exact ⟨target, parsed, formed, tidy, url, h⟩
  · rintro ⟨target, parsed, formed, tidy, url, h⟩
    have gathered := collect_iff.mpr ⟨tidy, rfl⟩
    have read : S3Query.parse .documented r.query = .ok _ := parse_ok.mpr ⟨formed, gathered.1, url⟩
    rw [classifyAccess, parsed]
    change (S3Query.parse .documented r.query >>= _) = _
    rw [read]
    exact h

/-- Two readings of a query that ask the same of a target. -/
structure Agree (method : Method) (key : Option Bytes) (q q' : S3Query) : Prop where
  unknown : q'.unknown = q.unknown
  present : q'.has = q.has
  sizes : ∀ p, p.lastWins = false → (q'.value p).map length = (q.value p).map length
  version : method = .get → key = none → q'.isListV2 = q.isListV2
  listing : method = .get → key = none → q.isListV2 = true ∨ q.has .location = false →
    q'.value .keyPrefix = q.value .keyPrefix
  numbers : key ≠ none → ∀ p ∈ [Parameter.partNumber, .partNumberMarker, .maxParts],
    q'.value p = q.value p

theorem accessOf_named {key : Bytes} (named : target.key = some key) :
    accessOf .documented target q method headers =
      if q.has .delete then
        refuse "InvalidRequest" (ascii "delete is a bucket-level sub-resource")
      else
        q.multipartOperation method (containsHeader headers copySourceName) >>= fun multipart =>
        copyRequirements .documented method headers >>= fun additional =>
        .ok ⟨objectOperation method multipart, none, .object ⟨.s3, target.bucket, key⟩,
          additional⟩ := by
  unfold accessOf
  simp only [named, bucketProbe, isNone_some, isSome_some, isSome_none,
    Bool.false_eq_true, false_and, and_false, if_true, if_false]

/-- Texts of one length are both or neither fit for an upload's name. -/
theorem filter_sizes {x y : Option Bytes} (same : y.map length = x.map length) :
    (y.filter fun v => v ≠ [] ∧ v.length ≤ 2048).isSome =
      (x.filter fun v => v ≠ [] ∧ v.length ≤ 2048).isSome := by
  have fits (z : Option Bytes) : (z.filter fun v => v ≠ [] ∧ v.length ≤ 2048).isSome =
      ((z.map length).filter fun n => 0 < n ∧ n ≤ 2048).isSome := by
    cases z with
    | none => rfl
    | some v =>
      simp only [filter_some, map_some, length_pos_iff]
      split_ifs <;> rfl
  rw [fits, fits, same]

/-- Which multipart operation it is depends on no text, only on which texts are there and fit. -/
theorem Agree.multipart (agree : Agree method target.key q q') (named : target.key ≠ none)
    (copy copy' : Bool) : (q'.multipartOperation method copy').map (objectOperation method) =
      (q.multipartOperation method copy).map (objectOperation method) := by
  have numbers := agree.numbers named
  have uploads := agree.sizes .uploads rfl
  have ids := filter_sizes (agree.sizes .uploadId rfl)
  unfold multipartOperation
  rw [agree.present, numbers .partNumber (by simp), numbers .partNumberMarker (by simp),
    numbers .maxParts (by simp)]
  by_cases none_ : ¬ [Parameter.uploads, .uploadId, .partNumber, .partNumberMarker, .maxParts].any
    q.has
  · rw [if_pos none_, if_pos none_]
  rw [if_neg none_, if_neg none_]
  cases left : q.value .uploads with
  | some v =>
    cases right : q'.value .uploads with
    | none => simp [left, right] at uploads
    | some w =>
      have same : w = [] ↔ v = [] := by
        simp only [left, right, map_some, some.injEq] at uploads
        rw [← length_eq_zero_iff, uploads, length_eq_zero_iff]
      simp only [same]
  | none =>
    cases right : q'.value .uploads with
    | some => simp [left, right] at uploads
    | none =>
      cases good : (q.value .uploadId).filter fun v => v ≠ [] ∧ v.length ≤ 2048 with
      | none =>
        rw [good] at ids
        rw [isNone_iff_eq_none.mp (isSome_eq_false_iff.mp ids)]
      | some v =>
        rw [good] at ids
        obtain ⟨w, good'⟩ := Option.isSome_iff_exists.mp ids
        rw [good']
        dsimp only
        split_ifs
        · rfl
        · cases parsePartNumber (q.value .partNumber) <;> rfl
        · cases Option.mapM parsePartMarker (q.value .partNumberMarker) with
          | error => rfl
          | ok => cases Option.mapM parseMaxParts (q.value .maxParts) <;> rfl
        all_goals rfl

theorem accessOf_agree (agree : Agree method target.key q q')
    (copy : copyRequirements .documented method b = copyRequirements .documented method a)
    (h : accessOf .documented target q method a = .ok access) :
    accessOf .documented target q' method b = .ok access := by
  cases named : target.key with
  | some key =>
    rw [accessOf_named named] at h ⊢
    rw [agree.present, copy]
    split_ifs at h ⊢
    · cases h
    · obtain ⟨operation, made, h⟩ := bind_ok h
      obtain ⟨additional, given, h⟩ := bind_ok h
      have same := agree.multipart (by simp [named]) (containsHeader a copySourceName)
        (containsHeader b copySourceName)
      rw [made] at same
      cases made' : q'.multipartOperation method (containsHeader b copySourceName) with
      | error =>
        rw [made'] at same
        cases same
      | ok operation' =>
        rw [made'] at same
        rw [given, ← h, ← Except.ok.inj same]
        rfl
  | none =>
    have probe : bucketProbe method target q' = bucketProbe method target q := by
      unfold bucketProbe
      rw [agree.present]
    have first : q'.requireV1ListShape = q.requireV1ListShape := by
      unfold requireV1ListShape
      rw [agree.present, agree.unknown]
    have batch : q'.requireDeleteObjectsShape = q.requireDeleteObjectsShape := by
      have empty {x : Option Bytes} : x = some [] ↔ x.map length = some 0 := by
        cases x <;> simp
      unfold requireDeleteObjectsShape
      simp only [empty, agree.sizes .delete rfl, agree.present, agree.unknown]
    unfold accessOf at h ⊢
    rw [probe, first, batch, agree.present]
    simp only [named, isNone_none, true_and] at h ⊢
    by_cases get : method = .get
    · rw [agree.version get named]
      have prefixes := agree.listing get named
      by_cases v2 : q.isListV2 = true
      · rwa [prefixes (.inl v2)]
      · by_cases located : q.has .location = true
        · have asked : (bucketProbe method target q).isSome = true := by
            simp [bucketProbe, named, get, located]
            decide
          simpa only [v2, asked, Bool.false_eq_true, and_false, if_false, if_true] using h
        · rwa [prefixes (.inr (by simpa using located))]
    · simpa only [get, false_and, if_false] using h

/-- A `GET` of a bucket. -/
theorem accessOf_bucket (unnamed : target.key = none)
    (h : accessOf .documented target q .get headers = .ok access) :
    q.isListV2 = q.has .listType ∧
        access = ⟨.list, none, .inNamespace .s3 target.bucket (q.value .keyPrefix), []⟩ ∨
      q.isListV2 = false ∧ q.has .location = true ∧ access.operation = .probe := by
  have bare : target.key.isNone = true := by rw [unnamed]; rfl
  unfold accessOf at h
  by_cases v2 : q.isListV2 = true
  · rw [if_pos ⟨rfl, bare, v2⟩] at h
    cases h
    have typed : q.has .listType = true := by
      rw [has, of_decide_eq_true v2]
      rfl
    exact .inl ⟨v2.trans typed.symm, rfl⟩
  rw [if_neg fun listed => v2 listed.2.2] at h
  by_cases located : q.has .location = true
  · have probe : (bucketProbe .get target q).isSome = true := by
      simp [bucketProbe, unnamed, located]
      decide
    rw [if_pos probe] at h
    cases h
    exact .inr ⟨by simpa using v2, located, rfl⟩
  · have probe : ¬ (bucketProbe .get target q).isSome = true := by
      simp [bucketProbe, unnamed, located]
      decide
    rw [if_neg probe, if_neg fun batch => absurd batch.1 (by decide), if_pos ⟨rfl, bare⟩] at h
    obtain ⟨_, shape, h⟩ := bind_ok h
    cases h
    unfold requireV1ListShape at shape
    have untyped := (guard_ok shape).1
    exact .inl ⟨by simp [v2, untyped], rfl⟩

/-- Two queries that ask the same of a bucket list it alike. -/
theorem accessOf_listings (unnamed : target.key = none) (present : q'.has = q.has)
    (h : accessOf .documented target q .get a = .ok access)
    (h' : accessOf .documented target q' .get b = .ok access) :
    q'.isListV2 = q.isListV2 ∧ (q.isListV2 = true ∨ q.has .location = false →
      q'.value .keyPrefix = q.value .keyPrefix) := by
  rcases accessOf_bucket unnamed h with ⟨shape, rfl⟩ | ⟨other, located, probe⟩
  · rcases accessOf_bucket unnamed h' with ⟨shape', same⟩ | ⟨-, -, probe⟩
    · injection same with _ _ target
      injection target with _ _ prefixes
      exact ⟨by rw [shape, shape', present], fun _ => prefixes.symm⟩
    · cases probe
  · refine ⟨?_, fun listed => ?_⟩
    · rcases accessOf_bucket unnamed h' with ⟨-, rfl⟩ | ⟨other', -⟩
      · cases probe
      · rw [other, other']
    · rw [other, located] at listed
      cases listed <;> contradiction

/-- What an access says of the target and of the copy; without a key nothing is copied. -/
theorem accessOf_ok (h : accessOf .documented target q method headers = .ok access) :
    (targetParts access.target).2.1 = target.bucket ∧
      (method = .put → copyRequirements .documented method headers = .ok access.additional) := by
  cases named : target.key with
  | some key =>
    rw [accessOf_named named] at h
    obtain ⟨_, h⟩ := guard_ok h
    obtain ⟨_, _, h⟩ := bind_ok h
    obtain ⟨_, given, h⟩ := bind_ok h
    cases h
    exact ⟨rfl, fun _ => given⟩
  | none =>
    by_cases put : method = .put
    · subst put
      have get : (Method.put : Method) ≠ .get := by decide
      have isHead : (Method.put : Method) ≠ .head := by decide
      have post : (Method.put : Method) ≠ .post := by decide
      simp [accessOf, bucketProbe, named, get, isHead, post, refuse] at h
    · refine ⟨?_, fun is => absurd is put⟩
      unfold accessOf at h
      simp only [named] at h
      split_ifs at h
      · cases h
        rfl
      · cases h
        rfl
      · obtain ⟨_, _, h⟩ := bind_ok h
        cases h
        rfl
      · obtain ⟨_, _, h⟩ := bind_ok h
        cases h
        rfl
      · cases h

theorem blank_notMem {low high : Nat} {message : String} {v : Bytes} {n : Nat}
    (h : parseBounded low high message v = .ok n) : 32 ∉ v := by
  have digits {s : Bytes} (all : s.all Text.isDigit = true) : 32 ∉ s := fun mem =>
    absurd (all_eq_true.mp all 32 mem) (by decide)
  unfold parseBounded at h
  split at h
  · rename_i read
    have number := (filter_eq_some_iff.mp read).1
    unfold Text.parseUnsigned at number
    cases v with
    | nil => exact not_mem_nil
    | cons b v =>
      by_cases plus : b = 43
      · subst plus
        simp only [head?_cons, if_true, tail_cons] at number
        split_ifs at number with fine
        rw [mem_cons]
        exact fun mem => digits fine.2.1 (mem.resolve_left (by decide))
      · simp only [head?_cons, some.injEq, plus, if_false] at number
        split_ifs at number with fine
        exact digits fine.2.1
  · cases h

theorem accessOf_numbers (named : target.key ≠ none)
    (h : accessOf .documented target q method headers = .ok access) {p : Parameter} {v : Bytes}
    (number : p ∈ [Parameter.partNumber, .partNumberMarker, .maxParts])
    (given : q.value p = some v) : 32 ∉ v := by
  obtain ⟨key, named⟩ := ne_none_iff_exists'.mp named
  rw [accessOf_named named] at h
  obtain ⟨operation, made, -⟩ := bind_ok (guard_ok h).2
  have present : q.has p = true := by rw [has, given]; rfl
  have later : [Parameter.partNumber, .partNumberMarker, .maxParts].any q.has = true :=
    any_eq_true.mpr ⟨p, number, present⟩
  have later' :
      [Parameter.uploadId, .partNumber, .partNumberMarker, .maxParts].any q.has = true := by
    rw [any_cons, later, Bool.or_true]
  have read {f : Bytes → Except Halt Nat} {x : Option Bytes} {y : Option Nat} (is : x = some v)
      (ok : x.mapM f = .ok y) : ∃ n, f v = .ok n := by
    rw [is] at ok
    obtain ⟨n, ok, -⟩ := bind_ok (f := fun n => Except.ok (some n)) ok
    exact ⟨n, ok⟩
  unfold multipartOperation at made
  rw [if_neg (by rw [any_cons, later', Bool.or_true]; simp)] at made
  simp only [mem_cons, not_mem_nil, or_false] at number
  split at made
  · rw [if_neg fun shape => shape.2.2 later'] at made
    cases made
  split at made
  · cases made
  split_ifs at made with put more get post delete
  · cases made
  · obtain ⟨n, ok, -⟩ := bind_ok made
    rcases number with rfl | rfl | rfl
    · rw [given] at ok
      exact blank_notMem ok
    · exact absurd (.inl present) more
    · exact absurd (.inr present) more
  · obtain ⟨_, marker, made⟩ := bind_ok made
    obtain ⟨_, parts, -⟩ := bind_ok made
    rcases number with rfl | rfl | rfl
    · exact absurd present get.2
    · exact (read given marker).elim fun _ => blank_notMem
    · exact (read given parts).elim fun _ => blank_notMem
  · exact absurd later post.2
  · exact absurd later delete.2
  · cases made

end Access

section Headers

/-- The text of a copy source, without the slashes in front. -/
def sourceText (value : Bytes) : Option Bytes :=
  if (HeaderValue.toStr value).isSome ∧ 63 ∉ value then percentDecode (value.dropWhile (· = slash))
  else none

theorem parseCopySource_ok {value : Bytes} {source : ObjectId} :
    parseCopySource .documented value = .ok source ↔ ∃ text, sourceText value = some text ∧
      (Text.cut slash text).filter (fun x => x.1 ≠ [] ∧ x.2 ≠ []) =
        some (source.bucket, source.objectPath) ∧ source.backend = .s3 := by
  have read : Readers.documented.toStr value = toStr value := rfl
  unfold parseCopySource sourceText
  rw [read]
  cases shown : toStr value with
  | none => exact iff_of_false nofun fun ⟨_, h, _⟩ => nomatch h
  | some text =>
    cases toStr_some shown
    by_cases versioned : 63 ∈ value
    · simp [versioned, refuse]
    simp only [versioned, contains_eq_mem, decide_false, isSome_some, not_false_eq_true,
      Bool.false_eq_true, if_false, and_self, if_true]
    constructor
    · intro h
      obtain ⟨text, decoded, h⟩ := bind_ok h
      split at h
      · cases h
      · rename_i found
        cases h
        exact ⟨text, decodePath_ok.mp decoded, found, rfl⟩
    · rintro ⟨text, decoded, found, s3⟩
      rw [decodePath_ok.mpr decoded]
      obtain ⟨backend, bucket, key⟩ := source
      cases s3
      simp only [bind, Except.bind, found]

variable {headers : Headers} {additional : List GatewayAccessRequirement}

theorem copyRequirements_ok :
    copyRequirements .documented .put headers = .ok additional ↔
      headerValue headers copySourceName = none ∧ additional = [] ∨
        ∃ value source, headerValue headers copySourceName = some value ∧
          parseCopySource .documented value = .ok source ∧
            additional = [⟨.read, none, .object source⟩] := by
  rw [copyRequirements, if_pos rfl]
  unfold copySource
  cases headerValue headers copySourceName with
  | none => simp [bind, Except.bind, eq_comm]
  | some value =>
    simp only [reduceCtorEq, false_and, false_or, some.injEq, exists_and_left, exists_eq_left']
    cases parseCopySource .documented value <;> simp [bind, Except.bind, eq_comm]

/-- The copies that two headers ask for are one where the texts of their sources are. -/
theorem copyRequirements_iff {a b : Headers}
    (h : copyRequirements .documented .put a = .ok additional) :
    copyRequirements .documented .put b = .ok additional ↔
      (headerValue b copySourceName).map sourceText = (headerValue a copySourceName).map
        sourceText := by
  rw [copyRequirements_ok] at h ⊢
  rcases h with ⟨none_, rfl⟩ | ⟨value, source, given, parsed, rfl⟩
  · simp [none_]
  · obtain ⟨text, is, found, s3⟩ := parseCopySource_ok.mp parsed
    simp only [given, map_some, is, reduceCtorEq, and_false, false_or, map_eq_some_iff]
    constructor
    · rintro ⟨value', source', given', parsed', same⟩
      cases same
      obtain ⟨text', is', found', -⟩ := parseCopySource_ok.mp parsed'
      have whole := (Text.cut_some (filter_eq_some_iff.mp found).1).1
      have whole' := (Text.cut_some (filter_eq_some_iff.mp found').1).1
      exact ⟨value', given', by rw [is', whole', whole]⟩
    · rintro ⟨value', given', is'⟩
      exact ⟨value', source, given', parseCopySource_ok.mpr ⟨text, is', found, s3⟩, rfl⟩

/-- The part of the host that a bucket is taken from. -/
def hostPart (headers : Headers) : Bytes :=
  ((headerValue headers hostName).getD []).takeWhile (· ≠ 58)

theorem stripSuffix_some {suffix s rest : Bytes} :
    stripSuffix suffix s = some rest ↔ s = rest ++ suffix := by
  unfold stripSuffix
  constructor
  · intro h
    split_ifs at h with ends
    cases h
    exact (suffix_iff_eq_append.mp (isSuffixOf_iff_suffix.mp ends)).symm
  · rintro rfl
    rw [if_pos (isSuffixOf_iff_suffix.mpr (suffix_append _ _))]
    simp

theorem hostBucket_ok {config : S3AdapterConfig} {host bucket : Bytes}
    (given : headerValue headers hostName = some host)
    (shown : HeaderValue.toStr host = some host) :
    hostBucket .documented config headers = .ok bucket ↔
      hostPart headers = bucket ++ (ascii "." ++ config.endpointSuffix) := by
  have read : Readers.documented.toStr host = some host := shown
  unfold hostBucket hostPart
  simp only [given, Option.bind_some, read, Option.getD_some, ← stripSuffix_some]
  cases stripSuffix (ascii "." ++ config.endpointSuffix) (host.takeWhile (· ≠ 58)) <;> simp [refuse]

end Headers

section Alike

/-- What the adapter reads of a second request, where the signature leaves it open, is what it reads
of the first. -/
structure Alike (config : S3AdapterConfig) (a b : Request) : Prop where
  /-- Every percent sign of the path starts an escape. -/
  path : wellFormed b.path = true
  /-- No pair of the query is a bare equals sign. -/
  named : [61] ∉ (b.query.getD []).splitOn 38
  url : ∀ v, b.reading.value .encodingType = some v → v = ascii "url"
  version : a.method = .get → namesKey config a.path = false →
    b.reading.isListV2 = a.reading.isListV2
  /-- A listing takes the same prefix, last and with plus signs as blanks. -/
  listing : a.method = .get → namesKey config a.path = false →
    a.reading.isListV2 = true ∨ a.reading.has .location = false →
      b.reading.value .keyPrefix = a.reading.value .keyPrefix
  numbers : namesKey config a.path = true →
    ∀ p ∈ [Parameter.partNumber, .partNumberMarker, .maxParts],
      b.reading.value p = a.reading.value p
  /-- A write copies from the same source, or neither copies. -/
  copy : a.method = .put → (headerValue b.headers copySourceName).map sourceText =
    (headerValue a.headers copySourceName).map sourceText
  host : config.pathStyle = false → hostPart b.headers = hostPart a.headers

variable {config : S3AdapterConfig} {a b : Request} {p q : Prepared}
  {query other : List (Bytes × Bytes)} {headerLines otherLines : List Bytes}
  {target target' : ParsedTarget} {access : GatewayAccess}

theorem Checked.host (known : Checked a p query headerLines) :
    ∃ host, headerValue a.headers hostName = some host ∧ HeaderValue.toStr host = some host := by
  obtain ⟨_, _, made, _⟩ := mapM_same known.lines known.lines hostName known.names.host
  obtain ⟨given, _, read, _⟩ := headerLine_some made
  obtain ⟨host, rest, values⟩ := exists_cons_of_ne_nil given
  rw [values] at read
  obtain ⟨_, _, shown, _⟩ := mapM_same read read host mem_cons_self
  obtain ⟨text, shown, _⟩ := map_eq_some_iff.mp shown
  refine ⟨host, by rw [headerValue, values]; rfl, ?_⟩
  rw [← toStr_some shown]
  exact toStr_some shown ▸ shown

theorem Classified.named (h : Classified config a target access) :
    [61] ∉ (a.query.getD []).splitOn 38 := fun mem => by
  have held : ([], []) ∈ formPairs (a.query.getD []) :=
    mem_map.mpr ⟨[61], mem_filter.mpr ⟨mem, by decide⟩, by decide⟩
  exact absurd (h.tidy.names _ held) (by decide)

variable (left : Checked a p query headerLines) (right : Checked b q other otherLines)
  (same : Checked.SameSigned a b p q query other headerLines otherLines)

include same in
theorem Checked.SameSigned.segments :
    (segments a.path).map decode = (segments b.path).map decode := by
  rw [segments_decoded, same.uri, ← segments_decoded]

include same in
theorem filled_perm : (unreserved (filled query)).Perm (unreserved (filled other)) := by
  have kept := same.pairs.filter (· ≠ ([], []))
  rwa [unreserved, unreserved, filter_comm, filter_comm (l := other)] at kept

include left right same

/-- Which parameters are there, and how long the texts of those that may occur once are, is signed.
-/
theorem Classified.readings (h : Classified config a target access)
    (named : [61] ∉ (b.query.getD []).splitOn 38) :
    b.reading.has = a.reading.has ∧
      (∀ p, p.lastWins = false →
        (b.reading.value p).map length = (a.reading.value p).map length) ∧
      ∀ p, p.lastWins = false → (∀ v, a.reading.value p = some v → 32 ∉ v) →
        (∀ v, b.reading.value p = some v → 32 ∉ v) → b.reading.value p = a.reading.value p := by
  have blanked := formPairs_blanked left.parsed h.named
  have cases_ := value_cases blanked (formPairs_blanked right.parsed named) (filled_perm same)
  have once {p : Parameter} (strict : p.lastWins = false) {v v' : Bytes}
      (mem : v ∈ valuesOf (filled query) p) (mem' : v' ∈ valuesOf (filled query) p) : v = v' := by
    have few := ((tidy_blanked blanked).mpr h.tidy).once p strict
    match valuesOf (filled query) p, few, mem, mem' with
    | [_], _, mem, mem' => exact (mem_singleton.mp mem).trans (mem_singleton.mp mem').symm
  refine ⟨funext fun p => ?_, fun p strict => ?_, fun p strict clean clean' => ?_⟩ <;>
  rcases cases_ p with ⟨none_, none'⟩ | ⟨v, mem, v', mem', w, w', value, value', read, read'⟩
  · exact congrArg Option.isSome (none'.trans none_.symm)
  · exact (congrArg Option.isSome value').trans (congrArg Option.isSome value).symm
  · exact congrArg (Option.map length) (none'.trans none_.symm)
  · rw [show b.reading.value p = _ from value', show a.reading.value p = _ from value,
      Option.map_some, Option.map_some, read.length_eq, read'.length_eq, once strict mem mem']
  · exact none'.trans none_.symm
  · rw [show b.reading.value p = _ from value', show a.reading.value p = _ from value,
      read.eq (.inr (clean _ value)), read'.eq (.inr (clean' _ value')), once strict mem mem']

theorem Alike.of_classified (h : Classified config a target access)
    (h' : Classified config b target' access) : Alike config a b := by
  obtain ⟨present, -, unique⟩ := h.readings left right same h'.named
  obtain ⟨-, names⟩ := parseTarget_iff.mp h.parsed
  obtain ⟨formed', names'⟩ := parseTarget_iff.mp h'.parsed
  rw [← same.segments] at names'
  have targets : target = target' := by
    cases target
    cases target'
    cases (accessOf_ok h.asked).1.symm.trans (accessOf_ok h'.asked).1
    cases names.key.trans names'.key.symm
    rfl
  subst targets
  have key := names.named
  have asked' := h'.asked
  rw [← same.method] at asked'
  have listings (get : a.method = .get) (unnamed : namesKey config a.path = false) :=
    accessOf_listings (by simpa [unnamed] using key) present (get ▸ h.asked) (get ▸ asked')
  refine ⟨formed', h'.named, h'.url, fun get unnamed => (listings get unnamed).1,
    fun get unnamed => (listings get unnamed).2, fun named p number => ?_, fun put => ?_,
    fun hosted => ?_⟩
  · have strict : p.lastWins = false := by
      revert number
      cases p <;> decide
    have object : target.key ≠ none := by
      rw [named] at key
      exact isSome_iff_ne_none.mp key
    exact unique p strict (fun v => accessOf_numbers object h.asked number)
      fun v => accessOf_numbers object asked' number
  · have copied := (accessOf_ok h.asked).2 put
    have copied' := (accessOf_ok asked').2 put
    rw [put] at copied copied'
    exact (copyRequirements_iff copied).mp copied'
  · obtain ⟨_, given, shown⟩ := left.host
    obtain ⟨_, given', shown'⟩ := right.host
    rw [(hostBucket_ok given shown).mp (names.host hosted),
      (hostBucket_ok given' shown').mp (names'.host hosted)]

theorem Classified.of_alike (alike : Alike config a b) (h : Classified config a target access) :
    Classified config b target access := by
  have blanked := formPairs_blanked left.parsed h.named
  have blanked' := formPairs_blanked right.parsed alike.named
  obtain ⟨present, sizes, -⟩ := h.readings left right same alike.named
  obtain ⟨-, names⟩ := parseTarget_iff.mp h.parsed
  have key := names.named
  have unnamed (none_ : target.key = none) : namesKey config a.path = false := by
    rw [← key, none_]
    rfl
  refine ⟨?_, parseQuery_wellFormed right.parsed, ?_, alike.url, ?_⟩
  · refine parseTarget_iff.mpr ⟨alike.path, ?_⟩
    rw [← same.segments]
    refine { names with bucket := ?_ }
    split_ifs with style
    · simpa [style] using names.bucket
    · have hosted := Bool.eq_false_of_not_eq_true style
      obtain ⟨_, given, shown⟩ := left.host
      obtain ⟨_, given', shown'⟩ := right.host
      rw [hostBucket_ok given' shown', alike.host hosted]
      exact (hostBucket_ok given shown).mp (names.host hosted)
  · exact (tidy_blanked blanked').mp
      (tidy_perm (filled_perm same) ((tidy_blanked blanked).mpr h.tidy))
  · rw [← same.method]
    have agree : Agree a.method target.key a.reading b.reading :=
      ⟨rfl, present, sizes, fun get none_ => alike.version get (unnamed none_),
        fun get none_ => alike.listing get (unnamed none_), fun some_ =>
          alike.numbers (key.symm.trans (isSome_iff_ne_none.mpr some_))⟩
    refine accessOf_agree agree ?_ h.asked
    by_cases put : a.method = .put
    · have copied := (accessOf_ok h.asked).2 put
      rw [put] at copied ⊢
      rw [copied]
      exact (copyRequirements_iff copied).mpr (alike.copy put)
    · rw [copyRequirements, copyRequirements, if_neg put, if_neg put]

omit left right same in
theorem verified_prepared {readers : Readers} {crypto : Crypto} {auth : S3SigV4Authenticator}
    {now : Int} (h : verified readers crypto auth a now = some p) :
    prepare readers auth a now = some p := by
  obtain ⟨_, made, h⟩ := bind_some h
  obtain ⟨_, _, h⟩ := bind_some h
  cases h
  exact made

end Alike

/-- Of two accepted requests with one credential and one string to sign, the second asks for what
the first asks for exactly where the adapter reads it alike. -/
theorem access_fixed_by_signature (readers : Readers) (documented : readers.Documented)
    (crypto : Crypto) (auth : S3SigV4Authenticator) (config : S3AdapterConfig) {a b : Request}
    {now later : Int} {p q : Prepared} {access : GatewayAccess}
    (accepted : verified readers crypto auth a now = some p)
    (accepted' : verified readers crypto auth b later = some q)
    (credential : p.signed.scope = q.signed.scope)
    (text : stringToSign crypto p.signed p.canonical = stringToSign crypto q.signed q.canonical)
    (collision_free : crypto.sha256Hex p.canonical = crypto.sha256Hex q.canonical →
      p.canonical = q.canonical) (executed : classifyAccess readers config a = .ok access) :
    classifyAccess readers config b = .ok access ↔ Alike config a b := by
  obtain rfl := documented.eq
  obtain ⟨_, _, left⟩ := prepare_some (verified_prepared accepted)
  obtain ⟨_, _, right⟩ := prepare_some (verified_prepared accepted')
  simp only [stringToSign, credential, append_assoc, cons_append] at text
  have dated := (cons.inj (append_cancel_left text)).2
  have rest := (append_inj dated (left.dated.trans right.dated.symm)).2
  have canonical := collision_free (cons.inj (append_cancel_left (cons.inj rest).2)).2
  have same := Checked.same_of_canonical left right canonical
  obtain ⟨target, known⟩ := classify_iff.mp executed
  rw [classify_iff]
  constructor
  · rintro ⟨_, known'⟩
    exact .of_classified left right same known known'
  · exact fun alike => ⟨target, .of_alike left right same alike known⟩

section Sample

def sampleCrypto : Crypto := ⟨id, fun _ _ => List.replicate 32 0⟩

def sampleIdentity : S3ClientIdentity :=
  ⟨ascii "AK", ascii "secret", none, ⟨ascii "alice", ascii "account"⟩⟩

def sampleAuthenticator : S3SigV4Authenticator :=
  ⟨ascii "eu", 1000000000, fun key => if key = ascii "AK" then some sampleIdentity else none⟩

def sampleConfig : S3AdapterConfig := ⟨ascii "s3.local", true, 4096, 1024, .cache⟩

def sampleNow : Int := 1369353600 * 1000000000

def sampleHeaders : Headers :=
  [(ascii "host", ascii "gw"), (ascii "x-amz-date", ascii "20130524T000000Z"),
    (ascii "x-amz-content-sha256", unsignedPayload),
    (ascii "authorization",
      ascii "AWS4-HMAC-SHA256 Credential=AK/" ++ ascii "20130524/eu/s3/aws4_request," ++
        ascii "SignedHeaders=host;" ++ ascii "x-amz-content-sha256;x-amz-date," ++
        ascii "Signature=" ++ List.replicate 64 48)]

def sampleSigned : SignedRequest :=
  ⟨⟨ascii "AK", ascii "20130524", ascii "eu", ascii "s3"⟩, ascii "20130524T000000Z",
    [ascii "host", ascii "x-amz-content-sha256", ascii "x-amz-date"], List.replicate 32 0,
    unsignedPayload, false⟩

def samplePrepared (method uri query : String) : Prepared :=
  ⟨sampleIdentity, sampleSigned, Text.joined 10
    [ascii method, ascii uri, ascii query, ascii "host:gw",
      ascii "x-amz-content-sha256:" ++ unsignedPayload, ascii "x-amz-date:20130524T000000Z", [],
      ascii "host;x-amz-content-sha256;x-amz-date", unsignedPayload]⟩

def sampleListing (path query : String) : Request :=
  ⟨.get, ascii path, some (ascii query), sampleHeaders⟩

def samplePut (headers : Headers) : Request := ⟨.put, ascii "/b/k", none, sampleHeaders ++ headers⟩

/-- Two requests that no authenticator tells apart and that ask for different accesses. -/
structure Confused (a b : Request) : Prop where
  signed : ∀ crypto, verified .documented crypto sampleAuthenticator a sampleNow =
    verified .documented crypto sampleAuthenticator b sampleNow
  accepted : (verified .documented sampleCrypto sampleAuthenticator a sampleNow).isSome = true
  differs : (classifyAccess .documented sampleConfig a).toOption ≠
    (classifyAccess .documented sampleConfig b).toOption

theorem Confused.of_prepared {a b : Request} {p : Prepared}
    (left : prepare .documented sampleAuthenticator a sampleNow = some p)
    (right : prepare .documented sampleAuthenticator b sampleNow = some p)
    (verifies : verifySignature sampleCrypto p.identity.secretAccessKey p.signed.scope
      (stringToSign sampleCrypto p.signed p.canonical) p.signed.signature = some ())
    (differs : (classifyAccess .documented sampleConfig a).toOption ≠
      (classifyAccess .documented sampleConfig b).toOption) : Confused a b := by
  refine ⟨fun crypto => ?_, ?_, differs⟩
  · rw [verified, verified, left, right]
  · rw [verified, left]
    change (verifySignature _ _ _ _ _ >>= fun _ => some p).isSome = true
    rw [verifies]
    rfl

end Sample

theorem access_fixed_by_signature_respelled :
    Alike sampleConfig (sampleListing "/b" "list-type=2&prefix=x")
      (sampleListing "/%62" "prefix=%78&list-type=2") := by
  exact (access_fixed_by_signature .documented ⟨fun _ => rfl, fun _ => rfl, fun _ => rfl⟩
    sampleCrypto sampleAuthenticator sampleConfig
    (show verified _ _ _ _ sampleNow = some (samplePrepared "GET" "/b" "list-type=2&prefix=x") by
      decide +kernel)
    (show verified _ _ _ _ sampleNow = some (samplePrepared "GET" "/b" "list-type=2&prefix=x") by
      decide +kernel)
    rfl rfl (fun _ => rfl)
    (show classifyAccess _ _ _ = .ok ⟨.list, none, .inNamespace .s3 (ascii "b") (some (ascii "x")),
      []⟩ by decide +kernel)).mp (by decide +kernel)

/-- A copy source nobody signed, a plus sign, the order of two prefixes and a malformed escape. -/
theorem signature_leaves_access_open :
    Confused (samplePut []) (samplePut [(copySourceName, ascii "/other/secret")]) ∧
      Confused (sampleListing "/b" "prefix=a+b") (sampleListing "/b" "prefix=a%2Bb") ∧
      Confused (sampleListing "/b" "prefix=a&prefix=b") (sampleListing "/b" "prefix=b&prefix=a") ∧
      Confused (sampleListing "/b/%25z" "") (sampleListing "/b/%z" "") := by
  refine ⟨?_, ?_, ?_, ?_⟩
  · exact .of_prepared (p := samplePrepared "PUT" "/b/k" "") (by decide +kernel)
      (by decide +kernel) rfl (by decide +kernel)
  · exact .of_prepared (p := samplePrepared "GET" "/b" "prefix=a%2Bb") (by decide +kernel)
      (by decide +kernel) rfl (by decide +kernel)
  · exact .of_prepared (p := samplePrepared "GET" "/b" "prefix=a&prefix=b") (by decide +kernel)
      (by decide +kernel) rfl (by decide +kernel)
  · exact .of_prepared (p := samplePrepared "GET" "/b/%25z" "") (by decide +kernel)
      (by decide +kernel) rfl (by decide +kernel)

end Talon.Gateway
