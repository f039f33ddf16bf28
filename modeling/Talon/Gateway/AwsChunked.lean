import Talon.Gateway.S3Adapter

/-!
# The aws-chunked decoder

`Decoder::drive` reads size lines, payload and trailers from what is buffered, and `ChunkedStream`
fills the buffer from a source that may cut the body anywhere.  A running digest is the bytes fed to
it, and `checksum` gives its base64 text.
-/

set_option autoImplicit false

namespace Talon.Gateway.AwsChunked

open Wire (Bytes)
open List
open Text (ascii)

def maxChunkHeader : Nat := 1024

def maxTrailers : Nat := 64

def crlf : Bytes := [13, 10]

inductive ChunkDecodeError
  | malformed (reason : String)
  | lengthMismatch (declared decoded : Nat)
  | checksumMismatch
  | missingChecksum
  | source (reason : String)
  /-- The `expect` of `verify` fails; no error of the source. -/
  | panicked
deriving DecidableEq

abbrev Outcome := Except ChunkDecodeError Unit

def tooLong : ChunkDecodeError := .malformed "chunk header too long"

inductive Phase
  | header
  | data (remaining : Nat)
  | afterData
  | trailer
  | done
deriving DecidableEq

inductive Drive
  | emit (payload : Bytes)
  | needMore
  | done
  | err (error : ChunkDecodeError)
deriving DecidableEq

def Drive.Stops : Drive → Prop
  | .done | .err _ => True
  | .emit _ | .needMore => False

structure Decoder where
  buf : Bytes
  phase : Phase
  declared : Nat
  decoded : Nat
  trailerLines : Nat
  sourceDone : Bool
  algorithm : Option ChecksumAlgorithm
  digest : Option Bytes
  expectedChecksum : Option Bytes

def trailerKey : ChecksumAlgorithm → Bytes
  | .crc32 => ascii "x-amz-checksum-crc32"
  | .crc32c => ascii "x-amz-checksum-crc32c"
  | .crc64Nvme => ascii "x-amz-checksum-crc64nvme"
  | .sha256 => ascii "x-amz-checksum-sha256"

/-- `char::is_whitespace`, on the bytes of a scalar value. -/
def isWhitespace (c : Utf8.Chunk) : Bool :=
  match c.text with
  | [b] => Text.isSpace b
  | [0xC2, b] => b ∈ [0x85, 0xA0]
  | [0xE1, 0x9A, b] => b = 0x80
  | [0xE2, 0x80, b] => 0x80 ≤ b ∧ b ≤ 0x8A ∨ b ∈ [0xA8, 0xA9, 0xAF]
  | [0xE2, 0x81, b] => b = 0x9F
  | [0xE3, 0x80, b] => b = 0x80
  | _ => false

/-- `str::trim`. -/
def trim (text : Bytes) : Bytes :=
  ((((Utf8.chunks none text).dropWhile isWhitespace).reverse.dropWhile
    isWhitespace).reverse).flatMap
    Utf8.Chunk.text

def fromHexDigits (digits : Bytes) : Option Nat :=
  match digits, digits.mapM Percent.hexValue with
  | _ :: _, some values =>
    let value := values.foldl (fun n v => 16 * n + v.toNat) 0
    if value < 2 ^ 64 then some value else none
  | _, _ => none

/-- `u64::from_str_radix(_, 16)`. -/
def fromHex (text : Bytes) : Option Nat :=
  fromHexDigits (if text.head? = some 43 then text.tail else text)

def parseChunkSize (line : Bytes) : Except ChunkDecodeError Nat :=
  if Utf8.valid line then
    let hex := trim (line.takeWhile (· ≠ 59))
    if hex = [] then .error (.malformed "empty chunk size")
    else match fromHex hex with
      | some size => .ok size
      | none => .error (.malformed "chunk size is not hex")
  else .error (.malformed "non-utf8 chunk header")

/-- The position found is given as the bytes before it, with those after the line break. -/
def findCrlf : Bytes → Option (Bytes × Bytes)
  | [] => none
  | b :: rest =>
    if b = 13 ∧ rest.head? = some 10 then some ([], rest.tail)
    else match findCrlf rest with
      | none => none
      | some (line, after) => some (b :: line, after)

def takeLine (buf : Bytes) : Option (Except ChunkDecodeError (Bytes × Bytes)) :=
  match findCrlf buf with
  | some found => some (.ok found)
  | none => if buf.length > maxChunkHeader then some (.error tooLong) else none

def trailerValue (a : ChecksumAlgorithm) (line : Bytes) : Option Bytes :=
  if Utf8.valid line then
    match Text.cut 58 line with
    | some (name, value) =>
      if (trim name).map Text.toLower = trailerKey a then some (trim value) else none
    | none => none
  else none

namespace Decoder

def new (declared : Nat) (algorithm : Option ChecksumAlgorithm) : Decoder :=
  ⟨[], .header, declared, 0, 0, false, algorithm, algorithm.map fun _ => [], none⟩

def extend (d : Decoder) (bytes : Bytes) : Decoder := { d with buf := d.buf ++ bytes }

def finish (d : Decoder) : Decoder := { d with sourceDone := true }

def captureTrailer (d : Decoder) (line : Bytes) : Decoder :=
  { d with
    expectedChecksum := (d.algorithm.bind (trailerValue · line)).or d.expectedChecksum }

def needMoreOrTruncated (d : Decoder) : Drive :=
  if d.sourceDone then .err (.malformed "unexpected end of aws-chunked body") else .needMore

variable (checksum : ChecksumAlgorithm → Bytes → Bytes)

def verdict (d : Decoder) : Outcome :=
  if d.decoded ≠ d.declared then .error (.lengthMismatch d.declared d.decoded)
  else match d.algorithm, d.digest, d.expectedChecksum with
    | none, _, _ => .ok ()
    | some _, none, _ => .error .panicked
    | some a, some fed, some expected =>
      if expected = checksum a fed then .ok () else .error .checksumMismatch
    | some _, some _, none => .error .missingChecksum

/-- The digest and the expected value are taken once the lengths agree. -/
def verify (d : Decoder) : Outcome × Decoder :=
  (d.verdict checksum,
    if d.decoded = d.declared ∧ d.algorithm.isSome then
      { d with digest := none, expectedChecksum := none }
    else d)

def verified (d : Decoder) : Option Drive × Decoder :=
  match d.verify checksum with
  | (.ok _, d) => (some .done, { d with phase := .done })
  | (.error e, d) => (some (.err e), d)

def sizeLine (d : Decoder) (line : Bytes) : Option Drive × Decoder :=
  match parseChunkSize line with
  | .ok 0 => (none, { d with phase := .trailer })
  | .ok size =>
    if 2 ^ 64 ≤ d.decoded + size ∨ d.declared < d.decoded + size then
      (some (.err (.lengthMismatch d.declared (min (d.decoded + size) (2 ^ 64 - 1)))), d)
    else (none, { d with phase := .data size })
  | .error e => (some (.err e), d)

def trailerLine (d : Decoder) (line : Bytes) : Option Drive × Decoder :=
  if line = [] then d.verified checksum
  else
    let d := { d with trailerLines := d.trailerLines + 1 }
    if maxTrailers < d.trailerLines then (some (.err (.malformed "too many trailers")), d)
    else (none, d.captureTrailer line)

/-- The decoder after `take` of the `remaining` payload bytes. -/
def splitTo (d : Decoder) (remaining take : Nat) : Decoder :=
  { d with
    buf := d.buf.drop take
    decoded := d.decoded + take
    digest := d.digest.map (· ++ d.buf.take take)
    phase := if remaining - take = 0 then .afterData else .data (remaining - take) }

/-- One turn of the loop of `drive`; `none` goes round again. -/
def turn (d : Decoder) : Option Drive × Decoder :=
  match d.phase with
  | .done => (some .done, d)
  | .data remaining =>
    if d.buf = [] then (some d.needMoreOrTruncated, d)
    else
      let take := min remaining d.buf.length
      (some (.emit (d.buf.take take)), d.splitTo remaining take)
  | .afterData =>
    if d.buf.length < 2 then (some d.needMoreOrTruncated, d)
    else if d.buf.take 2 = crlf then (none, { d with buf := d.buf.drop 2, phase := .header })
    else (some (.err (.malformed "chunk data not CRLF-terminated")), { d with buf := d.buf.drop 2 })
  | .header =>
    match takeLine d.buf with
    | some (.ok (line, rest)) => { d with buf := rest }.sizeLine line
    | some (.error e) => (some (.err e), d)
    | none => (some d.needMoreOrTruncated, d)
  | .trailer =>
    match takeLine d.buf with
    | some (.ok (line, rest)) => { d with buf := rest }.trailerLine checksum line
    | some (.error e) => (some (.err e), d)
    | none => if d.sourceDone then d.verified checksum else (some d.needMoreOrTruncated, d)

end Decoder

section Lines

variable {buf : Bytes}

theorem findCrlf_none : findCrlf buf = none ↔ ¬crlf <:+: buf := by
  induction buf with
  | nil => simp [findCrlf, crlf]
  | cons b buf ih => cases buf <;> grind [findCrlf, crlf, infix_cons_iff]

theorem findCrlf_some {line rest : Bytes} :
    findCrlf buf = some (line, rest) ↔ buf = line ++ crlf ++ rest ∧ findCrlf line = none := by
  induction buf generalizing line with
  | nil => simp [findCrlf, crlf]
  | cons b buf =>
    cases line with
    | nil => cases buf <;> grind [findCrlf, crlf]
    | cons c line => cases line <;> grind [findCrlf, crlf]

theorem takeLine_ok {line rest : Bytes} :
    takeLine buf = some (.ok (line, rest)) ↔
      buf = line ++ crlf ++ rest ∧ findCrlf line = none := by
  rw [← findCrlf_some]
  cases found : findCrlf buf with
  | none =>
    simp only [takeLine, found]
    split <;> simp
  | some => simp [takeLine, found]

theorem findCrlf_straddle {rest line after : Bytes} (none_yet : findCrlf buf = none)
    (found : findCrlf (buf ++ rest) = some (line, after)) : buf.length ≤ line.length + 1 := by
  induction buf generalizing line with
  | nil => exact Nat.zero_le _
  | cons b buf => cases buf <;> grind [findCrlf]

theorem takeLine_error {e : ChunkDecodeError}
    (taken : takeLine buf = some (.error e)) (rest : Bytes) :
    e = tooLong ∧ (takeLine (buf ++ rest) = some (.error tooLong) ∨
      ∃ line tail, takeLine (buf ++ rest) = some (.ok (line, tail)) ∧
        maxChunkHeader ≤ line.length) := by
  cases absent : findCrlf buf with
  | some => simp [takeLine, absent] at taken
  | none =>
    simp only [takeLine, absent] at taken
    split at taken
    · cases taken
      refine ⟨rfl, ?_⟩
      cases found : findCrlf (buf ++ rest) with
      | none =>
        simp only [takeLine, found, length_append]
        exact .inl (if_pos (by omega))
      | some found' =>
        have read : takeLine (buf ++ rest) = some (.ok found') := by simp [takeLine, found]
        have late := findCrlf_straddle absent found
        exact .inr ⟨_, _, read, by omega⟩
    · cases taken

end Lines

namespace Decoder

variable (checksum : ChecksumAlgorithm → Bytes → Bytes) (d : Decoder)

/-- The decoder with the rest of the body buffered and its source ended. -/
def whole (rest : Bytes) : Decoder := { d with buf := d.buf ++ rest, sourceDone := true }

def inData : Nat :=
  match d.phase with
  | .data _ => 1
  | _ => 0

/-- Bounds the turns that the buffered bytes allow. -/
def weight : Nat := 2 * d.buf.length + d.inData

theorem weight_lt {d d' : Decoder} (shorter : d'.buf.length < d.buf.length) :
    d'.weight < d.weight := by
  have flag : d'.inData ≤ 1 := by
    unfold inData
    split <;> omega
  unfold weight
  omega

theorem verified_fst : (d.verified checksum).1 =
    some (match d.verdict checksum with | .ok _ => .done | .error e => .err e) := by
  unfold verified verify
  cases d.verdict checksum <;> rfl

theorem verified_done {d : Decoder} (verdict : d.verdict checksum = .ok ()) :
    (d.verified checksum).1 = some .done := by
  rw [verified_fst, verdict]

/-- The same answer, and the same decoder to go on with, up to the bytes not read yet. -/
def Follows (rest : Bytes) (x y : Option Drive × Decoder) : Prop :=
  y.1 = x.1 ∧ (x.1 = none → y.2 = x.2.whole rest)

theorem sizeLine_follows (rest line : Bytes) :
    Follows rest (d.sizeLine line) ((d.whole rest).sizeLine line) := by
  unfold sizeLine
  split
  · exact ⟨rfl, fun _ => rfl⟩
  · rw [show (d.whole rest).decoded = d.decoded from rfl,
      show (d.whole rest).declared = d.declared from rfl]
    split
    · exact ⟨rfl, nofun⟩
    · exact ⟨rfl, fun _ => rfl⟩
  · exact ⟨rfl, nofun⟩

theorem trailerLine_follows (rest line : Bytes) :
    Follows rest (d.trailerLine checksum line) ((d.whole rest).trailerLine checksum line) := by
  unfold trailerLine
  by_cases blank : line = []
  · rw [if_pos blank, if_pos blank]
    unfold Follows
    rw [verified_fst, verified_fst]
    exact ⟨rfl, nofun⟩
  · rw [if_neg blank, if_neg blank]
    dsimp only
    rw [show (d.whole rest).trailerLines = d.trailerLines from rfl]
    split
    · exact ⟨rfl, nofun⟩
    · exact ⟨rfl, fun _ => rfl⟩

/-- A turn that settles is taken alike with the whole body buffered, unless it refuses a line whose
end has not arrived. -/
theorem turn_follows (rest : Bytes) (unread : d.sourceDone = false)
    (settled : ∀ r, (d.turn checksum).1 = some r → r.Stops) :
    Follows rest (d.turn checksum) ((d.whole rest).turn checksum) ∨
    (d.turn checksum).1 = some (.err tooLong) ∧ (d.phase = .header ∨ d.phase = .trailer) ∧
      ∃ line tail, d.buf ++ rest = line ++ crlf ++ tail ∧ findCrlf line = none ∧
        maxChunkHeader ≤ line.length := by
  have waiting : d.needMoreOrTruncated = .needMore := by
    rw [needMoreOrTruncated, unread]
    rfl
  revert settled
  unfold turn
  rw [show (d.whole rest).phase = d.phase from rfl, show (d.whole rest).buf = d.buf ++
    rest from rfl]
  cases phase : d.phase with
  | done => exact fun _ => .inl ⟨rfl, nofun⟩
  | data =>
    intro settled
    dsimp only at settled
    split at settled
    · exact (waiting ▸ settled _ rfl).elim
    · exact (settled _ rfl).elim
  | afterData =>
    by_cases short : d.buf.length < 2
    · simp only [if_pos short, waiting]
      exact fun settled => (settled _ rfl).elim
    · have long : ¬(d.buf ++ rest).length < 2 := by
        rw [length_append]
        omega
      simp only [if_neg short, if_neg long]
      rw [take_append_of_le_length (by omega), drop_append_of_le_length (by omega)]
      split
      · exact fun _ => .inl ⟨rfl, fun _ => rfl⟩
      · exact fun _ => .inl ⟨rfl, nofun⟩
  | header | trailer =>
    cases taken : takeLine d.buf with
    | none =>
      simp only [waiting, unread]
      exact fun settled => (settled _ rfl).elim
    | some taken' =>
      intro _
      cases taken' with
      | error =>
        obtain ⟨rfl, refused | ⟨line, tail, found, long⟩⟩ := takeLine_error taken rest
        · simp only [refused]
          exact .inl ⟨rfl, nofun⟩
        · obtain ⟨split, free⟩ := takeLine_ok.mp found
          exact .inr ⟨rfl, by simp, line, tail, split, free, long⟩
      | ok read =>
        obtain ⟨line, tail⟩ := read
        obtain ⟨split, free⟩ := takeLine_ok.mp taken
        rw [show takeLine (d.buf ++ rest) = some (.ok (line, tail ++ rest)) from
          takeLine_ok.mpr ⟨by rw [split, append_assoc], free⟩]
        first
        | exact .inl (sizeLine_follows { d with buf := tail, phase := _ } rest line)
        | exact .inl (trailerLine_follows checksum { d with buf := tail, phase := _ } rest line)

inductive Turned : Option Drive × Decoder → Prop
  | ended {d'} (verdict : d.phase = .done ∨ d.phase = .trailer ∧ d.verdict checksum = .ok () ∧
      (crlf <+: d.buf ∨ d.sourceDone = true ∧ takeLine d.buf = none)) : Turned (some .done, d')
  | failed {e d'} (late : e = tooLong → takeLine d.buf = some (.error tooLong)) :
      Turned (some (.err e), d')
  | waits (unread : d.sourceDone = false) : Turned (some .needMore, d)
  | gives {remaining} (phase : d.phase = .data remaining) (some_left : d.buf ≠ []) :
      Turned (some (.emit (d.buf.take (min remaining d.buf.length))),
        d.splitTo remaining (min remaining d.buf.length))
  | ends {rest} (phase : d.phase = .afterData) (buffered : d.buf = crlf ++ rest) :
      Turned (none, { d with buf := rest, phase := .header })
  | zero {line rest} (phase : d.phase = .header) (free : findCrlf line = none)
      (buffered : d.buf = line ++ crlf ++ rest) (size : parseChunkSize line = .ok 0) :
      Turned (none, { d with buf := rest, phase := .trailer })
  | chunk {line rest n} (phase : d.phase = .header) (free : findCrlf line = none)
      (buffered : d.buf = line ++ crlf ++ rest) (size : parseChunkSize line = .ok n)
      (filled : n ≠ 0) (room : d.decoded + n < 2 ^ 64 ∧ d.decoded + n ≤ d.declared) :
      Turned (none, { d with buf := rest, phase := .data n })
  | trailer {line rest} (phase : d.phase = .trailer) (free : findCrlf line = none)
      (buffered : d.buf = line ++ crlf ++ rest) (filled : line ≠ [])
      (few : d.trailerLines < maxTrailers) : Turned (none,
        { d with buf := rest, trailerLines := d.trailerLines + 1 }.captureTrailer line)

section Turns

variable {checksum d}

theorem waiting_turned : d.Turned checksum (some d.needMoreOrTruncated, d) := by
  unfold needMoreOrTruncated
  cases h : d.sourceDone
  · exact .waits h
  · exact .failed (by simp [tooLong])

theorem verdict_ne_tooLong : d.verdict checksum ≠ .error tooLong := by
  unfold verdict tooLong
  split <;> [skip; split <;> [skip; skip; split; skip]] <;> simp

theorem parseChunkSize_ne_tooLong (line : Bytes) : parseChunkSize line ≠ .error tooLong := by
  simp only [parseChunkSize, tooLong]
  split_ifs <;> [skip; split; skip] <;> simp

theorem verified_turned (phase : d.phase = .trailer) (buf : Bytes)
    (closed : crlf <+: d.buf ∨ d.sourceDone = true ∧ takeLine d.buf = none) :
    d.Turned checksum ({ d with buf := buf }.verified checksum) := by
  unfold verified verify
  cases verdict : ({ d with buf := buf } : Decoder).verdict checksum with
  | ok => exact .ended (.inr ⟨phase, verdict, closed⟩)
  | error e =>
    refine .failed ?_
    rintro rfl
    exact absurd verdict verdict_ne_tooLong

/-- All that one turn of the loop can do. -/
theorem turned_turn : d.Turned checksum (d.turn checksum) := by
  unfold turn
  split
  · exact .ended (.inl ‹_›)
  · split
    · exact waiting_turned
    · exact .gives ‹_› ‹_›
  · split
    · exact waiting_turned
    split
    · rename_i ends
      exact .ends ‹_› (by rw [← ends, take_append_drop])
    · exact .failed (by simp [tooLong])
  · split
    · rename_i taken
      obtain ⟨buffered, free⟩ := takeLine_ok.mp taken
      unfold sizeLine
      split
      · exact .zero ‹_› free buffered ‹_›
      · rename_i filled _
        split
        · exact .failed nofun
        · rename_i room
          rw [not_or, not_le, not_lt] at room
          exact .chunk ‹_› free buffered ‹_› filled room
      · rename_i refused
        exact .failed fun late => absurd (late ▸ refused) (parseChunkSize_ne_tooLong _)
    · rename_i taken
      exact .failed fun late => late ▸ taken
    · exact waiting_turned
  · split
    · rename_i taken
      obtain ⟨buffered, free⟩ := takeLine_ok.mp taken
      unfold trailerLine
      split
      · rename_i blank
        exact verified_turned ‹_› _ (.inl ⟨_, by rw [buffered, blank, nil_append]⟩)
      · dsimp only
        split
        · exact .failed (by simp [tooLong])
        · exact .trailer ‹_› free buffered ‹_› (by omega)
    · rename_i taken
      exact .failed fun late => late ▸ taken
    · split
      · exact verified_turned ‹_› d.buf (.inr ⟨‹_›, ‹_›⟩)
      · exact waiting_turned

variable {d' : Decoder}

theorem again_lighter (turned : d.turn checksum = (none, d')) :
    d'.weight < d.weight ∧ d'.sourceDone = d.sourceDone := by
  cases turned ▸ turned_turn with
  | ends _ buffered | zero _ _ buffered | chunk _ _ buffered | trailer _ _ buffered =>
    refine ⟨weight_lt ?_, rfl⟩
    rw [buffered]
    simp [crlf, captureTrailer]
    try omega

theorem emit_lighter {b : Bytes} (turned : d.turn checksum = (some (.emit b), d')) :
    d'.weight < d.weight ∧ d'.sourceDone = d.sourceDone := by
  cases turned ▸ turned_turn with
  | @gives remaining phase some_left =>
    refine ⟨?_, rfl⟩
    cases remaining with
    | zero => simp [weight, inData, splitTo, phase]
    | succ =>
      refine weight_lt ?_
      have := length_pos_iff.mpr some_left
      rw [splitTo, length_drop]
      omega

theorem waits_unread (turned : d.turn checksum = (some .needMore, d')) :
    d' = d ∧ d.sourceDone = false := by
  cases turned ▸ turned_turn with
  | waits unread => exact ⟨rfl, unread⟩

end Turns

end Decoder

structure ChunkedStream where
  source : List (Except String Bytes)
  decoder : Decoder
  finished : Bool

def decodeAwsChunked (source : List (Except String Bytes)) (declared : Nat)
    (algorithm : Option ChecksumAlgorithm) : ChunkedStream :=
  ⟨source, Decoder.new declared algorithm, false⟩

variable (checksum : ChecksumAlgorithm → Bytes → Bytes)

abbrev Polled := Option (Except ChunkDecodeError Bytes) × ChunkedStream

/-- The loop of `poll_next` with that of `drive` in it: `source` is what the source still yields. -/
def poll (d : Decoder) (source : List (Except String Bytes)) : Polled :=
  match _turned : d.turn checksum with
  | (none, d') => poll d' source
  | (some (.emit bytes), d') => (some (.ok bytes), ⟨source, d', false⟩)
  | (some .done, d') => (none, ⟨source, d', true⟩)
  | (some (.err e), d') => (some (.error e), ⟨source, d', true⟩)
  | (some .needMore, _) =>
    match source with
    | .ok chunk :: rest => poll (d.extend chunk) rest
    | .error e :: rest => (some (.error (.source e)), ⟨rest, d, true⟩)
    | [] => poll d.finish []
termination_by (source.length, (!d.sourceDone).toNat, d.weight)
decreasing_by
  · obtain ⟨lighter, same⟩ := Decoder.again_lighter _turned
    rw [same]
    exact .right _ (.right _ lighter)
  · exact .left _ _ (Nat.lt_succ_self _)
  · rw [(Decoder.waits_unread _turned).2]
    exact .right _ (.left _ _ Nat.zero_lt_one)

def ChunkedStream.pollNext (s : ChunkedStream) : Polled :=
  if s.finished then (none, s) else poll checksum s.decoder s.source

/-- Polling to the end gives the payload and the outcome. -/
inductive Yields : ChunkedStream → Bytes → Outcome → Prop
  | ended {s s'} (polled : s.pollNext checksum = (none, s')) : Yields s [] (.ok ())
  | failed {s s' e} (polled : s.pollNext checksum = (some (.error e), s')) : Yields s [] (.error e)
  | item {s s' bytes payload outcome} (polled : s.pollNext checksum = (some (.ok bytes), s'))
      (rest : Yields s' payload outcome) : Yields s (bytes ++ payload) outcome

end Talon.Gateway.AwsChunked
