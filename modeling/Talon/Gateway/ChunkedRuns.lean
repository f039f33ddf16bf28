import Talon.Gateway.ChunkedGrammar

/-!
# Decoding an aws-chunked body to its end

The run of a decoder over the pieces of a body is its run over the whole of it exactly when no line
is as long as the limit, or it makes no difference that one is, and what a run accepts is what the
grammar frames.
-/

set_option autoImplicit false

namespace Talon.Gateway.AwsChunked

open Wire (Bytes)
open Decoder List

variable (checksum : ChecksumAlgorithm → Bytes → Bytes)

structure Result where
  payload : Bytes
  outcome : Outcome

def Result.addPayload (r : Result) (b : Bytes) : Result := { r with payload := b ++ r.payload }

/-- The turns of a stream to its end, with the chunks its source still has. -/
def run (d : Decoder) (chunks : List Bytes) : Result :=
  match _turned : d.turn checksum with
  | (none, d') => run d' chunks
  | (some (.emit b), d') => (run d' chunks).addPayload b
  | (some .needMore, _) =>
    match chunks with
    | chunk :: chunks => run (d.extend chunk) chunks
    | [] => run d.finish []
  | (some .done, _) => ⟨[], .ok ()⟩
  | (some (.err e), _) => ⟨[], .error e⟩
termination_by (chunks.length, (!d.sourceDone).toNat, d.weight)
decreasing_by
  · obtain ⟨lighter, same⟩ := Decoder.again_lighter _turned
    rw [same]
    exact .right _ (.right _ lighter)
  · obtain ⟨lighter, same⟩ := Decoder.emit_lighter _turned
    rw [same]
    exact .right _ (.right _ lighter)
  · exact .left _ _ (Nat.lt_succ_self _)
  · rw [(Decoder.waits_unread _turned).2]
    exact .right _ (.left _ _ Nat.zero_lt_one)

section Runs

variable {checksum} {d d' : Decoder} {chunks : List Bytes} {r : Drive}

theorem run_again (turned : d.turn checksum = (none, d')) :
    run checksum d chunks = run checksum d' chunks := by
  rw [run.eq_def]
  split <;> simp_all

theorem run_emit {b : Bytes} (turned : d.turn checksum = (some (.emit b), d')) :
    run checksum d chunks = (run checksum d' chunks).addPayload b := by
  rw [run.eq_def]
  split <;> simp_all

theorem run_done (turned : (d.turn checksum).1 = some .done) :
    run checksum d chunks = ⟨[], .ok ()⟩ := by
  rw [run.eq_def]
  split <;> simp_all

theorem run_err {e : ChunkDecodeError} (turned : (d.turn checksum).1 = some (.err e)) :
    run checksum d chunks = ⟨[], .error e⟩ := by
  rw [run.eq_def]
  split <;> simp_all

theorem run_read {chunk : Bytes} (turned : d.turn checksum = (some .needMore, d)) :
    run checksum d (chunk :: chunks) = run checksum (d.extend chunk) chunks := by
  rw [run.eq_def]
  split <;> simp_all

theorem run_last (turned : d.turn checksum = (some .needMore, d)) :
    run checksum d [] = run checksum d.finish [] := by
  rw [run.eq_def]
  split <;> simp_all

theorem addPayload_append (r : Result) (b c : Bytes) :
    r.addPayload (b ++ c) = (r.addPayload c).addPayload b := by
  simp [Result.addPayload]

end Runs

section Polls

variable {checksum} {d : Decoder}

variable {p : Bytes} {o : Outcome}

theorem Yields.of_poll {s s' : ChunkedStream} (yields : Yields checksum s' p o)
    (same : s.pollNext checksum = s'.pollNext checksum) : Yields checksum s p o := by
  cases yields with
  | ended polled => exact .ended (same.trans polled)
  | failed polled => exact .failed (same.trans polled)
  | item polled rest => exact .item (same.trans polled) rest

theorem pollNext_open (d : Decoder) (source : List (Except String Bytes)) :
    ChunkedStream.pollNext checksum ⟨source, d, false⟩ =
      match d.turn checksum, source with
      | (none, d'), _ => ChunkedStream.pollNext checksum ⟨source, d', false⟩
      | (some (.emit bytes), d'), _ => (some (.ok bytes), ⟨source, d', false⟩)
      | (some .done, d'), _ => (none, ⟨source, d', true⟩)
      | (some (.err e), d'), _ => (some (.error e), ⟨source, d', true⟩)
      | (some .needMore, _), .ok chunk :: rest =>
        ChunkedStream.pollNext checksum ⟨rest, d.extend chunk, false⟩
      | (some .needMore, _), .error e :: rest => (some (.error (.source e)), ⟨rest, d, true⟩)
      | (some .needMore, _), [] => ChunkedStream.pollNext checksum ⟨[], d.finish, false⟩ := by
  show poll checksum d source = _
  rw [poll.eq_def]
  split <;> simp only [*] <;> first | rfl | split <;> rfl

/-- The stream over the chunks yields the payload and the outcome of the run. -/
theorem yields_run (d : Decoder) (chunks : List Bytes) :
    Yields checksum ⟨chunks.map .ok, d, false⟩ (run checksum d chunks).payload
      (run checksum d chunks).outcome := by
  fun_induction run checksum d chunks with
  | case1 d _ _ turned ih => exact ih.of_poll (by rw [pollNext_open, turned])
  | case2 d _ b _ turned ih => exact .item (by rw [pollNext_open, turned]) ih
  | case3 d _ turned _ _ ih =>
    exact ih.of_poll (by rw [map_cons, pollNext_open, turned])
  | case4 d _ turned ih => exact ih.of_poll (by rw [map_nil, pollNext_open, turned])
  | case5 d _ _ turned => exact .ended (by rw [pollNext_open, turned])
  | case6 d _ e _ turned => exact .failed (by rw [pollNext_open, turned])

theorem Yields.unique {s : ChunkedStream} {p' : Bytes} {o' : Outcome}
    (yields : Yields checksum s p o) (others : Yields checksum s p' o') : p' = p ∧ o' = o := by
  induction yields generalizing p' with
  | ended => cases others <;> simp_all
  | failed => cases others <;> simp_all
  | item polled _ ih =>
    cases others with
    | ended polled' | failed polled' => simp_all
    | item polled' rest =>
      rw [polled] at polled'
      cases polled'
      obtain ⟨rfl, rfl⟩ := ih rest
      exact ⟨rfl, rfl⟩

theorem yields_iff {chunks : List Bytes} :
    Yields checksum ⟨chunks.map .ok, d, false⟩ p o ↔
      p = (run checksum d chunks).payload ∧ o = (run checksum d chunks).outcome := by
  constructor
  · exact (yields_run d chunks).unique
  · rintro ⟨rfl, rfl⟩
    exact yields_run d chunks

end Polls

section Lines

variable {d : Decoder} {line tail : Bytes}

theorem turn_header (phase : d.phase = .header) (free : ¬crlf <:+: line)
    (buffered : d.buf = line ++ crlf ++ tail) :
    d.turn checksum = { d with buf := tail }.sizeLine line := by
  have taken := takeLine_ok.mpr ⟨buffered, findCrlf_none.mpr free⟩
  simp [Decoder.turn, phase, taken]

theorem turn_zero (phase : d.phase = .header) (free : ¬crlf <:+: line)
    (buffered : d.buf = line ++ crlf ++ tail) (size : SizeLine line 0) :
    d.turn checksum = (none, { d with buf := tail, phase := .trailer }) := by
  rw [turn_header checksum phase free buffered, sizeLine, parseChunkSize_ok.mpr size]
  rfl

theorem turn_trailer (phase : d.phase = .trailer) (free : ¬crlf <:+: line)
    (buffered : d.buf = line ++ crlf ++ tail) :
    d.turn checksum = { d with buf := tail }.trailerLine checksum line := by
  have taken := takeLine_ok.mpr ⟨buffered, findCrlf_none.mpr free⟩
  simp [Decoder.turn, phase, taken]

/-- A line without an end is refused once it is past the limit. -/
theorem turn_unended (phase : d.phase = .header ∨ d.phase = .trailer) (free : ¬crlf <:+: d.buf)
    (long : maxChunkHeader < d.buf.length) : (d.turn checksum).1 = some (.err tooLong) := by
  have taken : takeLine d.buf = some (.error tooLong) := by
    rw [takeLine, findCrlf_none.mpr free]
    exact if_pos long
  rcases phase with phase | phase <;> simp [Decoder.turn, phase, taken]

theorem turn_data {remaining : Nat} (phase : d.phase = .data remaining) (some_left : d.buf ≠ []) :
    d.turn checksum = (some (.emit (d.buf.take (min remaining d.buf.length))),
      d.splitTo remaining (min remaining d.buf.length)) := by
  unfold turn
  rw [phase]
  exact if_neg some_left

end Lines

section Pieces

variable {checksum} {d : Decoder}

theorem take_across {k : Nat} (buffered : k ≤ d.buf.length) (rest : Bytes) (j : Nat) :
    (d.buf ++ rest).take (k + j) = d.buf.take k ++ (d.buf.drop k ++ rest).take j := by
  rw [take_add, take_append_of_le_length buffered,
    drop_append_of_le_length buffered]

theorem splitTo_splitTo {k : Nat} (buffered : k ≤ d.buf.length) (rest : Bytes)
    (remaining j : Nat) : ((d.splitTo remaining k).extend rest).splitTo (remaining - k) j =
      (d.extend rest).splitTo remaining (k + j) := by
  have after : (d.buf.drop k ++ rest).drop j = (d.buf ++ rest).drop (k + j) := by
    rw [← drop_drop, drop_append_of_le_length buffered]
  simp only [splitTo, extend, take_across buffered, after, Option.map_map,
    Nat.sub_sub, Nat.add_assoc]
  congr 1
  cases d.digest <;> simp

theorem splitTo_zero (remaining k : Nat) (rest : Bytes) :
    ((d.splitTo remaining k).extend rest).splitTo (remaining - k) 0 =
      (d.splitTo remaining k).extend rest := by
  simp [splitTo, extend]
  cases d.digest <;> simp

variable (checksum) in
/-- Payload bytes that arrive later are yielded apart, which makes no difference to a run. -/
theorem run_split {remaining : Nat} (phase : d.phase = .data remaining) (some_left : d.buf ≠ [])
    (rest : Bytes) (chunks : List Bytes) :
    run checksum (d.extend rest) chunks =
      (run checksum ((d.splitTo remaining (min remaining d.buf.length)).extend rest)
        chunks).addPayload (d.buf.take (min remaining d.buf.length)) := by
  have buffered : min remaining d.buf.length ≤ d.buf.length := Nat.min_le_right ..
  have total : min remaining (d.extend rest).buf.length = min remaining d.buf.length +
      min (remaining - min remaining d.buf.length)
        (d.buf.drop (min remaining d.buf.length) ++ rest).length := by
    simp only [extend, length_append, length_drop]
    omega
  rw [run_emit (turn_data checksum (d := d.extend rest) phase (by simp [extend, some_left])), total,
    ← splitTo_splitTo buffered, show (d.extend rest).buf = d.buf ++ rest from rfl,
    take_across buffered]
  generalize min remaining d.buf.length = k at *
  by_cases more : remaining - k ≠ 0 ∧ d.buf.drop k ++ rest ≠ []
  · rw [run_emit (turn_data checksum (d := (d.splitTo remaining k).extend rest) (if_neg more.1)
      more.2), addPayload_append]
    rfl
  · have nothing : min (remaining - k) (d.buf.drop k ++ rest).length = 0 := by
      rw [not_and_or, not_not, not_not] at more
      rcases more with none_left | empty
      · rw [none_left, Nat.zero_min]
      · rw [empty, length_nil, Nat.min_zero]
    rw [nothing, splitTo_zero, take_zero, append_nil]

end Pieces

/-- The decoder at a point of a body. -/
def reached (declared : Nat) (algorithm : Option ChecksumAlgorithm) (sourceDone : Bool)
    (phase : Phase) (payload : Bytes) (trailers : List Bytes) (buf : Bytes) : Decoder :=
  ⟨buf, phase, declared, payload.length, trailers.length, sourceDone, algorithm,
    algorithm.map fun _ => payload, algorithm.bind (lastValue · trailers)⟩

/-- The decoder is at the point of the body where the payload has been yielded and what is buffered
and to come is left. -/
def Placed (declared : Nat) (algorithm : Option ChecksumAlgorithm) (input : Bytes) (d : Decoder)
    (rest payload : Bytes) : Prop :=
  ∃ trailers, d = reached declared algorithm d.sourceDone d.phase payload trailers d.buf ∧
    Framing declared input d.phase payload trailers (d.buf ++ rest)

section Framings

variable {checksum} {declared : Nat} {algorithm : Option ChecksumAlgorithm} {sourceDone : Bool}
  {input payload rest : Bytes} {phase : Phase} {trailers : List Bytes}

theorem new_reached (buf : Bytes) :
    (new declared algorithm).extend buf = reached declared algorithm false .header [] [] buf := by
  cases algorithm <;> rfl

theorem captureTrailer_reached (line buf : Bytes) :
    ({ reached declared algorithm sourceDone phase payload trailers buf with
      trailerLines := trailers.length + 1 } : Decoder).captureTrailer line =
        reached declared algorithm sourceDone phase payload (trailers ++ [line]) buf := by
  simp only [captureTrailer, reached, length_append, length_singleton]
  congr 1
  cases algorithm with
  | none => rfl
  | some a =>
    simp only [Option.bind_some, lastValue, filterMap_append, filterMap_cons, filterMap_nil]
    cases trailerValue a line <;> simp

theorem splitTo_reached (data rest : Bytes) (n : Nat) :
    ((reached declared algorithm sourceDone (.data (n + data.length)) payload trailers
      data).splitTo (n + data.length) data.length).extend rest =
      reached declared algorithm sourceDone (if n = 0 then .afterData else .data n)
        (payload ++ data) trailers rest := by
  simp [splitTo, extend, reached]
  cases algorithm <;> rfl

/-- A run goes through every point that the grammar reaches. -/
theorem Framing.run_eq (framing : Framing declared input phase payload trailers rest)
    (algorithm : Option ChecksumAlgorithm) (sourceDone : Bool) (chunks : List Bytes) :
    run checksum (reached declared algorithm sourceDone .header [] [] input) chunks =
      (run checksum (reached declared algorithm sourceDone phase payload trailers rest)
        chunks).addPayload payload := by
  induction framing with
  | start => rfl
  | @chunk payload trailers line n rest _ free size filled room ih =>
    rw [ih, run_again]
    rw [turn_header checksum rfl free rfl, sizeLine, parseChunkSize_ok.mpr size]
    cases n with
    | zero => exact absurd rfl filled
    | succ n =>
      refine if_neg ?_
      rw [not_or, not_le, not_lt]
      exact room
  | @data payload trailers data n rest _ filled ih =>
    have taken : min (n + data.length) data.length = data.length := Nat.min_eq_right (by omega)
    have split := run_split checksum (d := reached declared algorithm sourceDone
      (.data (n + data.length)) payload trailers data) rfl filled rest chunks
    rw [show (reached declared algorithm sourceDone (.data (n + data.length)) payload trailers
      data).buf = data from rfl, taken, take_length, splitTo_reached] at split
    rw [ih, addPayload_append]
    exact congrArg (·.addPayload payload) split
  | next _ ih =>
    rw [ih, run_again]
    simp [turn, reached, crlf]
  | @zero payload trailers line rest _ free size ih =>
    rw [ih, run_again (turn_zero checksum rfl free rfl size)]
    rfl
  | @trailer payload trailers line rest _ free filled few ih =>
    rw [ih, run_again]
    rw [turn_trailer checksum rfl free rfl, trailerLine, if_neg filled]
    refine (if_neg (Nat.not_lt.mpr few)).trans ?_
    rw [← captureTrailer_reached line rest]
    rfl

end Framings

section Points

variable {checksum} {declared : Nat} {algorithm : Option ChecksumAlgorithm} {d d' : Decoder}
  {input payload rest : Bytes} {chunks : List Bytes}

namespace Placed

theorem again (placed : Placed declared algorithm input d rest payload)
    (turned : d.turn checksum = (none, d')) : Placed declared algorithm input d' rest payload := by
  obtain ⟨trailers, point, framing⟩ := placed
  have left {x left : Bytes} (buffered : d.buf = x ++ left) :
      d.buf ++ rest = x ++ (left ++ rest) := by
    rw [buffered, append_assoc]
  cases turned ▸ turned_turn with
  | ends phase buffered =>
    rw [phase, left buffered] at framing
    exact ⟨trailers, by rw [point]; rfl, framing.next⟩
  | zero phase free buffered size =>
    rw [phase, left buffered] at framing
    exact ⟨trailers, by rw [point]; rfl,
      framing.zero (findCrlf_none.mp free) (parseChunkSize_ok.mp size)⟩
  | chunk phase free buffered size filled room =>
    rw [phase, left buffered] at framing
    rw [point] at room
    exact ⟨trailers, by rw [point]; rfl,
      framing.chunk (findCrlf_none.mp free) (parseChunkSize_ok.mp size) filled room⟩
  | @trailer line tail phase free buffered filled few =>
    rw [phase, left buffered] at framing
    rw [point] at few
    refine ⟨trailers ++ [line], ?_, ?_⟩
    · rw [point]
      exact captureTrailer_reached line tail
    · exact phase ▸ framing.trailer (findCrlf_none.mp free) filled few

theorem emit {b : Bytes} (placed : Placed declared algorithm input d rest payload)
    (turned : d.turn checksum = (some (.emit b), d')) :
    Placed declared algorithm input d' rest (payload ++ b) := by
  obtain ⟨trailers, point, framing⟩ := placed
  cases turned ▸ turned_turn with
  | @gives remaining phase some_left =>
    rw [phase] at framing
    have positive := framing.live.2
    have taken : (d.buf.take (min remaining d.buf.length)).length = min remaining d.buf.length := by
      simp
    refine ⟨trailers, ?_, ?_⟩
    · rw [point]
      simp [splitTo, reached]
      cases algorithm <;> rfl
    · refine .data ?_ ?_
      · rw [← append_assoc, taken, Nat.sub_add_cancel (Nat.min_le_left ..)]
        simpa [splitTo] using framing
      · have := length_pos_iff.mpr some_left
        rw [ne_eq, ← length_eq_zero_iff, taken]
        intro none
        obtain rfl : remaining = 0 := by omega
        exact positive rfl

theorem extend {chunk : Bytes}
    (placed : Placed declared algorithm input d (chunk :: chunks).flatten payload) :
    Placed declared algorithm input (d.extend chunk) chunks.flatten payload := by
  obtain ⟨trailers, point, framing⟩ := placed
  refine ⟨trailers, by rw [point]; rfl, ?_⟩
  simpa [Decoder.extend] using framing

theorem finish (placed : Placed declared algorithm input d rest payload) :
    Placed declared algorithm input d.finish rest payload := by
  obtain ⟨trailers, point, framing⟩ := placed
  exact ⟨trailers, by rw [point]; rfl, framing⟩

end Placed

theorem run_trailer_payload (phase : d.phase = .trailer) :
    (run checksum d chunks).payload = [] := by
  fun_induction run checksum d chunks with
  | case1 _ _ _ turned ih =>
    refine ih ?_
    cases turned ▸ turned_turn <;> simp_all [captureTrailer]
  | case2 _ _ _ _ turned =>
    cases turned ▸ turned_turn
    simp_all
  | case3 _ _ _ _ _ ih => exact ih phase
  | case4 _ _ _ ih => exact ih phase
  | case5 => rfl
  | case6 => rfl

/-- A run within the trailers that ends at a line past the limit has read the whole body. -/
theorem Placed.overruns (placed : Placed declared algorithm input d [] payload)
    (last : chunks = []) (phase : d.phase = .trailer)
    (refused : (run checksum d chunks).outcome = .error tooLong) : Overruns declared input := by
  fun_induction run checksum d chunks with
  | case1 d _ d' turned ih =>
    have phase' : d'.phase = .trailer := by
      cases turned ▸ turned_turn <;> simp_all [captureTrailer]
    exact ih (placed.again turned) last phase' refused
  | case2 _ _ _ _ turned =>
    cases turned ▸ turned_turn
    simp_all
  | case3 => cases last
  | case4 _ _ _ ih => exact ih placed.finish rfl phase refused
  | case5 => cases refused
  | case6 d _ _ _ turned =>
    cases refused
    obtain ⟨trailers, -, framing⟩ := placed
    rw [phase, append_nil] at framing
    cases turned ▸ turned_turn with
    | failed late =>
      have taken := late rfl
      unfold takeLine at taken
      split at taken
      · cases taken
      · rename_i free
        split at taken
        · exact ⟨payload, trailers, d.buf, framing, findCrlf_none.mp free, ‹_›⟩
        · cases taken

/-- In a body that overruns, the rest of a run after the payload yields nothing and is refused. -/
theorem Placed.refused (placed : Placed declared algorithm input d rest payload)
    (overruns : Overruns declared input) (silent : (run checksum (d.whole rest) []).payload = []) :
    run checksum (d.whole rest) [] = ⟨[], .error tooLong⟩ := by
  obtain ⟨trailers, point, framing⟩ := placed
  obtain ⟨all, others, tail, overrun, free, long⟩ := overruns
  have ends : (run checksum (d.whole rest) []).addPayload payload =
      ⟨all ++ [], .error tooLong⟩ := by
    rw [show d.whole rest = reached declared algorithm true d.phase payload trailers
      (d.buf ++ rest) by rw [point]; rfl, ← framing.run_eq, overrun.run_eq,
      run_err (turn_unended checksum (.inr rfl) free long)]
    rfl
  have outcome : (run checksum (d.whole rest) []).outcome = .error tooLong :=
    congrArg Result.outcome ends
  rw [← silent, ← outcome]

/-- A run over the pieces of a steady body is the run over the whole of it. -/
theorem run_whole (steady : Steady declared input) (unread : d.sourceDone = false)
    (placed : Placed declared algorithm input d chunks.flatten payload) :
    run checksum d chunks = run checksum (d.whole chunks.flatten) [] := by
  fun_induction run checksum d chunks generalizing payload with
  | case1 d chunks d' turned ih =>
    obtain ⟨-, unread'⟩ := again_lighter turned
    rcases d.turn_follows checksum chunks.flatten unread (by simp [turned]) with
      ⟨same, onward⟩ | ⟨refused, -⟩
    · rw [turned] at same onward
      have turnedWhole : (d.whole chunks.flatten).turn checksum =
        (none, d'.whole chunks.flatten) := Prod.ext same (onward rfl)
      rw [run_again turnedWhole]
      exact ih (unread'.trans unread) (placed.again turned)
    · simp [turned] at refused
  | case2 d chunks b d' turned ih =>
    obtain ⟨-, unread'⟩ := emit_lighter turned
    have onward := ih (unread'.trans unread) (placed.emit turned)
    cases turned ▸ turned_turn with
    | gives phase some_left =>
      rw [onward]
      exact (run_split checksum (d := d.finish) phase some_left chunks.flatten []).symm
  | case3 d _ _ chunk chunks ih =>
    have extended : d.whole (chunk :: chunks).flatten = (d.extend chunk).whole chunks.flatten := by
      simp [whole, extend]
    rw [extended]
    exact ih unread placed.extend
  | case4 =>
    rw [whole, flatten_nil, append_nil]
    rfl
  | case5 d chunks _ turned =>
    rcases d.turn_follows checksum chunks.flatten unread (by simp [turned, Drive.Stops]) with
      ⟨same, -⟩ | ⟨refused, -⟩
    · rw [run_done (same.trans (congrArg Prod.fst turned))]
    · simp [turned] at refused
  | case6 d chunks e _ turned =>
    rcases d.turn_follows checksum chunks.flatten unread (by simp [turned, Drive.Stops]) with
      ⟨same, -⟩ | ⟨refused, phase, line, tail, split, free, long⟩
    · rw [run_err (same.trans (congrArg Prod.fst turned))]
    · rw [turned] at refused
      cases refused
      have free := findCrlf_none.mp free
      have long : LongLine declared input d.phase line := by
        obtain ⟨trailers, -, framing⟩ := placed
        exact ⟨phase, free, long, payload, trailers, tail, split ▸ framing⟩
      obtain ⟨overruns, zero⟩ := steady _ _ long
      refine (placed.refused overruns ?_).symm
      rcases phase with phase | phase
      · rw [run_again (turn_zero checksum (d := d.whole chunks.flatten) phase free split
          (zero phase))]
        exact run_trailer_payload rfl
      · exact run_trailer_payload phase

end Points

section Refusals

variable {checksum} {declared : Nat} {algorithm : Option ChecksumAlgorithm} {d : Decoder}
  {input line tail : Bytes}

/-- Within a chunk a run yields some of the payload or finds that it is missing. -/
theorem run_data_not_refused {n : Nat} (phase : d.phase = .data n) (filled : n ≠ 0) :
    run checksum d [] ≠ ⟨[], .error tooLong⟩ := by
  intro refused
  by_cases empty : d.buf = []
  · have truncated : run checksum d.finish [] =
        ⟨[], .error (.malformed "unexpected end of aws-chunked body")⟩ := by
      refine run_err ?_
      simp [turn, Decoder.finish, phase, empty, needMoreOrTruncated]
    have same : run checksum d [] = run checksum d.finish [] := by
      cases unread : d.sourceDone with
      | false => exact run_last (by simp [turn, phase, empty, needMoreOrTruncated, unread])
      | true => rw [Decoder.finish, ← unread]
    rw [same, truncated] at refused
    simp [tooLong] at refused
  · rw [run_emit (turn_data checksum phase empty)] at refused
    have nothing := (append_eq_nil_iff.mp (congrArg Result.payload refused)).1
    simp [filled, empty] at nothing

theorem zero_of_refused (phase : d.phase = .header) (free : ¬crlf <:+: line)
    (buffered : d.buf = line ++ crlf ++ tail)
    (refused : run checksum d [] = ⟨[], .error tooLong⟩) : SizeLine line 0 := by
  have turned := turn_header checksum phase free buffered
  unfold sizeLine at turned
  split at turned
  · exact parseChunkSize_ok.mp ‹_›
  · rename_i filled _
    split at turned
    · rw [run_err (congrArg Prod.fst turned)] at refused
      simp [tooLong] at refused
    · rw [run_again turned] at refused
      exact absurd refused (run_data_not_refused rfl filled)
  · rename_i parsed
    rw [run_err (congrArg Prod.fst turned), Result.mk.injEq, Except.error.injEq] at refused
    exact absurd (refused.2 ▸ parsed) (parseChunkSize_ne_tooLong line)

theorem Placed.steady_at {payload : Bytes} (placed : Placed declared algorithm input d [] payload)
    (phase : d.phase = .header ∨ d.phase = .trailer) (free : ¬crlf <:+: line)
    (buffered : d.buf = line ++ crlf ++ tail) (refused : run checksum d [] = ⟨[], .error tooLong⟩) :
    Overruns declared input ∧ (d.phase = .header → SizeLine line 0) := by
  rcases phase with phase | phase
  · have zero := zero_of_refused phase free buffered refused
    have turned := turn_zero checksum phase free buffered zero
    rw [run_again turned] at refused
    exact ⟨(placed.again turned).overruns rfl rfl (congrArg Result.outcome refused), fun _ => zero⟩
  · refine ⟨placed.overruns rfl phase (congrArg Result.outcome refused), ?_⟩
    rw [phase]
    exact nofun

theorem free_return (free : ¬crlf <:+: line) : ¬crlf <:+: line ++ [13] := by
  rw [infix_concat_iff, suffix_concat_iff]
  rintro ((empty | ⟨front, same, -⟩) | inside)
  · cases empty
  · have last := congrArg getLast? same
    simp [crlf] at last
  · exact free inside

end Refusals

/-- What may follow the last trailer: the blank line, or the end of the source. -/
def Closes (tail : Bytes) : Prop :=
  crlf <+: tail ∨ ¬crlf <:+: tail ∧ tail.length ≤ maxChunkHeader

section Verdicts

variable {checksum} {declared : Nat} {algorithm : Option ChecksumAlgorithm} {sourceDone : Bool}
  {input payload tail : Bytes} {phase : Phase} {trailers : List Bytes}

theorem verdict_reached : (reached declared algorithm sourceDone phase payload trailers
    tail).verdict checksum = .ok () ↔ payload.length = declared ∧
      ∀ a, algorithm = some a → LastTrailer a trailers (checksum a payload) := by
  simp only [← lastValue_some]
  unfold verdict
  by_cases length : payload.length = declared
  · have agree : (reached declared algorithm sourceDone phase payload trailers tail).decoded =
      (reached declared algorithm sourceDone phase payload trailers tail).declared := length
    rw [if_neg (not_not.mpr agree)]
    cases algorithm with
    | none => simp [reached, length]
    | some a => cases last : lastValue a trailers <;> simp [reached, length, last]
  · simp [reached, length]

theorem takeLine_none : takeLine tail = none ↔ ¬crlf <:+: tail ∧ tail.length ≤ maxChunkHeader := by
  rw [← findCrlf_none, takeLine]
  cases findCrlf tail <;> simp

theorem Framing.few (framing : Framing declared input phase payload trailers tail) :
    trailers.length ≤ maxTrailers := by
  induction framing with
  | start => exact Nat.zero_le _
  | trailer _ _ _ few =>
    rw [length_append]
    exact few
  | chunk _ _ _ _ _ ih | data _ _ ih | next _ ih | zero _ _ _ ih => exact ih

theorem run_closed (framing : Framing declared input .trailer payload trailers tail)
    (closes : Closes tail) (length : payload.length = declared)
    (digest : ∀ a, algorithm = some a → LastTrailer a trailers (checksum a payload)) :
    run checksum (reached declared algorithm true .header [] [] input) [] = ⟨payload, .ok ()⟩ := by
  have verdict (buf : Bytes) : (reached declared algorithm true .trailer payload trailers
      buf).verdict checksum = .ok () := verdict_reached.mpr ⟨length, digest⟩
  rw [framing.run_eq, run_done]
  · simp [Result.addPayload]
  · rcases closes with ⟨after, rfl⟩ | ended
    · rw [turn_trailer checksum rfl (show ¬crlf <:+: [] by simp [crlf]) rfl, trailerLine,
        if_pos rfl]
      exact verified_done checksum (verdict after)
    · have turned : (reached declared algorithm true .trailer payload trailers tail).turn checksum =
          (reached declared algorithm true .trailer payload trailers tail).verified checksum := by
        simp [turn, reached, takeLine_none.mpr ended]
      rw [turned]
      exact verified_done checksum (verdict tail)

/-- What a run accepts is framed, and closed. -/
theorem Placed.sound {d : Decoder} {chunks : List Bytes}
    (placed : Placed declared algorithm input d chunks.flatten payload)
    (last : d.sourceDone = true → chunks = []) (fine : (run checksum d chunks).outcome = .ok ()) :
    ∃ trailers tail, Framing declared input .trailer (payload ++ (run checksum d chunks).payload)
      trailers tail ∧ Closes tail ∧ (payload ++ (run checksum d chunks).payload).length = declared ∧
      ∀ a, algorithm = some a →
        LastTrailer a trailers (checksum a (payload ++ (run checksum d chunks).payload)) := by
  fun_induction run checksum d chunks generalizing payload with
  | case1 d _ _ turned ih =>
    exact ih (placed.again turned) ((again_lighter turned).2 ▸ last) fine
  | case2 d _ b _ turned ih =>
    have onward := ih (placed.emit turned) ((emit_lighter turned).2 ▸ last) fine
    rwa [append_assoc] at onward
  | case3 d _ turned _ _ ih =>
    exact ih placed.extend (fun ended => by simp [Decoder.extend, (waits_unread turned).2] at ended)
      fine
  | case4 d _ _ ih => exact ih placed.finish (fun _ => rfl) fine
  | case5 d chunks _ turned =>
    obtain ⟨trailers, point, framing⟩ := placed
    cases turned ▸ turned_turn with
    | ended verdict =>
      obtain ⟨phase, verdict, closed⟩ := verdict.resolve_left framing.live.1
      rw [point, verdict_reached] at verdict
      rw [append_nil]
      refine ⟨trailers, _, phase ▸ framing, ?_, verdict⟩
      rcases closed with blank | ⟨ended, none_left⟩
      · exact .inl (blank.trans (prefix_append ..))
      · rw [last ended, flatten_nil, append_nil]
        exact .inr (takeLine_none.mp none_left)
  | case6 => cases fine

end Verdicts

section Streams

variable (declared : Nat) (algorithm : Option ChecksumAlgorithm)

section Steady

variable {declared algorithm}

theorem placed_new (chunks : List Bytes) :
    Placed declared algorithm chunks.flatten (new declared algorithm) chunks.flatten [] := by
  refine ⟨[], ?_, .start⟩
  cases algorithm <;> rfl

theorem yields_steady {chunks : List Bytes} (steady : Steady declared chunks.flatten) {p : Bytes}
    {o : Outcome} : Yields checksum (decodeAwsChunked (chunks.map .ok) declared algorithm) p o ↔
      ⟨p, o⟩ = run checksum (reached declared algorithm true .header [] [] chunks.flatten) [] := by
  rw [decodeAwsChunked, yields_iff, run_whole steady rfl (placed_new chunks)]
  rw [show (new declared algorithm).whole chunks.flatten = reached declared algorithm true .header
    [] [] chunks.flatten by cases algorithm <;> rfl]
  exact Result.mk.injEq .. ▸ .rfl

end Steady

/-- The outcome does not depend on how the source cuts the body exactly when the body is steady. -/
theorem decode_ignores_cuts_iff (input : Bytes) :
    (∃ payload outcome, ∀ chunks : List Bytes, chunks.flatten = input → ∀ p o,
      Yields checksum (decodeAwsChunked (chunks.map .ok) declared algorithm) p o ↔
        p = payload ∧ o = outcome) ↔ Steady declared input := by
  constructor
  · rintro ⟨payload, outcome, same⟩ phase line ⟨place, free, long, given, trailers, rest, framing⟩
    obtain ⟨front, rfl, read⟩ := framing.moved
    have agree (chunks : List Bytes) (cut : chunks.flatten = front ++ (line ++ crlf ++ rest)) :
        run checksum (new declared algorithm) chunks = ⟨payload, outcome⟩ := by
      obtain ⟨rfl, rfl⟩ := (same chunks cut _ _).mp (yields_run _ chunks)
      rfl
    -- one piece ends between the two bytes of the line break, when the line is past the limit
    have late : run checksum (new declared algorithm) [front ++ (line ++ [13]), 10 :: rest] =
        ⟨given ++ [], .error tooLong⟩ := by
      rw [run_read rfl, new_reached, (read (line ++ [13])).run_eq, run_err]
      · rfl
      · exact turn_unended checksum place (free_return free)
          (by simpa [reached, Nat.lt_succ_iff] using long)
    have whole : run checksum (new declared algorithm) [front ++ (line ++ crlf ++ rest)] =
        (run checksum (reached declared algorithm false phase given trailers (line ++ crlf ++ rest))
          []).addPayload given := by
      rw [run_read rfl, new_reached, framing.run_eq]
    have equal := whole.symm.trans ((agree _ (by simp)).trans
      ((agree [front ++ (line ++ [13]), 10 :: rest] (by simp [crlf])).symm.trans late))
    have refused : run checksum (reached declared algorithm false phase given trailers
        (line ++ crlf ++ rest)) [] = ⟨[], .error tooLong⟩ := by
      rw [Result.addPayload, Result.mk.injEq, append_cancel_left_eq] at equal
      rw [← equal.1, ← equal.2]
    exact Placed.steady_at ⟨trailers, rfl, by rwa [append_nil]⟩ place free rfl refused
  · intro steady
    refine ⟨(run checksum (reached declared algorithm true .header [] [] input) []).payload,
      (run checksum (reached declared algorithm true .header [] [] input) []).outcome, ?_⟩
    rintro chunks rfl p o
    rw [yields_steady checksum steady, Result.mk.injEq]

def longTrailer : Bytes := List.replicate 1025 97

theorem longTrailer_free : ¬crlf <:+: longTrailer := by
  intro inside
  have member := eq_of_mem_replicate (inside.subset (show 13 ∈ crlf by decide))
  cases member

theorem zero_framing (rest : Bytes) : Framing 0 ([48] ++ crlf ++ rest) .trailer [] [] rest :=
  .zero .start (by decide) (parseChunkSize_ok.mp (by decide))

/-- The same body with a long trailer is accepted in one piece and refused when its last line break
arrives by itself. -/
theorem cut_changes_outcome :
    Yields (fun _ _ => []) (decodeAwsChunked [.ok ([48] ++ crlf ++ (longTrailer ++ crlf))] 0 none)
      []
      (.ok ()) ∧
    Yields (fun _ _ => []) (decodeAwsChunked [.ok ([48] ++ crlf ++ longTrailer), .ok crlf] 0 none)
      []
      (.error tooLong) := by
  constructor
  · have before : Framing 0 ([48] ++ crlf ++ (longTrailer ++ crlf)) .trailer [] []
        (longTrailer ++ crlf ++ []) := by
      rw [append_nil]
      exact zero_framing _
    have framing := before.trailer longTrailer_free nofun (by decide)
    show Yields _ ⟨[_].map .ok, _, false⟩ _ _
    rw [yields_iff, run_read rfl, new_reached, framing.run_eq, run_last rfl, run_done rfl]
    exact ⟨rfl, rfl⟩
  · show Yields _ ⟨[_, _].map .ok, _, false⟩ _ _
    rw [yields_iff, run_read rfl, new_reached, (zero_framing longTrailer).run_eq,
      run_err (turn_unended _ (.inr rfl) longTrailer_free _)]
    · exact ⟨rfl, rfl⟩
    · rw [reached, longTrailer, length_replicate]
      decide

theorem poll_finished (d : Decoder) (source : List (Except String Bytes))
    (last : ∀ b, (poll checksum d source).1 ≠ some (.ok b)) :
    (poll checksum d source).2.finished = true := by
  fun_induction poll checksum d source with
  | case1 _ _ _ _ ih => exact ih last
  | case2 _ _ b => exact absurd rfl (last b)
  | case3 => rfl
  | case4 => rfl
  | case5 _ _ _ _ _ ih => exact ih last
  | case6 => rfl
  | case7 _ _ _ ih => exact ih last

/-- A body is accepted if it is framed and closed, and only then: the payload has the declared
length and the last trailer of the algorithm is its digest.  A stream that has ended stays silent.
-/
theorem decode_sound_complete :
    (∀ (chunks : List Bytes) (payload : Bytes),
      Yields checksum (decodeAwsChunked (chunks.map .ok) declared algorithm) payload (.ok ()) →
      payload.length = declared ∧ ∃ trailers tail,
        Framing declared chunks.flatten .trailer payload trailers tail ∧ Closes tail ∧
        trailers.length ≤ maxTrailers ∧
        ∀ a, algorithm = some a → LastTrailer a trailers (checksum a payload)) ∧
    (∀ (input payload tail : Bytes) (trailers : List Bytes),
      Framing declared input .trailer payload trailers tail → Closes tail →
      payload.length = declared →
      (∀ a, algorithm = some a → LastTrailer a trailers (checksum a payload)) →
      (∀ phase line, ¬LongLine declared input phase line) →
      ∀ chunks : List Bytes, chunks.flatten = input → ∀ p o,
        Yields checksum (decodeAwsChunked (chunks.map .ok) declared algorithm) p o ↔
          p = payload ∧ o = .ok ()) ∧
    ∀ s : ChunkedStream, (∀ b, (s.pollNext checksum).1 ≠ some (.ok b)) →
      (s.pollNext checksum).2.pollNext checksum = (none, (s.pollNext checksum).2) := by
  refine ⟨fun chunks payload yields => ?_, ?_, fun s last => ?_⟩
  · obtain ⟨rfl, fine⟩ := yields_iff.mp yields
    obtain ⟨trailers, tail, framing, closes, length, digest⟩ :=
      (placed_new chunks).sound nofun fine.symm
    exact ⟨length, trailers, tail, framing, closes, framing.few, digest⟩
  · rintro _ payload tail trailers framing closes length digest short chunks rfl p o
    have steady : Steady declared chunks.flatten := fun phase line long => absurd long (short _ _)
    rw [yields_steady checksum steady, run_closed framing closes length digest, Result.mk.injEq]
  · have finished : (s.pollNext checksum).2.finished = true := by
      unfold ChunkedStream.pollNext at last ⊢
      by_cases ended : s.finished = true
      · rwa [if_pos ended]
      · rw [if_neg ended] at last ⊢
        exact poll_finished checksum s.decoder s.source last
    exact if_pos finished

section Hello

def hello : Bytes := Text.ascii "hello worl"

def crcLine : Bytes := Text.ascii "X-Amz-Checksum-Crc32: DUoRhQ=="

/-- Two chunks, the second with an extension, and the trailer of `hello world`. -/
def helloBody : Bytes :=
  [97] ++ crlf ++ (hello ++ (crlf ++ (Text.ascii "1;a=b" ++ crlf ++ ([100] ++ (crlf ++
    ([48] ++ crlf ++ (crcLine ++ crlf ++ crlf)))))))

theorem helloBody_framing :
    Framing 11 helloBody .trailer ([] ++ hello ++ [100]) ([] ++ [crcLine]) crlf := by
  have first : Framing 11 helloBody .header ([] ++ hello) [] _ :=
    .next (.data (n := 0) (.chunk .start (by decide) (parseChunkSize_ok.mp (by decide)) (by decide)
      (by decide)) (by decide))
  have second : Framing 11 helloBody .header ([] ++ hello ++ [100]) [] _ :=
    .next (.data (n := 0) (.chunk first (by decide) (parseChunkSize_ok.mp (by decide)) (by decide)
      (by decide)) (by decide))
  exact .trailer (.zero second (by decide) (parseChunkSize_ok.mp (by decide)))
    (by decide) (by decide)
    (by decide)

theorem decode_sound_complete_hello :
    Yields (fun _ _ => Text.ascii "DUoRhQ==")
      (decodeAwsChunked [.ok (helloBody.take 20), .ok (helloBody.drop 20)] 11 (some .crc32))
      (Text.ascii "hello world") (.ok ()) :=
  ((decode_sound_complete (fun _ _ => Text.ascii "DUoRhQ==") 11 (some .crc32)).2.1 helloBody _ _ _
    helloBody_framing (.inl ⟨[], rfl⟩) rfl (by rintro _ ⟨⟩; exact lastValue_some.mp (by decide))
    (fun _ _ => not_longLine_of_short (by decide)) [helloBody.take 20, helloBody.drop 20]
    (by decide)
    _ _).mpr ⟨by decide, rfl⟩

end Hello

end Streams

end Talon.Gateway.AwsChunked
