import Talon.Lib.OrderedPool
import Talon.Journal.Frame

/-!
# Reading a journal file with decoder threads

`replay.rs` as it is written: the reader that cuts a file into batches and keeps a header it has
read but not used, the decoder that moves the head of a frame next to its body in the buffer it
works on, and the caller that hands batches to decoder threads and visits their records in file
order.  The reader and the decoder agree with the ones on whole inputs in `Frame`; the threads are
an instance of `OrderedPool`.
-/

set_option autoImplicit false

namespace Talon.Journal

open Relation Wire List
open Fallible (bind_ok)

variable (xxh3 : Hash)

/-! ## The decoder -/

/-- `copy_within(position..position + 24, position + 8)` -/
def copyHead (b : Bytes) (position : Nat) : Bytes :=
  b.take (position + 8) ++ ((b.drop position).take 24 ++ b.drop (position + headerLen))

theorem length_copyHead {b : Bytes} {position : Nat} (inside : position + headerLen ≤ b.length) :
    (copyHead b position).length = b.length := by
  unfold copyHead headerLen at *
  simp only [length_append, length_take, length_drop]
  omega

/-- `frame::decode` at a position of the buffer. -/
def decodeInPlace {T : Type} (decode : Bytes → Result T) (b : Bytes) (position : Nat) :
    Result (List (Nat × T)) :=
  if position < b.length then
    if _short : b.length - position < headerLen then .error "truncated journal header"
    else
      let header := (b.drop position).take headerLen
      if header.take 8 ≠ frameMagic then .error "unsupported journal format"
      else if notU32 (numberAt header 8 4) ≠ numberAt header 12 4 ∨
      numberAt header 8 4 > maxRecord then
        .error "journal frame length"
      else
        let stop := position + headerLen + numberAt header 8 4
        if stop > b.length then .error "truncated journal body"
        else
          let moved := copyHead b position
          if xxh3.digest ((moved.take stop).drop (position + 8)) ≠ numberAt header 24 8 then
            .error "journal frame checksum"
          else do
            let record ← decode ((moved.take stop).drop (position + headerLen))
            let rest ← decodeInPlace decode moved stop
            return (numberAt header 16 8, record) :: rest
  else .ok []
termination_by b.length - position
decreasing_by
  have same : moved.length = b.length := length_copyHead (by unfold headerLen at *; omega)
  rw [same]
  unfold stop headerLen at *
  omega

section Decoder

variable {xxh3} {b : Bytes} {position : Nat}

section

variable (inside : position + headerLen ≤ b.length)
include inside

theorem drop_copyHead (n : Nat) :
    (copyHead b position).drop (position + headerLen + n) = b.drop (position + headerLen + n) := by
  have front : (b.take (position + 8) ++ (b.drop position).take 24).length = position +
      headerLen := by
    unfold headerLen at *
    simp only [length_append, length_take, length_drop]
    omega
  rw [copyHead, ← append_assoc, ← drop_drop, drop_left' front, drop_drop]

theorem moved_head (n : Nat) :
    ((copyHead b position).take (position + headerLen + n)).drop (position + 8) =
      (b.drop position).take 24 ++ ((b.drop position).take (headerLen + n)).drop headerLen := by
  have front : (b.take (position + 8)).length = position + 8 := by
    unfold headerLen at inside
    rw [length_take]
    omega
  have head : ((b.drop position).take 24).length = 24 := by
    unfold headerLen at inside
    rw [length_take, length_drop]
    omega
  rw [drop_take, copyHead, drop_left' front, drop_take, drop_drop,
    show position + headerLen + n - (position + 8) = 24 + n by unfold headerLen; omega,
    show headerLen + n - headerLen = n by omega, take_append, head, take_of_length_le (by omega),
    show 24 + n - 24 = n by omega]

theorem moved_body (n : Nat) :
    ((copyHead b position).take (position + headerLen + n)).drop (position + headerLen) =
      ((b.drop position).take (headerLen + n)).drop headerLen := by
  have rest := drop_copyHead inside 0
  rw [Nat.add_zero] at rest
  rw [drop_take, rest, drop_take, drop_drop, Nat.add_sub_cancel_left, Nat.add_sub_cancel_left]

end

theorem numberAt_take {i w n : Nat} (inside : i + w ≤ n) :
    numberAt (b.take n) i w = numberAt b i w := by
  unfold numberAt
  rw [drop_take, take_take, Nat.min_eq_left (by omega)]

theorem decodeInPlace_eq {T : Type} (decode : Bytes → Result T) (b : Bytes) (position : Nat) :
    decodeInPlace xxh3 decode b position = decodeFrames xxh3 decode (b.drop position) := by
  induction left : b.length - position using Nat.strong_induction_on generalizing b position with
  | _ m ih =>
    rw [decodeInPlace, decodeFrames]
    by_cases more : position < b.length
    · have some_ : ¬ (b.drop position).isEmpty = true := by
        rw [List.isEmpty_iff, ← List.length_eq_zero_iff, List.length_drop]
        omega
      rw [if_pos more, if_neg some_, length_drop]
      by_cases short : b.length - position < headerLen
      · rw [dif_pos short, if_pos short]
      rw [dif_neg short, if_neg short]
      have inside : position + headerLen ≤ b.length := by unfold headerLen at *; omega
      dsimp only
      rw [take_take, show min 8 headerLen = 8 from rfl,
        numberAt_take (show 8 + 4 ≤ headerLen by decide), numberAt_take
        (show 12 + 4 ≤ headerLen by decide),
        numberAt_take (show 24 + 8 ≤ headerLen by decide), numberAt_take
        (show 16 + 8 ≤ headerLen by decide), moved_head inside, moved_body inside]
      split
      · rfl
      split
      · rfl
      by_cases cut : position + headerLen + numberAt (b.drop position) 8 4 > b.length
      · rw [if_pos cut, if_pos (by omega)]
      have whole : ¬ headerLen + numberAt (b.drop position) 8 4 > b.length - position := by omega
      rw [if_neg cut, if_neg whole]
      split
      · rfl
      have later := ih (m - (headerLen + numberAt (b.drop position) 8 4))
        (by unfold headerLen; omega)
        (copyHead b position) (position + headerLen + numberAt (b.drop position) 8 4)
        (by rw [length_copyHead inside]; omega)
      rw [later, drop_copyHead inside, drop_drop, ← Nat.add_assoc]
    · have none_ : (b.drop position).isEmpty = true := by
        rw [List.isEmpty_iff, List.drop_eq_nil_iff]
        omega
      rw [if_neg more, if_pos none_]

end Decoder

/-! ## The reader -/

def windowBytes : Nat := 64 * 1024 * 1024

/-- `Frames`: `unread` is what the file yields next, which is behind `position` while a header that
was read waits for the next batch. -/
structure Reader where
  unread : Bytes
  length : Nat
  position : Nat := 0
  header : Option Bytes := none
  tailOk : Bool
  finished : Bool := false

def Reader.opened (file : Bytes) (tailOk : Bool) : Reader :=
  { unread := file, length := file.length, tailOk }

def readExact (unread : Bytes) (n : Nat) : Result (Bytes × Bytes) :=
  if unread.length < n then .error "failed to fill whole buffer"
    else .ok (unread.take n, unread.drop n)

def Reader.takeHeader (r : Reader) : Result (Bytes × Bytes) :=
  match r.header with
  | some header => .ok (header, r.unread)
  | none => readExact r.unread headerLen

/-- The loop of `Frames::next`, with what the batch has so far. -/
def Reader.fill (r : Reader) (bytes : Bytes) (records : Nat) : Result (Reader × Bytes) :=
  if _going : r.finished = false ∧ r.position < r.length ∧ records < batchRecords then
    if r.length - r.position < headerLen then
      if r.tailOk then .ok ({ r with finished := true }, bytes)
        else .error "truncated journal header"
    else
      match r.takeHeader with
      | .error e => .error e
      | .ok (header, unread) =>
        if header.take 8 ≠ frameMagic then .error "unsupported/corrupt journal format"
        else if notU32 (numberAt header 8 4) ≠ numberAt header 12 4 then
          .error "journal frame length checksum mismatch"
        else
          let n := numberAt header 8 4
          if n > maxRecord then .error "invalid journal frame length"
          else if r.length - r.position - headerLen < n then
            if r.tailOk then .ok ({ r with unread, header := none, finished := true }, bytes)
            else .error "truncated journal body"
          else if ¬ bytes.isEmpty ∧ bytes.length + headerLen + n > batchBytes then
            .ok ({ r with unread, header := some header }, bytes)
          else
            match readExact unread n with
            | .error e => .error e
            | .ok (body, unread) =>
              Reader.fill { r with unread, header := none, position := r.position +
                (headerLen + n) }
                (bytes ++ header ++ body) (records + 1)
  else .ok (r, bytes)
termination_by r.length - r.position
decreasing_by
  have _inside := _going.2.1
  unfold headerLen
  omega

variable {q : Reader} {batch : Bytes} {tailOk : Bool}

section Reader

variable {r : Reader} {rest bytes : Bytes} {records : Nat}

def Reader.Before (r : Reader) (rest : Bytes) : Prop :=
  r.position + rest.length = r.length ∧
    match r.header with
    | none => r.unread = rest
    | some header => header.length = headerLen ∧ header ++ r.unread = rest

theorem Reader.Before.takeHeader (h : r.Before rest) (long : headerLen ≤ rest.length) :
    r.takeHeader = .ok (rest.take headerLen, rest.drop headerLen) := by
  obtain ⟨_, stands⟩ := h
  unfold Reader.takeHeader
  cases waiting : r.header with
  | none =>
    rw [waiting] at stands
    rw [stands, readExact, if_neg (by omega)]
  | some =>
    rw [waiting] at stands
    obtain ⟨length, rfl⟩ := stands
    rw [take_left' length, drop_left' length]

theorem Reader.Before.turn (h : r.Before rest) (going : r.finished = false) (bytes : Bytes)
    (more : ¬ (rest.isEmpty = true ∨ ¬ records < batchRecords)) :
    match frameSize r.tailOk rest with
    | .error e => r.fill bytes records = .error e
    | .ok none => ∃ q : Reader, r.fill bytes records = .ok (q, bytes) ∧ q.finished = true ∧
        q.position = r.position ∧ q.length = r.length ∧ q.tailOk = r.tailOk
    | .ok (some n) => headerLen + n ≤ rest.length ∧ r.fill bytes records =
        if ¬ bytes.isEmpty ∧ bytes.length + headerLen + n > batchBytes then
          .ok ({ r with unread := rest.drop headerLen, header := some (rest.take headerLen) },
            bytes)
        else
          Reader.fill { r with
            unread := rest.drop (headerLen + n)
            header := none
            position := r.position + (headerLen + n) } (bytes ++ rest.take (headerLen + n))
            (records + 1) := by
  rw [not_or, not_not, List.isEmpty_iff] at more
  obtain ⟨some_, few⟩ := more
  have position := h.1
  have positive := List.length_pos_iff.mpr some_
  have left : r.length - r.position = rest.length := by omega
  rw [Reader.fill, dif_pos ⟨going, by omega, few⟩, left, frameSize]
  by_cases short : rest.length < headerLen
  · rw [if_pos short, if_pos short]
    cases tail : r.tailOk with
    | true => exact ⟨_, rfl, rfl, rfl, rfl, rfl⟩
    | false => rfl
  rw [if_neg short, if_neg short, h.takeHeader (by omega)]
  dsimp only
  rw [take_take, show min 8 headerLen = 8 from rfl,
    numberAt_take (show 8 + 4 ≤ headerLen by decide), numberAt_take
    (show 12 + 4 ≤ headerLen by decide)]
  by_cases magic : rest.take 8 ≠ frameMagic
  · rw [if_pos magic, if_pos magic]
  rw [if_neg magic, if_neg magic]
  by_cases check : notU32 (numberAt rest 8 4) ≠ numberAt rest 12 4
  · rw [if_pos check, if_pos check]
  rw [if_neg check, if_neg check]
  by_cases large : numberAt rest 8 4 > maxRecord
  · rw [if_pos large, if_pos large]
  rw [if_neg large, if_neg large]
  by_cases cut : rest.length - headerLen < numberAt rest 8 4
  · rw [if_pos cut, if_pos cut]
    cases tail : r.tailOk with
    | true => exact ⟨_, rfl, rfl, rfl, rfl, rfl⟩
    | false => rfl
  rw [if_neg cut, if_neg cut]
  refine ⟨by omega, ?_⟩
  split
  · rfl
  rw [readExact, if_neg (by rw [length_drop]; omega)]
  dsimp only
  rw [drop_drop, append_assoc, ← take_add]

theorem Reader.fill_stop
    (stop : ¬ (r.finished = false ∧ r.position < r.length ∧ records < batchRecords)) :
    r.fill bytes records = .ok (r, bytes) := by
  rw [Reader.fill, dif_neg stop]

theorem Reader.Before.next (h : r.Before rest) (going : r.finished = false) (bytes : Bytes)
    (records : Nat) :
    match Frames.next r.tailOk rest bytes records with
    | .error e => r.fill bytes records = .error e
    | .ok (batch, next) => ∃ q : Reader, r.fill bytes records = .ok (q, batch) ∧
        q.finished = next.finished ∧ q.tailOk = r.tailOk ∧ q.length = r.length ∧
        q.position + next.rest.length = r.length ∧
          (next.finished = false → q.Before next.rest) := by
  generalize tail : r.tailOk = tailOk
  fun_induction Frames.next tailOk rest bytes records generalizing r with
  | case1 _ _ _ stop =>
    have position := h.1
    refine ⟨r, Reader.fill_stop ?_, going, tail, rfl, position, fun _ => h⟩
    rintro ⟨-, _, few⟩
    rcases stop with empty | full
    · rw [isEmpty_iff.mp empty, length_nil] at position
      omega
    · exact full few
  | case2 _ bytes _ more e failed =>
    have turn := h.turn going bytes more
    rw [tail, failed] at turn
    exact turn
  | case3 _ bytes _ more torn =>
    have turn := h.turn going bytes more
    rw [tail, torn] at turn
    obtain ⟨q, filled, done, position, length, tail'⟩ := turn
    exact ⟨q, filled, done, tail', length, by rw [position]; exact h.1,
      fun absurd => by cases absurd⟩
  | case4 _ bytes _ more _ sized full =>
    have turn := h.turn going bytes more
    rw [tail, sized] at turn
    obtain ⟨fits, filled⟩ := turn
    rw [if_pos full] at filled
    refine ⟨_, filled, going, rfl, rfl, h.1, fun _ => ⟨h.1, ?_, take_append_drop _ _⟩⟩
    rw [length_take]
    omega
  | case5 _ bytes _ more _ sized room ih =>
    have turn := h.turn going bytes more
    rw [tail, sized] at turn
    obtain ⟨_, filled⟩ := turn
    rw [if_neg room] at filled
    rw [filled]
    have position := h.1
    exact ih ⟨by rw [length_drop]; dsimp only; omega, rfl⟩ going rfl

theorem Reader.fill_grows (h : r.fill bytes records = .ok (q, batch)) :
    q.length = r.length ∧
      (batch = bytes ∧ q.position = r.position ∨ r.position < r.length ∧
        r.position < q.position) := by
  fun_induction Reader.fill r bytes records with
  | case11 r _ _ going _ _ _ _ _ _ _ _ _ _ _ _ _ ih =>
    obtain ⟨length, moved⟩ := ih h
    refine ⟨length, .inr ⟨going.2.1, ?_⟩⟩
    dsimp only at moved
    unfold headerLen at moved
    omega
  | _ => first | (cases h; exact ⟨rfl, .inl ⟨rfl, rfl⟩⟩) | cases h

end Reader

/-! ## The caller and its threads -/

structure Batch where
  bytes : Bytes
  stop : Nat

/-- `Frames::next` -/
def Reader.next (r : Reader) : Result (Reader × Option Batch) :=
  match r.fill [] 0 with
  | .error e => .error e
  | .ok (q, bytes) => .ok (q, if bytes.isEmpty then none else some ⟨bytes, q.position⟩)

variable {r : Reader} {rest : Bytes}

theorem Reader.next_error {e : String} (filled : r.fill [] 0 = .error e) : r.next = .error e := by
  rw [Reader.next, filled]

theorem Reader.next_none (filled : r.fill [] 0 = .ok (q, [])) : r.next = .ok (q, none) := by
  rw [Reader.next, filled]
  rfl

theorem Reader.next_some {bytes : Bytes} (filled : r.fill [] 0 = .ok (q, bytes))
    (some_ : ¬ bytes.isEmpty = true) : r.next = .ok (q, some ⟨bytes, q.position⟩) := by
  rw [Reader.next, filled]
  dsimp only
  rw [if_neg some_]

theorem Reader.next_shrinks {batch : Batch} (read : r.next = .ok (q, some batch)) :
    q.length - q.position < r.length - r.position := by
  cases filled : r.fill [] 0 with
  | error =>
    rw [Reader.next_error filled] at read
    cases read
  | ok found =>
    obtain ⟨_, bytes⟩ := found
    by_cases none_ : bytes.isEmpty = true
    · rw [isEmpty_iff.mp none_] at filled
      rw [Reader.next_none filled] at read
      cases read
    · rw [Reader.next_some filled none_] at read
      cases read
      obtain ⟨_, ⟨same, -⟩ | _⟩ := Reader.fill_grows filled
      · exact absurd (isEmpty_iff.mpr same) none_
      · omega

def visitBatch {T σ : Type} (visit : σ → Nat → T → Result σ) (at_ : Nat × σ) (batch : Batch)
    (decoded : Result (List (Nat × T))) : Result (Nat × σ) :=
  match decoded with
  | .error e => .error e
  | .ok records =>
    match records.foldlM (fun s r => visit s r.1 r.2) at_.2 with
    | .error e => .error e
    | .ok s => .ok (batch.stop, s)

/-- The caller with `threads + 1` decoder threads. -/
def readPlan {T σ : Type} (decode : Bytes → Result T) (visit : σ → Nat → T → Result σ)
    (threads : Nat) :
    OrderedPool.Plan Reader Batch (Result (List (Nat × T))) (Nat × σ) String where
  next := Reader.next
  work batch := decodeInPlace xxh3 decode batch.bytes 0
  take := visitBatch visit
  weight batch := batch.bytes.length
  ahead := (threads + 1) * 2
  limit := windowBytes - maxRecord - headerLen
  workers := threads + 1
  remaining r := r.length - r.position
  shrinks := Reader.next_shrinks
  some_ahead := by omega
  some_worker := Nat.succ_pos _

def replayThreads (threads length : Nat) : Nat :=
  min (max threads 1) (max ((length + batchBytes - 1) / batchBytes) 1)

def readAlone {T σ : Type} (tailOk : Bool) (decode : Bytes → Result T)
    (visit : σ → Nat → T → Result σ)
    (file : Bytes) (s : σ) : Result (Nat × σ) :=
  (OrderedPool.sequential (readPlan xxh3 decode visit 0) (Reader.opened file tailOk) (0, s)).map
    fun done => (done.1.position, done.2.2)

/-- `replay::read` with a number of threads returns a result. -/
inductive Returns {T σ : Type} (tailOk : Bool) (decode : Bytes → Result T)
    (visit : σ → Nat → T → Result σ)
    (threads : Nat) (file : Bytes) (s : σ) : Result (Nat × σ) → Prop
  | alone (one : replayThreads threads file.length = 1) :
      Returns tailOk decode visit threads file s (readAlone xxh3 tailOk decode visit file s)
  | pooled {n p r} (several : replayThreads threads file.length = n + 2)
      (run : ReflTransGen (OrderedPool.Step (readPlan xxh3 decode visit n))
        { source := Reader.opened file tailOk, state := (0, s) } p)
      (done : p.returned = some r) : Returns tailOk decode visit threads file s r

section Caller

variable {xxh3} {T σ : Type} {decode : Bytes → Result T} {visit : σ → Nat → T → Result σ}

theorem readFrom_error {e : String} (failed : Frames.next tailOk rest [] 0 = .error e)
    (position : Nat) (s : σ) :
    readFrom xxh3 tailOk decode visit ⟨rest, false⟩ position s = .error e := by
  rw [readFrom]
  simp only [Bool.false_eq_true, ↓reduceIte]
  split
  · rename_i same
    rw [failed] at same
    cases same
    rfl
  · rename_i taken
    rw [failed] at taken
    cases taken

/-- The same result, with the reader where the returned offset is. -/
def Agrees (x : Result (Nat × σ)) (y : Result (Reader × (Nat × σ))) : Prop :=
  match x with
  | .error e => y = .error e
  | .ok out => ∃ q : Reader, y = .ok (q, out) ∧ q.position = out.1

theorem agrees_bind {α : Type} (x : Result α) {f : α → Result (Nat × σ)}
    {g : α → Result (Reader × (Nat × σ))} (each : ∀ a, x = .ok a → Agrees (f a) (g a)) :
    Agrees (x >>= f) (x >>= g) := by
  cases x with
  | error => rfl
  | ok a => exact each a rfl

theorem sequential_batch (filled : r.fill [] 0 = .ok (q, batch)) (some_ : ¬ batch.isEmpty = true)
    (threads : Nat) (at_ : Nat × σ) :
    OrderedPool.sequential (readPlan xxh3 decode visit threads) r at_ =
      decodeFrames xxh3 decode batch >>= fun records =>
        records.foldlM (fun s r => visit s r.1 r.2) at_.2 >>= fun s =>
          OrderedPool.sequential (readPlan xxh3 decode visit threads) q (q.position, s) := by
  rw [OrderedPool.sequential_some (Reader.next_some filled some_)]
  change (visitBatch visit at_ ⟨batch, q.position⟩ (decodeInPlace xxh3 decode batch 0) >>= _) = _
  rw [decodeInPlace_eq, drop_zero]
  cases decodeFrames xxh3 decode batch with
  | error => rfl
  | ok records =>
    rw [ok_bind, visitBatch]
    cases records.foldlM (fun s r => visit s r.1 r.2) at_.2 <;> rfl

theorem sequential_read (h : r.Before rest) (going : r.finished = false) (threads : Nat) (s : σ) :
    Agrees (readFrom xxh3 r.tailOk decode visit ⟨rest, false⟩ r.position s)
      (OrderedPool.sequential (readPlan xxh3 decode visit threads) r (r.position, s)) := by
  induction left : rest.length using Nat.strong_induction_on generalizing r rest s with
  | _ n ih =>
    have next := h.next going [] 0
    cases taken : Frames.next r.tailOk rest [] 0 with
    | error =>
      rw [taken] at next
      rw [readFrom_error taken]
      exact OrderedPool.sequential_error (Reader.next_error next) _
    | ok found =>
      obtain ⟨batch, rest'⟩ := found
      rw [taken] at next
      obtain ⟨q, filled, finished, tail, length, position, before⟩ := next
      have lengths := Frames.next_length taken
      rw [length_nil] at lengths
      have start := h.1
      have moved : q.position = r.position + batch.length := by omega
      rw [readFrom_next taken]
      by_cases empty : batch.isEmpty = true
      · rw [if_pos empty]
        rw [isEmpty_iff.mp empty] at filled moved
        exact ⟨q, OrderedPool.sequential_none (Reader.next_none filled) _, moved⟩
      rw [if_neg empty, sequential_batch filled empty]
      refine agrees_bind _ fun records _ => agrees_bind _ fun s' _ => ?_
      rw [← moved]
      obtain ⟨rest', finished'⟩ := rest'
      cases finished' with
      | true =>
        have stays : q.fill [] 0 = .ok (q, []) := Reader.fill_stop (by rw [finished]; nofun)
        rw [readFrom_finished, OrderedPool.sequential_none (Reader.next_none stays)]
        exact ⟨q, rfl, rfl⟩
      | false =>
        have some_ := length_pos_iff.mpr fun nil => empty (isEmpty_iff.mpr nil)
        rw [← tail]
        exact ih rest'.length (by dsimp only at lengths; omega) (before rfl) finished s' rfl

variable (xxh3 decode visit) in
theorem sequential_opened (tailOk : Bool) (threads : Nat) (file : Bytes) (s : σ) :
    Agrees (read xxh3 tailOk decode visit file s) (OrderedPool.sequential
      (readPlan xxh3 decode visit threads) (Reader.opened file tailOk) (0, s)) :=
  sequential_read (show (Reader.opened file tailOk).Before file from ⟨Nat.zero_add _, rfl⟩)
    rfl threads s

theorem readAlone_eq (tailOk : Bool) (file : Bytes) (s : σ) :
    readAlone xxh3 tailOk decode visit file s = read xxh3 tailOk decode visit file s := by
  have agrees := sequential_opened xxh3 decode visit tailOk 0 file s
  unfold readAlone
  cases reading : read xxh3 tailOk decode visit file s with
  | error =>
    rw [reading] at agrees
    rw [show OrderedPool.sequential _ _ (0, s) = _ from agrees]
    rfl
  | ok out =>
    rw [reading] at agrees
    obtain ⟨q, same, position⟩ := agrees
    rw [same]
    change Except.ok (q.position, out.2) = _
    rw [position]

/-- Whatever the number of threads and their timing, reading returns success exactly if the caller
alone does, with the same offset and state. -/
theorem returns_iff {threads : Nat} {file : Bytes} {s : σ} {r : Result (Nat × σ)}
    (returns : Returns xxh3 tailOk decode visit threads file s r) (out : Nat × σ) :
    r = .ok out ↔ read xxh3 tailOk decode visit file s = .ok out := by
  cases returns with
  | alone => rw [readAlone_eq]
  | @pooled n p r _ run done =>
    rw [OrderedPool.returned_iff run done]
    have agrees := sequential_opened xxh3 decode visit tailOk n file s
    cases reading : read xxh3 tailOk decode visit file s with
    | error =>
      rw [reading] at agrees
      rw [show OrderedPool.sequential _ _ (0, s) = _ from agrees]
      constructor
      · rintro ⟨_, same⟩
        cases same
      · nofun
    | ok =>
      rw [reading] at agrees
      obtain ⟨q, same, -⟩ := agrees
      rw [same]
      constructor
      · rintro ⟨_, same⟩
        cases same
        rfl
      · intro same
        cases same
        exact ⟨q, rfl⟩

theorem returns_some (tailOk : Bool) (threads : Nat) (file : Bytes) (s : σ) :
    ∃ r, Returns xxh3 tailOk decode visit threads file s r := by
  have positive : 0 < replayThreads threads file.length := by
    unfold replayThreads
    omega
  rcases Nat.lt_or_ge 1 (replayThreads threads file.length) with several | _
  · obtain ⟨n, _⟩ := Nat.exists_eq_add_of_le several
    obtain ⟨p, r, run, done⟩ := OrderedPool.returns (readPlan xxh3 decode visit n)
      (Reader.opened file tailOk) (0, s)
    exact ⟨r, .pooled (by omega) run done⟩
  · exact ⟨_, .alone (by omega)⟩

end Caller

/-! ## Files that were cut -/

section Cut

variable {xxh3} {T σ : Type} {decode : Bytes → Result T} {visit : σ → Nat → T → Result σ}

theorem frameSize_strict {size : Option Nat} (h : frameSize false rest = .ok size) :
    ∃ n, size = some n ∧ frameSize true rest = .ok (some n) := by
  unfold frameSize at h ⊢
  repeat' split at h <;> try cases h
  rename_i long magic check small whole
  rw [if_neg long, if_neg magic, if_neg check, if_neg small, if_neg whole]
  exact ⟨_, rfl, rfl⟩

theorem next_strict {bytes : Bytes} {records : Nat} {next : Frames}
    (h : Frames.next false rest bytes records = .ok (batch, next)) :
    Frames.next true rest bytes records = .ok (batch, next) ∧ next.finished = false ∧
      bytes <+: batch ∧ (bytes = [] → records < batchRecords → batch = [] → rest = []) := by
  fun_induction Frames.next false rest bytes records with
  | case1 _ _ _ stop =>
    cases h
    rw [Frames.next, if_pos stop]
    refine ⟨rfl, rfl, prefix_refl _, fun _ few _ => ?_⟩
    rcases stop with empty | full
    · exact isEmpty_iff.mp empty
    · exact absurd few full
  | case2 => cases h
  | case3 _ _ _ _ torn =>
    obtain ⟨_, none_, -⟩ := frameSize_strict torn
    cases none_
  | case4 _ _ _ more _ sized full =>
    obtain ⟨_, same, sized'⟩ := frameSize_strict sized
    cases same
    cases h
    rw [Frames.next, if_neg more, sized']
    dsimp only
    rw [if_pos full]
    exact ⟨rfl, rfl, prefix_refl _, fun nil => absurd (isEmpty_iff.mpr nil) full.1⟩
  | case5 _ _ _ more _ sized room ih =>
    obtain ⟨_, same, sized'⟩ := frameSize_strict sized
    cases same
    obtain ⟨alike, going, grown, -⟩ := ih h
    rw [Frames.next, if_neg more, sized']
    dsimp only
    rw [if_neg room]
    refine ⟨alike, going, (prefix_append _ _).trans grown, fun _ _ nil => ?_⟩
    rw [nil, prefix_nil, append_eq_nil_iff, take_eq_nil_iff] at grown
    rcases grown.2 with zero | empty
    · unfold headerLen at zero
      omega
    · exact empty

theorem readFrom_strict {position : Nat} {s : σ} {out : Nat × σ}
    (h : readFrom xxh3 false decode visit ⟨rest, false⟩ position s = .ok out) :
    readFrom xxh3 true decode visit ⟨rest, false⟩ position s = .ok out ∧
      out.1 = position + rest.length := by
  induction left : rest.length using Nat.strong_induction_on generalizing rest position s with
  | _ n ih =>
    cases taken : Frames.next false rest [] 0 with
    | error =>
      rw [readFrom_error taken] at h
      cases h
    | ok found =>
      obtain ⟨batch, next⟩ := found
      obtain ⟨alike, going, -, last⟩ := next_strict taken
      have lengths := Frames.next_length taken
      rw [length_nil] at lengths
      rw [readFrom_next taken] at h
      rw [readFrom_next alike]
      by_cases empty : batch.isEmpty = true
      · rw [if_pos empty] at h ⊢
        cases h
        rw [last rfl (by decide) (isEmpty_iff.mp empty), length_nil] at left
        exact ⟨rfl, by omega⟩
      have some_ := length_pos_iff.mpr fun nil => empty (isEmpty_iff.mpr nil)
      rw [if_neg empty] at h ⊢
      obtain ⟨_, decoded, h⟩ := bind_ok h
      obtain ⟨_, visited, h⟩ := bind_ok h
      obtain ⟨rest', _⟩ := next
      cases going
      obtain ⟨reading, _⟩ := ih rest'.length (by dsimp only at lengths; omega) h rfl
      rw [decoded, ok_bind, visited, ok_bind]
      refine ⟨reading, ?_⟩
      dsimp only at lengths
      omega

def logged (visit : σ → Nat → T → Result σ) (p : σ × List (Nat × T)) (lsn : Nat) (record : T) :
    Result (σ × List (Nat × T)) :=
  (visit p.1 lsn record).map fun s => (s, p.2 ++ [(lsn, record)])

theorem foldlM_logged {l : List (Nat × T)} {p q : σ × List (Nat × T)}
    (h : l.foldlM (fun s r => logged visit s r.1 r.2) p = .ok q) : q.2 = p.2 ++ l := by
  induction l generalizing p with
  | nil =>
    cases h
    rw [append_nil]
  | cons e l ih =>
    obtain ⟨p', first, rest⟩ := bind_ok h
    change (visit p.1 e.1 e.2).map _ = .ok p' at first
    cases visited : visit p.1 e.1 e.2 with
    | error =>
      rw [visited] at first
      cases first
    | ok =>
      rw [visited] at first
      cases first
      rw [ih rest, append_assoc]
      rfl

theorem read_cut {l : List (Nat × Bytes)} (framed : Framed l) (n : Nat) {s : σ} {offset : Nat}
    {q : σ × List (Nat × T)}
    (h : read xxh3 tailOk decode (logged visit) ((written xxh3 l).take n)
      (s, []) = .ok (offset, q)) :
    ∃ k ≤ l.length, ∃ records,
      List.Forall₂ (fun e record => decode e.2 = .ok record) (l.take k) records ∧
      q.2 = stamp (l.take k) records ∧ offset = (written xxh3 (l.take k)).length ∧ offset ≤ n ∧
      (∀ j ≤ l.length, (written xxh3 (l.take j)).length ≤ n → j ≤ k) ∧
      (tailOk = false → ((written xxh3 l).take n).length = offset) := by
  have lenient : read xxh3 true decode (logged visit) ((written xxh3 l).take n)
    (s, []) = .ok (offset, q) ∧
      (tailOk = false → ((written xxh3 l).take n).length = offset) := by
    cases tailOk with
    | true => exact ⟨h, nofun⟩
    | false =>
      obtain ⟨reading, stop⟩ := readFrom_strict h
      exact ⟨reading, fun _ => by rw [Nat.zero_add] at stop; exact stop.symm⟩
  obtain ⟨reading, strict⟩ := lenient
  obtain ⟨k, few, torn, data, cut, most⟩ := written_of_prefix framed
    ( take_prefix n (written xxh3 l))
  rw [data] at reading
  have tail : (true = true ∧ Torn xxh3 torn) ∨ torn = [] := .inl ⟨rfl, cut⟩
  obtain ⟨records, each⟩ := readFrom_written_ok tail (framed.take k) reading
  have whole := readFrom_written tail (logged visit) (framed.take k) each 0 (s, [])
  rw [read, whole, Nat.zero_add] at reading
  cases visited : (stamp (l.take k) records).foldlM (fun s r => logged visit s r.1 r.2) (s, []) with
  | error =>
    rw [visited] at reading
    cases reading
  | ok =>
    rw [visited] at reading
    cases reading
    have seen := foldlM_logged visited
    rw [nil_append] at seen
    have inside := congrArg length data
    rw [length_append, length_take] at inside
    refine ⟨k, few, records, each, seen, rfl, by omega, fun j least before =>
      most j least ?_, strict⟩
    have part : written xxh3 (l.take j) <+: written xxh3 l := by
      rw [written_take_drop xxh3 l j]
      exact prefix_append _ _
    refine prefix_of_prefix_length_le part ( take_prefix _ _) ?_
    rw [length_take]
    exact Nat.le_min.mpr ⟨before, part.length_le⟩

end Cut

/-- Reading a journal file with any number of threads: it returns, however the threads are
scheduled; it succeeds if and only if one thread does, with the same offset, state and visited
records; and of a file of frames that was cut it visits the frames before the cut and returns the
end of the last of them, which is the end of the file where a torn tail is not allowed. -/
theorem replay_any_threads {T σ : Type} (decode : Bytes → Result T) (visit : σ → Nat → T → Result σ)
    (tailOk : Bool) (threads : Nat) (file : Bytes) (s : σ) :
    (∃ r, Returns xxh3 tailOk decode visit threads file s r) ∧
    (∀ n, replayThreads threads file.length = n + 2 →
      OrderedPool.Settles (readPlan xxh3 decode visit n)
        { source := Reader.opened file tailOk, state := (0, s) }) ∧
    (∀ r r₁, Returns xxh3 tailOk decode (logged visit) threads file (s, []) r →
      Returns xxh3 tailOk decode (logged visit) 1 file (s, []) r₁ → ∀ out, r = .ok out ↔
      r₁ = .ok out) ∧
    ∀ l n, Framed l → file = (written xxh3 l).take n → ∀ offset q,
      Returns xxh3 tailOk decode (logged visit) threads file (s, []) (.ok (offset, q)) →
        ∃ k ≤ l.length, ∃ records,
          List.Forall₂ (fun e record => decode e.2 = .ok record) (l.take k) records ∧
          q.2 = stamp (l.take k) records ∧ offset = (written xxh3 (l.take k)).length ∧ offset ≤ n ∧
          (∀ j ≤ l.length, (written xxh3 (l.take j)).length ≤ n → j ≤ k) ∧
          (tailOk = false → file.length = offset) := by
  refine ⟨returns_some tailOk threads file s, fun n _ => OrderedPool.settles ..,
    fun r r₁ many one out => ?_, fun l n framed cut offset q returns => ?_⟩
  · rw [returns_iff many, returns_iff one]
  · subst cut
    exact read_cut framed n ((returns_iff returns _).mp rfl)

/-- Two frames that fill a batch each, and a third. -/
def sampleFrames : List (Nat × Bytes) :=
  [(1, replicate batchBytes 7), (2, replicate batchBytes 8), (3, [9])]

/-- Three threads read the file; the third frame is cut in its header. -/
theorem replay_any_threads_cut :
    let file := (written zeroHash sampleFrames).take (2 * (headerLen + batchBytes) + 7)
    replayThreads 4 file.length = 3 ∧
    ∃ q, Returns zeroHash true (fun b => .ok b) (logged fun (_ : Unit) _ (_ : Bytes) => .ok ()) 4
        file ((), []) (.ok (2 * (headerLen + batchBytes), q)) ∧
      ∃ k ≤ 3, ∃ records, q.2 = stamp (sampleFrames.take k) records ∧
        2 * (headerLen + batchBytes) = (written zeroHash (sampleFrames.take k)).length := by
  intro file
  have framed : Framed sampleFrames := by
    simp only [Framed, sampleFrames, forall_mem_cons, length_replicate]
    decide
  have torn : Torn zeroHash ((frame zeroHash 3 [9]).take 7) :=
    ⟨3, [9], (frame zeroHash 3 [9]).drop 7, by decide, by decide, by decide, take_append_drop _ _⟩
  have whole : (written zeroHash (sampleFrames.take 2)).length = 2 * (headerLen + batchBytes) := by
    simp [written, sampleFrames, length_frame]
    omega
  have data : file = written zeroHash (sampleFrames.take 2) ++ (frame zeroHash 3 [9]).take 7 := by
    show (written zeroHash sampleFrames).take _ = _
    rw [written_take_drop zeroHash sampleFrames 2, ← whole, take_length_add_append]
    simp [written, sampleFrames]
  have length : file.length = 2 * (headerLen + batchBytes) + 7 := by
    rw [data, length_append, whole]
    rfl
  have reading : read zeroHash true (fun b => .ok b) (logged fun (_ : Unit) _ (_ : Bytes) => .ok ())
      file ((), []) = .ok (2 * (headerLen + batchBytes), ((), stamp (sampleFrames.take 2)
        [replicate batchBytes 7, replicate batchBytes 8])) := by
    have read := readFrom_written (s := ((), ([] : List (Nat × Bytes)))) (.inl ⟨rfl, torn⟩)
      (logged fun (_ : Unit) _ (_ : Bytes) => .ok ()) (framed.take 2) (.cons rfl (.cons rfl .nil)) 0
    rw [Journal.read, data, read, whole, Nat.zero_add]
    unfold sampleFrames
    generalize replicate batchBytes 7 = x, replicate batchBytes 8 = y
    rfl
  obtain ⟨r, returns⟩ := (replay_any_threads zeroHash (fun b => .ok b)
    (logged fun (_ : Unit) _ (_ : Bytes) => .ok ()) true 4 file ((), [])).1
  obtain rfl := (returns_iff returns _).mpr reading
  refine ⟨by rw [length]; decide, _, returns, ?_⟩
  obtain ⟨k, few, records, -, seen, length, -⟩ := (replay_any_threads zeroHash (fun b => .ok b)
    (fun (_ : Unit) _ (_ : Bytes) => .ok ()) true 4 file ()).2.2.2 sampleFrames _ framed
    rfl _ _ returns
  exact ⟨k, few, records, seen, length⟩

/-! ## What the decoder accepts -/

section Accepted

variable {xxh3 : Hash} {T : Type} {decode : Bytes → Result T} {b : Bytes} {out : List (Nat × T)}

theorem leBytes_numberAt {i w : Nat} (inside : i + w ≤ b.length) :
    leBytes w (numberAt b i w) = (b.drop i).take w := by
  have back := leBytes_ofLe ((b.drop i).take w)
  rwa [length_take_of_le (by rw [length_drop]; omega)] at back

/-- What passes the checks of a header is the frame of its body. -/
theorem frame_of_checks {body : Bytes}
    (split : b.take headerLen ++ body = b.take (headerLen + numberAt b 8 4))
    (size : body.length = numberAt b 8 4) (long : headerLen ≤ b.length)
    (magic : b.take 8 = frameMagic) (check : notU32 (numberAt b 8 4) = numberAt b 12 4)
    (digest : xxh3.digest (b.take 24 ++ body) = numberAt b 24 8) :
    frame xxh3 (numberAt b 16 8) body = b.take (headerLen + numberAt b 8 4) := by
  unfold headerLen at long
  have head : frameHead (numberAt b 16 8) body = b.take 24 := by
    rw [frameHead, size, check, leBytes_numberAt (by omega), leBytes_numberAt (by omega),
      leBytes_numberAt (by omega), ← magic, ← take_add, ← take_add, ← take_add]
  rw [frame, head, digest, leBytes_numberAt (by omega), ← take_add]
  exact split

theorem written_of_decodeFrames (ok : decodeFrames xxh3 decode b = .ok out) :
    ∃ l records, Framed l ∧ b = written xxh3 l ∧
    Forall₂ (fun e record => decode e.2 = .ok record) l records ∧ out = stamp l records := by
  fun_induction decodeFrames xxh3 decode b generalizing out with
  | case1 b empty =>
    cases ok
    exact ⟨[], [], forall_mem_nil _, isEmpty_iff.mp empty, .nil, rfl⟩
  | case7 =>
    rename_i b _ long magic check stop whole body digest ih
    obtain ⟨record, here, ok⟩ := bind_ok ok
    obtain ⟨_, later, ok⟩ := bind_ok ok
    cases ok
    obtain ⟨l, records, framed, data, each, rfl⟩ := ih later
    rw [not_or, not_not, not_lt] at check
    have size : body.length = numberAt b 8 4 := by
      rw [length_drop, length_take_of_le (not_lt.mp whole), Nat.add_sub_cancel_left]
    have split := take_append_drop headerLen (b.take stop)
    rw [take_take, Nat.min_eq_left (Nat.le_add_right _ _)] at split
    have first := frame_of_checks split size (not_lt.mp long) (not_not.mp magic) check.1
      (not_not.mp digest)
    refine ⟨(numberAt b 16 8, body) :: l, record :: records, forall_mem_cons.mpr
      ⟨⟨?_, size.trans_le check.2⟩, framed⟩, ?_,
      .cons here each, rfl⟩
    · exact (ofLe_lt _).trans_le (Nat.pow_le_pow_right (by decide) (length_take_le _ _))
    · rw [written_cons, first, ← data, take_append_drop]
  | _ => cases ok

/-- The decoder accepts the frames that can be written and whose records can be read, and nothing
else. -/
theorem decode_accepts_frames :
    decodeInPlace xxh3 decode b 0 = .ok out ↔ ∃ l records, Framed l ∧ b = written xxh3 l ∧
    Forall₂ (fun e record => decode e.2 = .ok record) l records ∧ out = stamp l records := by
  rw [decodeInPlace_eq, drop_zero]
  constructor
  · exact written_of_decodeFrames
  · rintro ⟨l, records, framed, rfl, decoded, rfl⟩
    exact decodeFrames_written xxh3 framed decoded

end Accepted

end Talon.Journal
