import Mathlib.Data.List.Infix
import Talon.Lib.Fallible
import Talon.Lib.Wire

/-!
# Frames of the journal and their replay

`frame.rs` and `replay.rs`.  A file is read in batches of frames; the checksums and the records of a
batch are decoded before any of them is visited.  The decoder threads of the source work on whole
batches and their results are taken in file order, so the loop here is the one of the caller.

`read_frames` says what reading a file of whole frames with a torn tail does: every whole frame is
visited, in order, and the position returned is their end.
-/

set_option autoImplicit false

namespace Talon.Journal

open Wire List Nat
open Fallible (bind_ok)

/-- The checksum `xxh3_64`, of which only its width matters. -/
structure Hash where
  digest : Bytes → Nat
  fits : ∀ b, digest b < 2 ^ 64

def zeroHash : Hash := ⟨fun _ => 0, fun _ => by decide⟩

/-! ## One frame -/

/-- `b"TLNJRN01"` -/
def frameMagic : Bytes := [84, 76, 78, 74, 82, 78, 48, 49]

def headerLen : Nat := 32

def maxRecord : Nat := 16 <<< 20

def notU32 (n : Nat) : Nat := 2 ^ 32 - 1 - n

variable (xxh3 : Hash)

def frameHead (lsn : Nat) (body : Bytes) : Bytes :=
  frameMagic ++ leBytes 4 body.length ++ leBytes 4 (notU32 body.length) ++ leBytes 8 lsn

def frame (lsn : Nat) (body : Bytes) : Bytes :=
  frameHead lsn body ++ leBytes 8 (xxh3.digest (frameHead lsn body ++ body)) ++ body

def encodeFrame (lsn : Nat) (body : Bytes) : Result Bytes :=
  if body.length > maxRecord then .error "journal frame too large" else .ok (frame xxh3 lsn body)

def numberAt (b : Bytes) (i w : Nat) : Nat := ofLe ((b.drop i).take w)

/-- `frame::decode`: the frames of a batch, with their records. -/
def decodeFrames {T : Type} (decode : Bytes → Result T) (b : Bytes) : Result (List (Nat × T)) :=
  if b.isEmpty then .ok []
  else if b.length < headerLen then .error "truncated journal header"
  else if b.take 8 ≠ frameMagic then .error "unsupported journal format"
  else if notU32 (numberAt b 8 4) ≠ numberAt b 12 4 ∨ numberAt b 8 4 > maxRecord then
    .error "journal frame length"
  else
    let stop := headerLen + numberAt b 8 4
    if stop > b.length then .error "truncated journal body"
    else
      let body := (b.take stop).drop headerLen
      if xxh3.digest (b.take 24 ++ body) ≠ numberAt b 24 8 then .error "journal frame checksum"
      else do
        let record ← decode body
        let rest ← decodeFrames decode (b.drop stop)
        return (numberAt b 16 8, record) :: rest
termination_by b.length
decreasing_by
  rw [List.length_drop]
  unfold stop headerLen at *
  omega

/-! ## Replay -/

def batchBytes : Nat := 512 * 1024

def batchRecords : Nat := 1024

/-- The size of the next frame's body, or `none` at a torn tail. -/
def frameSize (tailOk : Bool) (rest : Bytes) : Result (Option Nat) :=
  if rest.length < headerLen then
    if tailOk then .ok none else .error "truncated journal header"
  else if rest.take 8 ≠ frameMagic then .error "unsupported/corrupt journal format"
  else if notU32 (numberAt rest 8 4) ≠ numberAt rest 12 4 then
    .error "journal frame length checksum mismatch"
  else if numberAt rest 8 4 > maxRecord then .error "invalid journal frame length"
  else if rest.length - headerLen < numberAt rest 8 4 then
    if tailOk then .ok none else .error "truncated journal body"
  else .ok (some (numberAt rest 8 4))

structure Frames where
  rest : Bytes
  finished : Bool
deriving DecidableEq

/-- `Frames::next`: add frames to the batch `bytes`, which has `records` frames already. -/
def Frames.next (tailOk : Bool) (rest bytes : Bytes) (records : Nat) : Result (Bytes × Frames) :=
  if rest.isEmpty ∨ ¬ records < batchRecords then .ok (bytes, ⟨rest, false⟩)
  else
    match frameSize tailOk rest with
    | .error e => .error e
    | .ok none => .ok (bytes, ⟨rest, true⟩)
    | .ok (some size) =>
      -- one oversized frame may exceed the target, so an empty batch takes it
      if ¬ bytes.isEmpty ∧ bytes.length + headerLen + size > batchBytes then
        .ok (bytes, ⟨rest, false⟩)
      else
        Frames.next tailOk (rest.drop (headerLen + size)) (bytes ++ rest.take (headerLen + size))
          (records + 1)
termination_by rest.length
decreasing_by
  rename_i more _
  have some : rest ≠ [] := fun nil => more (.inl (List.isEmpty_iff.mpr nil))
  have positive := List.length_pos_iff.mpr some
  rw [List.length_drop]
  unfold headerLen
  omega

variable {rest : Bytes}

theorem Frames.next_length {tailOk : Bool} {bytes batch : Bytes} {records : Nat} {next : Frames}
    (h : Frames.next tailOk rest bytes records = .ok (batch, next)) :
    batch.length + next.rest.length = bytes.length + rest.length := by
  fun_induction Frames.next tailOk rest bytes records with
  | case1 | case3 | case4 =>
    cases h
    rfl
  | case2 => cases h
  | case5 _ _ _ _ _ _ _ ih =>
    rw [ih h, length_append, length_take, length_drop]
    omega

/-- `replay::read` from a position on. -/
def readFrom {T σ : Type} (tailOk : Bool) (decode : Bytes → Result T)
    (visit : σ → Nat → T → Result σ) (frames : Frames) (position : Nat) (s : σ) :
    Result (Nat × σ) :=
  if frames.finished then .ok (position, s)
  else
    match _taken : Frames.next tailOk frames.rest [] 0 with
    | .error e => .error e
    | .ok (batch, next) =>
      if batch.isEmpty then .ok (position, s)
      else do
        let records ← decodeFrames xxh3 decode batch
        let s ← records.foldlM (fun s r => visit s r.1 r.2) s
        readFrom tailOk decode visit next (position + batch.length) s
termination_by frames.rest.length
decreasing_by
  rename_i nonempty
  have lengths := Frames.next_length _taken
  have some : batch ≠ [] := fun nil => nonempty (List.isEmpty_iff.mpr nil)
  have positive := List.length_pos_iff.mpr some
  rw [List.length_nil] at lengths
  omega

/-- `replay::read`: the end of the last complete frame and what the visitor made of the records. -/
def read {T σ : Type} (tailOk : Bool) (decode : Bytes → Result T)
    (visit : σ → Nat → T → Result σ) (file : Bytes) (s : σ) : Result (Nat × σ) :=
  readFrom xxh3 tailOk decode visit ⟨file, false⟩ 0 s

/-! ## What reading a file does -/

/-- The frames of consecutive records, the first of them numbered `first + 1`. -/
def frames : Nat → List Bytes → Bytes
  | _, [] => []
  | first, body :: bodies => frame xxh3 (first + 1) body ++ frames (first + 1) bodies

/-- Records with their numbers, the first of them `first + 1`. -/
def number {T : Type} : Nat → List T → List (Nat × T)
  | _, [] => []
  | first, record :: records => (first + 1, record) :: number (first + 1) records

/-- A proper prefix of some frame. -/
def Torn (torn : Bytes) : Prop :=
  ∃ (lsn : Nat) (body missing : Bytes),
    lsn < 2 ^ 64 ∧ body.length ≤ maxRecord ∧ missing ≠ [] ∧ torn ++ missing = frame xxh3 lsn body

section Spec

variable {xxh3 : Hash}

@[simp]
theorem length_frameHead (lsn : Nat) (body : Bytes) : (frameHead lsn body).length = 24 := by
  simp [frameHead, frameMagic]

variable (xxh3) in
theorem length_frame (lsn : Nat) (body : Bytes) :
    (frame xxh3 lsn body).length = headerLen + body.length := by
  simp only [frame, length_append, length_frameHead, length_leBytes, headerLen]

variable (xxh3) in
theorem frames_append (first : Nat) (front back : List Bytes) :
    frames xxh3 first (front ++ back) =
      frames xxh3 first front ++ frames xxh3 (first + front.length) back := by
  induction front generalizing first with
  | nil => rfl
  | cons _ _ ih =>
    rw [cons_append, frames, frames, ih, append_assoc, length_cons,
      add_assoc, add_comm 1]

variable {T σ : Type} {body torn : Bytes} {l : List (Nat × Bytes)} {decode : Bytes → Result T}
    {records : List T} {tailOk : Bool} {visit : σ → Nat → T → Result σ} {first : Nat}
    {bodies : List Bytes}

theorem number_append (first : Nat) (front back : List T) :
    number first (front ++ back) = number first front ++ number (first + front.length) back := by
  induction front generalizing first with
  | nil => rfl
  | cons _ _ ih =>
    rw [cons_append, number, number, ih, cons_append, length_cons,
      add_assoc, add_comm 1]

theorem numberAt_left {a b : Bytes} {i w : Nat} (inside : i + w ≤ a.length) :
    numberAt (a ++ b) i w = numberAt a i w := by
  unfold numberAt
  rw [drop_append_of_le_length (by omega),
    take_append_of_le_length (by rw [length_drop]; omega)]

theorem numberAt_append {i w n : Nat} {front : Bytes} (skip : front.length = i)
    (small : n < 256 ^ w) : numberAt (front ++ (leBytes w n ++ rest)) i w = n := by
  unfold numberAt
  rw [drop_left' skip, take_left' (length_leBytes w n), ofLe_leBytes small]

structure Header (xxh3 : Hash) (number : Nat) (body b : Bytes) : Prop where
  magic : b.take 8 = frameMagic
  size : numberAt b 8 4 = body.length
  check : numberAt b 12 4 = notU32 body.length
  lsn : numberAt b 16 8 = number
  digest : numberAt b 24 8 = xxh3.digest (frameHead number body ++ body)
  head : b.take 24 = frameHead number body

variable (xxh3) in
theorem numberAt_size (lsn : Nat) (small : body.length ≤ maxRecord) (rest : Bytes) :
    numberAt (frame xxh3 lsn body ++ rest) 8 4 = body.length := by
  unfold maxRecord at small
  simp only [frame, frameHead, append_assoc]
  exact numberAt_append rfl (by omega)

variable {lsn : Nat}

variable (xxh3) in
theorem header_frame (small : body.length ≤ maxRecord) (fits : lsn < 2 ^ 64)
    (rest : Bytes) : Header xxh3 lsn body (frame xxh3 lsn body ++ rest) := by
  have size := numberAt_size xxh3 lsn small rest
  have digestFits := xxh3.fits (frameHead lsn body ++ body)
  have whole : frame xxh3 lsn body ++ rest = frameMagic ++ (leBytes 4 body.length ++
      (leBytes 4 (notU32 body.length) ++ (leBytes 8 lsn ++
        (leBytes 8 (xxh3.digest (frameHead lsn body ++ body)) ++ (body ++ rest))))) := by
    simp [frame, frameHead, append_assoc]
  constructor
  · rw [whole]
    exact take_left' rfl
  · exact size
  · rw [whole, ← append_assoc]
    exact numberAt_append (by simp [frameMagic]) (by unfold notU32; omega)
  · rw [whole, ← append_assoc, ← append_assoc]
    exact numberAt_append (by simp [frameMagic]) (by omega)
  · rw [whole, ← append_assoc, ← append_assoc, ← append_assoc]
    exact numberAt_append (by simp [frameMagic]) (by omega)
  · rw [frame, append_assoc, append_assoc]
    exact take_left' (length_frameHead lsn body)

theorem frameSize_frame (tailOk : Bool) (small : body.length ≤ maxRecord) (fits : lsn < 2 ^ 64)
    (rest : Bytes) : frameSize tailOk (frame xxh3 lsn body ++ rest) = .ok (some body.length) := by
  have header := header_frame xxh3 small fits rest
  have length : (frame xxh3 lsn body ++ rest).length = headerLen + body.length + rest.length := by
    rw [length_append, length_frame]
  rw [frameSize, if_neg (by omega), if_neg (not_not.mpr header.magic), header.size, header.check,
    if_neg (not_not.mpr rfl), if_neg (by omega), if_neg (by omega)]

theorem Torn.frameSize (h : Torn xxh3 torn) : frameSize true torn = .ok none := by
  obtain ⟨_, _, _, fits, small, some, whole⟩ := h
  have positive := length_pos_iff.mpr some
  have lengths := congrArg length whole
  rw [length_append, length_frame] at lengths
  by_cases short : torn.length < headerLen
  · rw [Journal.frameSize, if_pos short]
    rfl
  · have header := header_frame xxh3 small fits []
    unfold headerLen at short lengths
    rw [append_nil, ← whole] at header
    have size := header.size
    have check := header.check
    have magic := header.magic
    rw [numberAt_left (by omega)] at size check
    rw [take_append_of_le_length (by omega)] at magic
    unfold Journal.frameSize headerLen
    rw [if_neg short, if_neg (not_not.mpr magic), size, check, if_neg (not_not.mpr rfl),
      if_neg (by omega), if_pos (by omega)]
    rfl

def Framed (l : List (Nat × Bytes)) : Prop := ∀ e ∈ l, e.1 < 2 ^ 64 ∧ e.2.length ≤ maxRecord

def stamp {T : Type} (l : List (Nat × Bytes)) (records : List T) : List (Nat × T) :=
  List.zipWith (fun e record => (e.1, record)) l records

variable (xxh3) in
def written (l : List (Nat × Bytes)) : Bytes := l.flatMap fun e => frame xxh3 e.1 e.2

theorem written_cons (e : Nat × Bytes) (l : List (Nat × Bytes)) :
    written xxh3 (e :: l) = frame xxh3 e.1 e.2 ++ written xxh3 l := rfl

variable (xxh3) in
theorem written_take_drop (l : List (Nat × Bytes)) (k : Nat) :
    written xxh3 l = written xxh3 (l.take k) ++ written xxh3 (l.drop k) :=
  (congrArg (written xxh3) (take_append_drop k l)).symm.trans flatMap_append

theorem frame_ne_nil (lsn : Nat) (body : Bytes) : frame xxh3 lsn body ≠ [] := by
  intro nil
  have length := congrArg length nil
  rw [length_frame, headerLen, length_nil] at length
  omega

theorem Framed.take (h : Framed l) (k : Nat) : Framed (l.take k) :=
  fun e mem => h e (mem_of_mem_take mem)

theorem Framed.drop (h : Framed l) (k : Nat) : Framed (l.drop k) :=
  fun e mem => h e (mem_of_mem_drop mem)

theorem decodeFrames_frame (decode : Bytes → Result T) (fits : lsn < 2 ^ 64)
    (small : body.length ≤ maxRecord) (rest : Bytes) :
    decodeFrames xxh3 decode (frame xxh3 lsn body ++ rest) =
      decode body >>= fun record =>
        decodeFrames xxh3 decode rest >>= fun records => .ok ((lsn, record) :: records) := by
  have header := header_frame xxh3 small fits rest
  have length : (frame xxh3 lsn body ++ rest).length = headerLen + body.length + rest.length := by
    rw [length_append, length_frame]
  have stop : (frame xxh3 lsn body).length = headerLen + body.length := length_frame ..
  have nonempty : ¬ (frame xxh3 lsn body ++ rest).isEmpty = true := by
    rw [List.isEmpty_iff]
    exact append_ne_nil_of_left_ne_nil (frame_ne_nil lsn body) _
  have bodyIs :
      ((frame xxh3 lsn body ++ rest).take (headerLen + body.length)).drop headerLen = body := by
    rw [take_left' stop, frame]
    exact drop_left' (by simp [headerLen])
  rw [decodeFrames, if_neg nonempty, if_neg (by omega), if_neg (not_not.mpr header.magic),
    header.size, header.check, if_neg (by omega)]
  rw [if_neg (by omega), bodyIs, header.head, header.digest, if_neg (not_not.mpr rfl),
    drop_left' stop, header.lsn]
  rfl

variable (xxh3) in
theorem decodeFrames_written (framed : Framed l)
    (decoded : List.Forall₂ (fun e record => decode e.2 = .ok record) l records) :
    decodeFrames xxh3 decode (written xxh3 l) = .ok (stamp l records) := by
  induction decoded with
  | nil =>
    rw [written, flatMap_nil, decodeFrames]
    rfl
  | @cons e _ l _ here _ ih =>
    obtain ⟨fits, small⟩ := framed e mem_cons_self
    rw [written_cons, decodeFrames_frame decode fits small, here, ok_bind,
      ih fun e' mem => framed e' (mem_cons_of_mem _ mem), ok_bind]
    rfl

theorem decodeFrames_ok (framed : Framed l) {out : List (Nat × T)}
    (ok : decodeFrames xxh3 decode (written xxh3 l) = .ok out) :
    ∃ records, List.Forall₂ (fun e record => decode e.2 = .ok record) l records := by
  induction l generalizing out with
  | nil => exact ⟨[], .nil⟩
  | cons e l ih =>
    obtain ⟨fits, small⟩ := framed e mem_cons_self
    rw [written_cons, decodeFrames_frame decode fits small] at ok
    obtain ⟨record, here, ok⟩ := bind_ok ok
    obtain ⟨_, later, -⟩ := bind_ok ok
    obtain ⟨records, each⟩ := ih (fun e' mem => framed e' (mem_cons_of_mem _ mem)) later
    exact ⟨record :: records, .cons here each⟩

theorem next_written (tail : (tailOk = true ∧ Torn xxh3 torn) ∨ torn = []) (framed : Framed l)
    (bytes : Bytes) (records : Nat) :
    ∃ (k : Nat) (finished : Bool), k ≤ l.length ∧
      Frames.next tailOk (written xxh3 l ++ torn) bytes records =
          .ok (bytes ++ written xxh3 (l.take k), ⟨written xxh3 (l.drop k) ++ torn, finished⟩) ∧
        (finished = true → l.drop k = []) ∧
        (bytes = [] → records < batchRecords → l ≠ [] → 0 < k) := by
  induction l generalizing bytes records with
  | nil =>
    rw [written, flatMap_nil, nil_append, Frames.next]
    split
    · exact ⟨0, false, zero_le _, by simp [written], Bool.noConfusion, fun _ _ no => absurd rfl no⟩
    · rename_i more
      rcases tail with ⟨rfl, cut⟩ | nil
      · rw [cut.frameSize]
        exact ⟨0, true, zero_le _, by simp [written], fun _ => rfl, fun _ _ no => absurd rfl no⟩
      · exact absurd (.inl (isEmpty_iff.mpr nil)) more
  | cons e l ih =>
    obtain ⟨fits, small⟩ := framed e mem_cons_self
    have length := length_frame xxh3 e.1 e.2
    rw [written_cons, append_assoc, Frames.next]
    split
    · rename_i stop
      refine ⟨0, false, zero_le _, by simp [written], Bool.noConfusion, fun _ low _ => ?_⟩
      rcases stop with empty | full
      · exact absurd (isEmpty_iff.mp empty)
          (append_ne_nil_of_left_ne_nil (frame_ne_nil e.1 e.2) _)
      · exact absurd low full
    · rw [frameSize_frame tailOk small fits]
      dsimp only
      split
      · rename_i full
        refine ⟨0, false, zero_le _, by simp [written], Bool.noConfusion, fun nil _ _ => ?_⟩
        exact absurd (isEmpty_iff.mpr nil) full.1
      · rw [drop_left' length, take_left' length]
        obtain ⟨k, finished, few, taken, last, -⟩ :=
          ih (fun e' mem => framed e' (mem_cons_of_mem _ mem)) (bytes ++ frame xxh3 e.1 e.2)
            (records + 1)
        refine ⟨k + 1, finished, succ_le_succ few, ?_, last, fun _ _ _ => succ_pos k⟩
        rw [taken, append_assoc, take_succ_cons, drop_succ_cons, written_cons]

theorem readFrom_next {batch : Bytes} {next : Frames}
    (taken : Frames.next tailOk rest [] 0 = .ok (batch, next)) (position : Nat) (s : σ) :
    readFrom xxh3 tailOk decode visit ⟨rest, false⟩ position s =
      if batch.isEmpty then .ok (position, s)
      else
        decodeFrames xxh3 decode batch >>= fun records =>
          records.foldlM (fun s r => visit s r.1 r.2) s >>= fun s =>
            readFrom xxh3 tailOk decode visit next (position + batch.length) s := by
  rw [readFrom]
  simp only [Bool.false_eq_true, ↓reduceIte]
  split
  · rename_i failed
    rw [taken] at failed
    cases failed
  · rename_i same
    rw [taken] at same
    cases same
    rfl

theorem readFrom_finished (position : Nat) (s : σ) :
    readFrom xxh3 tailOk decode visit ⟨rest, true⟩ position s = .ok (position, s) := by
  rw [readFrom]
  rfl

section

variable (tail : (tailOk = true ∧ Torn xxh3 torn) ∨ torn = [])
include tail

theorem readFrom_torn (visit : σ → Nat → T → Result σ) (position : Nat) (s : σ) :
    readFrom xxh3 tailOk decode visit ⟨torn, false⟩ position s = .ok (position, s) := by
  obtain ⟨k, _, -, taken, -, -⟩ := next_written tail (forall_mem_nil _) [] 0
  rw [take_nil, drop_nil, written, flatMap_nil, nil_append, append_nil] at taken
  rw [readFrom_next taken]
  rfl

theorem readFrom_written_cons (decode : Bytes → Result T) (visit : σ → Nat → T → Result σ)
    (framed : Framed l) (some_ : l ≠ []) (position : Nat) (s : σ) :
    ∃ k, 0 < k ∧ k ≤ l.length ∧
      readFrom xxh3 tailOk decode visit ⟨written xxh3 l ++ torn, false⟩ position s =
        decodeFrames xxh3 decode (written xxh3 (l.take k)) >>= fun records =>
          records.foldlM (fun s r => visit s r.1 r.2) s >>= fun s =>
            readFrom xxh3 tailOk decode visit ⟨written xxh3 (l.drop k) ++ torn, false⟩
              (position + (written xxh3 (l.take k)).length) s := by
  obtain ⟨k, finished, few, taken, last, grows⟩ := next_written tail framed [] 0
  have positive := grows rfl (by decide) some_
  have nonempty : ¬ (written xxh3 (l.take k)).isEmpty = true := by
    obtain ⟨e, _, rfl⟩ := exists_cons_of_ne_nil some_
    obtain ⟨j, rfl⟩ := Nat.exists_eq_add_of_lt positive
    rw [zero_add, List.take_succ_cons, written_cons, List.isEmpty_iff]
    exact append_ne_nil_of_left_ne_nil (frame_ne_nil e.1 e.2) _
  refine ⟨k, positive, few, ?_⟩
  rw [readFrom_next taken, nil_append, if_neg nonempty]
  cases finished with
  | false => rfl
  | true =>
    -- nothing is left, and reading it again would stop at once
    rw [last rfl]
    simp [readFrom_finished, written, flatMap_nil, nil_append, readFrom_torn tail]

theorem readFrom_written (visit : σ → Nat → T → Result σ) (framed : Framed l)
    (decoded : List.Forall₂ (fun e record => decode e.2 = .ok record) l records) (position : Nat)
    (s : σ) :
    readFrom xxh3 tailOk decode visit ⟨written xxh3 l ++ torn, false⟩ position s =
      ((stamp l records).foldlM (fun s r => visit s r.1 r.2) s).map
        fun s => (position + (written xxh3 l).length, s) := by
  induction short : l.length using Nat.strong_induction_on generalizing l records position s with
  | _ n ih =>
    by_cases nil : l = []
    · subst nil
      cases decoded
      exact readFrom_torn tail visit position s
    obtain ⟨k, _, _, reading⟩ := readFrom_written_cons tail decode visit framed nil position s
    have front := decodeFrames_written xxh3 (framed.take k) (forall₂_take k decoded)
    have back := forall₂_drop k decoded
    have split : stamp l records = stamp (l.take k) (records.take k) ++ stamp (l.drop k)
        (records.drop k) := by
      unfold stamp
      rw [← zipWith_append (by rw [length_take, length_take, decoded.length_eq]),
        take_append_drop, take_append_drop]
    have lengths := congrArg length (written_take_drop xxh3 l k)
    rw [length_append] at lengths
    rw [reading, front, ok_bind, split, foldlM_append, lengths]
    cases (stamp (l.take k) (records.take k)).foldlM (fun s r => visit s r.1 r.2) s with
    | error => rfl
    | ok =>
      rw [ok_bind, ok_bind, ← add_assoc]
      exact ih _ (by rw [length_drop]; omega) (framed.drop k) back _ _ rfl

theorem readFrom_written_ok (framed : Framed l) {position : Nat} {s : σ} {out : Nat × σ}
    (ok : readFrom xxh3 tailOk decode visit ⟨written xxh3 l ++ torn, false⟩ position s = .ok out) :
    ∃ records, List.Forall₂ (fun e record => decode e.2 = .ok record) l records := by
  induction short : l.length using Nat.strong_induction_on generalizing l position s with
  | _ n ih =>
    by_cases nil : l = []
    · subst nil
      exact ⟨[], .nil⟩
    obtain ⟨k, _, _, reading⟩ := readFrom_written_cons tail decode visit framed nil
      position s
    rw [reading] at ok
    obtain ⟨_, front, ok⟩ := bind_ok ok
    obtain ⟨_, -, ok⟩ := bind_ok ok
    obtain ⟨first, each⟩ := decodeFrames_ok (framed.take k) front
    obtain ⟨rest, each'⟩ := ih _ (by rw [length_drop]; omega) (framed.drop k) ok rfl
    refine ⟨first ++ rest, ?_⟩
    have all : List.Forall₂ _ (l.take k ++ l.drop k) (first ++ rest) := rel_append each each'
    rwa [take_append_drop] at all

end

theorem torn_nil : Torn xxh3 [] := by
  refine ⟨0, [], frame xxh3 0 [], by decide, by decide, ?_, rfl⟩
  rw [← length_pos_iff, length_frame]
  decide

theorem written_of_prefix (framed : Framed l) {left : Bytes} (part : left <+: written xxh3 l) :
    ∃ k ≤ l.length, ∃ torn, left = written xxh3 (l.take k) ++ torn ∧ Torn xxh3 torn ∧
      ∀ j ≤ l.length, written xxh3 (l.take j) <+: left → j ≤ k := by
  induction l generalizing left with
  | nil =>
    rw [written, flatMap_nil, prefix_nil] at part
    exact ⟨0, le_refl _, [], by rw [part]; rfl, torn_nil, fun j few _ => few⟩
  | cons e l ih =>
    obtain ⟨fits, small⟩ := framed e mem_cons_self
    rw [written_cons] at part
    by_cases short : left.length < (frame xxh3 e.1 e.2).length
    · obtain ⟨missing, whole⟩ :=
        prefix_of_prefix_length_le part (prefix_append _ _) (le_of_lt short)
      have some : missing ≠ [] := by
        intro nil
        rw [nil, append_nil] at whole
        rw [whole] at short
        omega
      refine ⟨0, zero_le _, left, rfl, ⟨e.1, e.2, missing, fits, small, some, whole⟩, ?_⟩
      intro j _ inside
      cases j with
      | zero => exact le_refl _
      | succ =>
        have long := inside.length_le
        rw [take_succ_cons, written_cons, length_append] at long
        omega
    · obtain ⟨_, rfl⟩ : frame xxh3 e.1 e.2 <+: left :=
        prefix_of_prefix_length_le (prefix_append _ _) part (by omega)
      obtain ⟨k, few, torn, rfl, cut, most⟩ := ih (fun e' mem => framed e' (mem_cons_of_mem _ mem))
        ((prefix_append_right_inj _).mp part)
      refine ⟨k + 1, succ_le_succ few, torn, ?_, cut, ?_⟩
      · rw [take_succ_cons, written_cons, append_assoc]
      · intro j fewer inside
        cases j with
        | zero => exact zero_le _
        | succ j =>
          rw [take_succ_cons, written_cons] at inside
          exact succ_le_succ (most j (le_of_succ_le_succ fewer)
            ((prefix_append_right_inj _).mp inside))

/-! ### Consecutive numbers -/

structure Numbered (first : Nat) (bodies : List Bytes) : Prop where
  small : ∀ body ∈ bodies, body.length ≤ maxRecord
  fits : first + bodies.length < 2 ^ 64

theorem Numbered.tail (h : Numbered first (body :: bodies)) : Numbered (first + 1) bodies where
  small := fun b mem => h.small b (mem_cons_of_mem _ mem)
  fits := by
    have := h.fits
    rw [length_cons] at this
    omega

theorem Numbered.framed (h : Numbered first bodies) : Framed (number first bodies) := by
  induction bodies generalizing first with
  | nil => exact forall_mem_nil _
  | cons body _ ih =>
    have fits := h.fits
    rw [length_cons] at fits
    intro e mem
    rcases mem_cons.mp mem with rfl | later
    · exact ⟨by dsimp only; omega, h.small body mem_cons_self⟩
    · exact ih h.tail e later

variable (xxh3) in
theorem frames_eq (first : Nat) (bodies : List Bytes) :
    frames xxh3 first bodies = written xxh3 (number first bodies) := by
  induction bodies generalizing first with
  | nil => rfl
  | cons _ _ ih => rw [frames, number, written_cons, ih]

theorem length_number (first : Nat) (l : List T) : (number first l).length = l.length := by
  induction l generalizing first with
  | nil => rfl
  | cons x l ih => rw [number, length_cons, length_cons, ih]

theorem take_number (first k : Nat) (l : List T) :
    (number first l).take k = number first (l.take k) := by
  induction l generalizing first k with
  | nil => rw [take_nil, number, take_nil]
  | cons x l ih =>
    cases k with
    | zero => rfl
    | succ => rw [number, take_succ_cons, take_succ_cons, number, ih]

theorem stamp_number (same : bodies.length = records.length) :
    stamp (number first bodies) records = number first records := by
  induction bodies generalizing first records with
  | nil =>
    cases records with
    | nil => rfl
    | cons => cases same
  | cons _ _ ih =>
    cases records with
    | nil => cases same
    | cons =>
      rw [number, number, ← ih (succ.inj same)]
      rfl

theorem forall₂_number :
    List.Forall₂ (fun e record => decode e.2 = .ok record) (number first bodies) records ↔
      List.Forall₂ (fun body record => decode body = .ok record) bodies records := by
  induction bodies generalizing first records with
  | nil => simp [number]
  | cons _ _ ih => simp [number, forall₂_cons_left_iff, ih]

theorem read_frames (tail : (tailOk = true ∧ Torn xxh3 torn) ∨ torn = [])
    (visit : σ → Nat → T → Result σ) (numbered : Numbered first bodies)
    (decoded : List.Forall₂ (fun body record => decode body = .ok record) bodies records) (s : σ) :
    read xxh3 tailOk decode visit (frames xxh3 first bodies ++ torn) s =
      ((number first records).foldlM (fun s r => visit s r.1 r.2) s).map
        fun s => ((frames xxh3 first bodies).length, s) := by
  have whole := readFrom_written tail visit numbered.framed (forall₂_number.mpr decoded) 0 s
  rw [stamp_number decoded.length_eq, ← frames_eq, zero_add] at whole
  exact whole

end Spec

end Talon.Journal
