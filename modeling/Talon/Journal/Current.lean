import Talon.Journal.Frame

/-!
# The manifest of a journal

`Current` of `disk.rs`: which snapshot and which logs make up the journal, and which files are left
over.  `decode_encode` says that a valid manifest is read back as it was written.
-/

set_option autoImplicit false

namespace Talon.Journal

open Wire List

/-- `b"TLNJCU01"` -/
def currentMagic : Bytes := [84, 76, 78, 74, 67, 85, 48, 49]

def maxGenerations : Nat := 64

/-- In `garbage`, `true` marks a snapshot and `false` a log. -/
structure Current where
  snapshot : Nat
  lsn : Nat
  bytes : Nat
  records : Nat
  logs : List Nat
  garbage : List (Bool × Nat)
  pending : Nat
deriving DecidableEq

variable {c : Current}

namespace Current

def numbers (ns : List Nat) : Bytes := ns.flatMap (leBytes 8)

def files (garbage : List (Bool × Nat)) : Bytes :=
  garbage.flatMap fun f => leBytes 8 (if f.1 then 1 else 0) ++ leBytes 8 f.2

def body (c : Current) : Bytes :=
  currentMagic ++ (numbers [c.snapshot, c.lsn, c.bytes, c.records, c.pending, c.logs.length,
    c.garbage.length] ++ (numbers c.logs ++ files c.garbage))

variable (xxh3 : Hash)

def encode (c : Current) : Result Bytes :=
  if c.logs.length > maxGenerations ∨ c.garbage.length > maxGenerations * 2 then
    .error "too many journal generations"
  else .ok (c.body ++ leBytes 8 (xxh3.digest c.body))

/-- The `n` of `decode`. -/
def takeNumber (b : Bytes) : Result (Nat × Bytes) :=
  match readLe 8 b with
  | none => .error "truncated CURRENT"
  | some r => .ok r

def takeNumbers : Nat → Bytes → Result (List Nat × Bytes)
  | 0, b => .ok ([], b)
  | count + 1, b => do
    let (n, b) ← takeNumber b
    let (ns, b) ← takeNumbers count b
    return (n :: ns, b)

def takeFiles : Nat → Bytes → Result (List (Bool × Nat) × Bytes)
  | 0, b => .ok ([], b)
  | count + 1, b => do
    let (kind, b) ← takeNumber b
    if kind > 1 then .error "CURRENT file kind"
    else
      let (n, b) ← takeNumber b
      let (fs, b) ← takeFiles count b
      return ((kind == 1, n) :: fs, b)

def consecutive (logs : List Nat) : Bool :=
  (logs.zip logs.tail).all fun p => p.2 == (p.1 + 1) % 2 ^ 64

def recoverySet (c : Current) : Bool :=
  c.snapshot != 0 && c.logs.head? == some c.snapshot && consecutive c.logs &&
    (c.pending == 0 || c.logs.getLast? == some c.pending) &&
    c.garbage.all fun f => !((f.1 && f.2 == c.snapshot) || (!f.1 && c.logs.contains f.2))

def decodeBody (b : Bytes) : Result Current := do
  let (snapshot, b) ← takeNumber b
  let (lsn, b) ← takeNumber b
  let (bytes, b) ← takeNumber b
  let (records, b) ← takeNumber b
  let (pending, b) ← takeNumber b
  let (logs, b) ← takeNumber b
  let (garbage, b) ← takeNumber b
  if logs = 0 ∨ logs > maxGenerations ∨ garbage > 2 * maxGenerations then
    .error "CURRENT generation count"
  else
    let (logs, b) ← takeNumbers logs b
    let (garbage, b) ← takeFiles garbage b
    if ¬ b.isEmpty ∨ ¬ recoverySet ⟨snapshot, lsn, bytes, records, logs, garbage, pending⟩ then
      .error "CURRENT recovery set"
    else .ok ⟨snapshot, lsn, bytes, records, logs, garbage, pending⟩

def decode (b : Bytes) : Result Current :=
  if b.length < 72 ∨ b.take 8 ≠ currentMagic ∨
      xxh3.digest (b.take (b.length - 8)) ≠ ofLe (b.drop (b.length - 8)) then
    .error "journal CURRENT version/checksum"
  else decodeBody ((b.take (b.length - 8)).drop 8)

/-! ## Round trip -/

/-- A manifest that `decode` accepts, with numbers of their machine types. -/
structure Valid (c : Current) : Prop where
  logs : c.logs = List.range' c.snapshot c.logs.length
  some_log : 0 < c.logs.length
  few_logs : c.logs.length ≤ maxGenerations
  few_garbage : c.garbage.length ≤ 2 * maxGenerations
  snapshot : 0 < c.snapshot
  generations : c.snapshot + c.logs.length ≤ 2 ^ 64
  lsn : c.lsn < 2 ^ 64
  bytes : c.bytes < 2 ^ 64
  records : c.records < 2 ^ 64
  pending : c.pending = 0 ∨ c.pending + 1 = c.snapshot + c.logs.length
  garbage : ∀ f ∈ c.garbage, f.2 < c.snapshot

theorem numbers_cons (n : Nat) (ns : List Nat) (rest : Bytes) :
    numbers (n :: ns) ++ rest = leBytes 8 n ++ (numbers ns ++ rest) := by
  rw [numbers, flatMap_cons, append_assoc]
  rfl

theorem takeNumber_leBytes {n : Nat} (fits : n < 2 ^ 64) (rest : Bytes) :
    takeNumber (leBytes 8 n ++ rest) = .ok (n, rest) := by
  rw [takeNumber, readLe_append (by omega)]

theorem takeNumbers_numbers {ns : List Nat} (fits : ∀ n ∈ ns, n < 2 ^ 64) (rest : Bytes) :
    takeNumbers ns.length (numbers ns ++ rest) = .ok (ns, rest) := by
  induction ns with
  | nil => rfl
  | cons n _ ih =>
    rw [length_cons, takeNumbers, numbers_cons,
      takeNumber_leBytes (fits n mem_cons_self), ok_bind]
    dsimp only
    rw [ih fun m mem => fits m (mem_cons_of_mem _ mem)]
    rfl

theorem takeFiles_files {garbage : List (Bool × Nat)} (fits : ∀ f ∈ garbage, f.2 < 2 ^ 64)
    (rest : Bytes) : takeFiles garbage.length (files garbage ++ rest) = .ok (garbage, rest) := by
  induction garbage with
  | nil => rfl
  | cons f garbage ih =>
    obtain ⟨kind, n⟩ := f
    have kindFits : (if kind then 1 else 0) < 2 ^ 64 := by cases kind <;> decide
    have isKind : ¬ (if kind then 1 else 0) > 1 := by cases kind <;> decide
    have back : ((if kind then 1 else 0) == 1) = kind := by cases kind <;> rfl
    rw [length_cons, takeFiles, files, flatMap_cons, append_assoc,
      append_assoc, takeNumber_leBytes kindFits, ok_bind]
    dsimp only
    rw [if_neg isKind, takeNumber_leBytes (fits _ mem_cons_self), ok_bind]
    change (takeFiles garbage.length (files garbage ++ rest) >>= _) = _
    rw [ih fun g mem => fits g (mem_cons_of_mem _ mem), back]
    rfl

theorem consecutive_range' (first count : Nat) (fits : first + count ≤ 2 ^ 64) :
    consecutive (range' first count) = true := by
  unfold consecutive
  induction count generalizing first with
  | zero => rfl
  | succ count ih =>
    cases count with
    | zero => rfl
    | succ =>
      have rest := ih (first + 1) (by omega)
      rw [range'_succ, tail_cons, range'_succ, zip_cons_cons,
        all_cons, Bool.and_eq_true]
      rw [range'_succ, tail_cons] at rest
      refine ⟨?_, rest⟩
      rw [beq_iff_eq, Nat.mod_eq_of_lt (by omega)]

theorem Valid.mem_logs (h : c.Valid) {g : Nat} :
    g ∈ c.logs ↔ c.snapshot ≤ g ∧ g < c.snapshot + c.logs.length := by
  rw [h.logs, mem_range'_1, length_range']

theorem Valid.recoverySet (h : c.Valid) : c.recoverySet = true := by
  obtain ⟨count, length⟩ := Nat.exists_eq_succ_of_ne_zero (Nat.pos_iff_ne_zero.mp h.some_log)
  have logs := h.logs
  rw [length] at logs
  have first : c.logs.head? = some c.snapshot := by
    rw [logs, range'_succ, head?_cons]
  have last : c.logs.getLast? = some (c.snapshot + count) := by
    rw [logs, range'_concat, Nat.one_mul, getLast?_concat]
  have order : consecutive c.logs = true := by
    rw [h.logs]
    exact consecutive_range' _ _ h.generations
  have pending : (c.pending == 0 || c.logs.getLast? == some c.pending) = true := by
    rw [Bool.or_eq_true, beq_iff_eq, beq_iff_eq, last]
    rcases h.pending with none | _
    · exact .inl none
    · refine .inr (congrArg some ?_)
      omega
  have apart : (c.garbage.all fun f =>
      !((f.1 && f.2 == c.snapshot) || (!f.1 && c.logs.contains f.2))) = true := by
    rw [all_eq_true]
    intro f mem
    have old := h.garbage f mem
    have notSnapshot : (f.2 == c.snapshot) = false := by
      rw [beq_eq_false_iff_ne]
      omega
    have notLog : c.logs.contains f.2 = false := by
      rw [← Bool.not_eq_true, contains_iff_mem, h.mem_logs]
      omega
    rw [notSnapshot, notLog]
    cases f.1 <;> rfl
  have positive : (c.snapshot != 0) = true := by
    rw [bne_iff_ne]
    have := h.snapshot
    omega
  unfold Current.recoverySet
  rw [positive, first, order, pending, apart]
  simp

theorem length_numbers (ns : List Nat) : (numbers ns).length = 8 * ns.length := by
  induction ns with
  | nil => rfl
  | cons n ns =>
    rw [numbers, flatMap_cons, length_append, length_leBytes, length_cons]
    change 8 + (numbers ns).length = _
    omega

theorem length_files (garbage : List (Bool × Nat)) :
    (files garbage).length = 16 * garbage.length := by
  induction garbage with
  | nil => rfl
  | cons f garbage =>
    rw [files, flatMap_cons, length_append, length_append, length_leBytes,
      length_leBytes, length_cons]
    change 8 + 8 + (files garbage).length = _
    omega

theorem length_body (c : Current) :
    c.body.length = 64 + 8 * c.logs.length + 16 * c.garbage.length := by
  rw [body, length_append, length_append, length_append, length_numbers,
    length_numbers, length_files]
  simp only [currentMagic, length_cons, length_nil]
  omega

theorem Valid.decodeBody (h : c.Valid) : Current.decodeBody (c.body.drop 8) = .ok c := by
  have generations := h.generations
  have positive := h.some_log
  have few := h.few_logs
  have fewGarbage := h.few_garbage
  have small : c.snapshot < 2 ^ 64 := by omega
  have pending : c.pending < 2 ^ 64 := by
    rcases h.pending with _ | _ <;> omega
  have logs : ∀ g ∈ c.logs, g < 2 ^ 64 := by
    intro g mem
    have := h.mem_logs.mp mem
    omega
  have garbage : ∀ f ∈ c.garbage, f.2 < 2 ^ 64 := fun f mem =>
    Nat.lt_trans (h.garbage f mem) small
  unfold maxGenerations at few fewGarbage
  have counts : ¬ (c.logs.length = 0 ∨ c.logs.length > maxGenerations ∨
      c.garbage.length > 2 * maxGenerations) := by
    unfold maxGenerations
    omega
  have last := takeFiles_files garbage []
  rw [append_nil] at last
  have skip : c.body.drop 8 = numbers [c.snapshot, c.lsn, c.bytes, c.records, c.pending,
      c.logs.length, c.garbage.length] ++ (numbers c.logs ++ files c.garbage) := drop_left' rfl
  rw [skip]
  simp only [Current.decodeBody, numbers_cons, takeNumber_leBytes small, takeNumber_leBytes h.lsn,
    takeNumber_leBytes h.bytes, takeNumber_leBytes h.records, takeNumber_leBytes pending, ok_bind]
  rw [takeNumber_leBytes (by omega), ok_bind]
  rw [takeNumber_leBytes (by omega), ok_bind]
  rw [if_neg counts]
  change (takeNumbers c.logs.length (numbers c.logs ++ files c.garbage) >>= _) = _
  rw [takeNumbers_numbers logs, ok_bind]
  rw [last, ok_bind]
  rw [if_neg]
  simp [h.recoverySet]

theorem Valid.decode_encode (xxh3 : Hash) (h : c.Valid) :
    ∃ b, c.encode xxh3 = .ok b ∧ decode xxh3 b = .ok c ∧ b.length ≤ 65536 := by
  have few := h.few_logs
  have fewGarbage := h.few_garbage
  have length := c.length_body
  unfold maxGenerations at few fewGarbage
  refine ⟨c.body ++ leBytes 8 (xxh3.digest c.body), ?_, ?_, ?_⟩
  · rw [encode, if_neg]
    unfold maxGenerations
    omega
  · have total : (c.body ++ leBytes 8 (xxh3.digest c.body)).length - 8 = c.body.length := by
      rw [length_append, length_leBytes]
      omega
    have magic : (c.body ++ leBytes 8 (xxh3.digest c.body)).take 8 = currentMagic := by
      rw [take_append_of_le_length (by omega), body]
      exact take_left' rfl
    have checksum := xxh3.fits c.body
    rw [decode, total, take_left, drop_left, ofLe_leBytes (by omega), magic, if_neg]
    · exact h.decodeBody
    · rw [length_append, length_leBytes]
      simp only [ne_eq, not_true_eq_false, or_false]
      omega
  · rw [length_append, length_leBytes]
    omega

end Current

end Talon.Journal
