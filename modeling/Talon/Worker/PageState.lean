import Talon.Lib.PackedWord

/-!
# The word of a page

One word arbitrates readers and deletion: a reader count, the reason of an unlink to retry, and the
flags bound, closed and accessed.  `view` is what the arbitration reads of a word; each operation on
words is an operation on views.
-/

set_option autoImplicit false

namespace Talon.Worker

open Nat
open BitVec (getLsbD_and getLsbD_or getLsbD_not)

abbrev PageWord := BitVec 64

namespace PageWord

def readersMask : PageWord := 0xFFFFFFFF#64
def retryMask : PageWord := 3#64 <<< 32
def boundMask : PageWord := 1#64 <<< 61
def closedMask : PageWord := 1#64 <<< 62
def accessedMask : PageWord := 1#64 <<< 63

/-- The word that one attempt of `acquire` writes, if `old` admits a reader. -/
def acquire (old : PageWord) : Option PageWord :=
  if old &&& closedMask ≠ 0#64 ∨ old &&& readersMask = readersMask then none else some (old + 1#64)

def releaseFailed (old : PageWord) : PageWord := old - 1#64

def releaseRead (old : PageWord) : PageWord := ((old - 1#64) &&& ~~~retryMask) ||| accessedMask

def bind (old : PageWord) : PageWord := old ||| boundMask

def markAccessed (old : PageWord) : PageWord := old ||| accessedMask

def takeAccessed (old : PageWord) : PageWord := old &&& ~~~accessedMask

def close (old : PageWord) : PageWord := old ||| closedMask

def reopen (old : PageWord) : PageWord := old &&& ~~~closedMask

/-- A failed unlink for one of the three reasons reopens the page and schedules a retry. -/
def abort (old : PageWord) (reason : Fin 3) : PageWord :=
  (old &&& ~~~(closedMask ||| retryMask)) ||| (BitVec.ofNat 64 (reason.val + 1) <<< 32)

def isClosed (old : PageWord) : Bool := old &&& closedMask != 0#64

def isIdle (old : PageWord) : Bool := old &&& (readersMask ||| closedMask) == 0#64

/-- No reader, not closed, and not read since the last selection. -/
def isClaimable (old : PageWord) : Bool :=
  old &&& (readersMask ||| closedMask ||| accessedMask) == 0#64

structure View where
  readers : Nat
  closed : Bool
  accessed : Bool
deriving DecidableEq

def view (x : PageWord) : View := ⟨PackedWord.count 32 x, x.getLsbD 62, x.getLsbD 63⟩

/-! ## The bits of the masks -/

theorem getLsbD_readersMask (i : Nat) : readersMask.getLsbD i = decide (i < 32) := by
  have mask : readersMask = BitVec.setWidth 64 (BitVec.allOnes 32) := by decide
  rw [mask, BitVec.getLsbD_setWidth, BitVec.getLsbD_allOnes]
  by_cases low : i < 32
  · simp [low, lt_trans low (by decide : 32 < 64)]
  · simp [low]

theorem getLsbD_flag {k : Nat} (size : k < 64) (i : Nat) :
    (1#64 <<< k).getLsbD i = decide (i = k) := by
  rw [BitVec.getLsbD_shiftLeft, BitVec.getLsbD_one]
  by_cases same : i = k
  · simp [same, size]
  · simp only [same, decide_false, Bool.and_eq_false_iff]
    by_cases below : i < k
    · simp [below]
    · right
      simp only [decide_eq_false_iff_not]
      omega

theorem getLsbD_closedMask (i : Nat) : closedMask.getLsbD i = decide (i = 62) :=
  getLsbD_flag (by decide) i

theorem getLsbD_accessedMask (i : Nat) : accessedMask.getLsbD i = decide (i = 63) :=
  getLsbD_flag (by decide) i

theorem getLsbD_boundMask (i : Nat) : boundMask.getLsbD i = decide (i = 61) :=
  getLsbD_flag (by decide) i

theorem getLsbD_retry {x : Nat} (small : x < 4) {i : Nat} (outside : i < 32 ∨ 34 ≤ i) :
    (BitVec.ofNat 64 x <<< 32).getLsbD i = false := by
  rw [BitVec.getLsbD_shiftLeft]
  obtain low | _ := outside
  · simp [low]
  · have zero : (BitVec.ofNat 64 x).getLsbD (i - 32) = false := by
      rw [BitVec.getLsbD_ofNat]
      have big : x < 2 ^ (i - 32) :=
        Nat.lt_of_lt_of_le small (Nat.pow_le_pow_right (by decide : 0 < 2) (by omega : 2 ≤ i - 32))
      simp [testBit_lt_two_pow big]
    simp [zero]

theorem getLsbD_retryMask {i : Nat} (outside : i < 32 ∨ 34 ≤ i) : retryMask.getLsbD i = false :=
  getLsbD_retry (by decide : 3 < 4) outside

/-! ## The tests -/

theorem and_eq_zero_iff (x m : PageWord) :
    x &&& m = 0#64 ↔ ∀ i, m.getLsbD i = true → x.getLsbD i = false := by
  constructor
  · intro zero i set
    have bit := congrArg (BitVec.getLsbD · i) zero
    simpa [set] using bit
  · intro clear
    apply BitVec.eq_of_getLsbD_eq
    intro i _
    rw [getLsbD_and, BitVec.getLsbD_zero]
    cases set : m.getLsbD i with
    | false => simp
    | true => simp [clear i set]

theorem isClosed_eq (x : PageWord) : isClosed x = (view x).closed := by
  have test := and_eq_zero_iff x closedMask
  simp only [getLsbD_closedMask, decide_eq_true_eq, forall_eq] at test
  rw [view, isClosed]
  cases bit : x.getLsbD 62 with
  | false => rw [test.mpr bit, bne_self_eq_false]
  | true =>
    rw [bne_iff_ne]
    intro zero
    rw [test.mp zero] at bit
    cases bit

theorem count_eq_zero_iff (x : PageWord) :
    PackedWord.count 32 x = 0 ↔ ∀ i, i < 32 → x.getLsbD i = false := by
  constructor
  · intro zero i low
    have bit := congrArg (testBit · i) zero
    simp only [PackedWord.count, testBit_mod_two_pow, low, zero_testBit,
      decide_true, Bool.true_and] at bit
    rw [← BitVec.testBit_toNat]
    exact bit
  · intro clear
    rw [PackedWord.count_congr fun i low => (clear i low).trans (BitVec.getLsbD_zero).symm]
    rfl

theorem isIdle_iff (x : PageWord) :
    isIdle x = true ↔ (view x).readers = 0 ∧ (view x).closed = false := by
  rw [isIdle, beq_iff_eq, and_eq_zero_iff, view, count_eq_zero_iff]
  simp only [getLsbD_or, getLsbD_readersMask, getLsbD_closedMask, Bool.or_eq_true,
    decide_eq_true_eq]
  exact ⟨fun clear => ⟨fun i low => clear i (.inl low), clear 62 (.inr rfl)⟩,
    fun ⟨low, high⟩ i set => set.elim (low i) fun eq => eq ▸ high⟩

theorem isClaimable_iff (x : PageWord) : isClaimable x = true ↔ view x = ⟨0, false, false⟩ := by
  rw [isClaimable, beq_iff_eq, and_eq_zero_iff, view, View.mk.injEq, count_eq_zero_iff]
  simp only [getLsbD_or, getLsbD_readersMask, getLsbD_closedMask, getLsbD_accessedMask,
    Bool.or_eq_true, decide_eq_true_eq]
  constructor
  · intro clear
    exact ⟨fun i low => clear i (.inl (.inl low)), clear 62 (.inl (.inr rfl)), clear 63 (.inr rfl)⟩
  · intro ⟨low, closed, accessed⟩ i set
    obtain (inside | rfl) | rfl := set
    · exact low i inside
    · exact closed
    · exact accessed

/-! ## The operations -/

theorem room_of_readers {x : PageWord} (below : x &&& readersMask ≠ readersMask) :
    PackedWord.count 32 x + 1 < 2 ^ 32 := by
  have size : PackedWord.count 32 x < 2 ^ 32 := mod_lt _ (by decide)
  by_contra full
  apply below
  apply BitVec.eq_of_toNat_eq
  have mask : readersMask.toNat = 2 ^ 32 - 1 := by decide
  rw [BitVec.toNat_and, mask, and_two_pow_sub_one_eq_mod]
  rw [PackedWord.count] at full size
  omega

theorem acquire_some {old next : PageWord} (admitted : acquire old = some next) :
    (view old).closed = false ∧
      view next = { view old with readers := (view old).readers + 1 } := by
  unfold acquire at admitted
  split at admitted
  · cases admitted
  · rename_i admits
    obtain ⟨opened, below⟩ := not_or.mp admits
    obtain rfl := Option.some.inj admitted
    have room := room_of_readers below
    refine ⟨?_, ?_⟩
    · rw [← isClosed_eq, isClosed]
      simpa using opened
    · simp only [view, PackedWord.count_add_one (by decide : 32 ≤ 64) room,
        PackedWord.getLsbD_add_one (by decide : 32 ≤ 64) room (by decide : 32 ≤ 62),
        PackedWord.getLsbD_add_one (by decide : 32 ≤ 64) room (by decide : 32 ≤ 63)]

theorem view_releaseFailed {old : PageWord} (positive : 0 < (view old).readers) :
    view (releaseFailed old) = { view old with readers := (view old).readers - 1 } := by
  have count : 0 < PackedWord.count 32 old := positive
  simp only [view, releaseFailed, PackedWord.count_sub_one count,
    PackedWord.getLsbD_sub_one count (by decide : 32 ≤ 62),
    PackedWord.getLsbD_sub_one count (by decide : 32 ≤ 63)]

theorem view_or {x y : PageWord} (above : ∀ i, i < 32 → y.getLsbD i = false) :
    view (x ||| y) = ⟨(view x).readers, (view x).closed || y.getLsbD 62,
      (view x).accessed || y.getLsbD 63⟩ := by
  have count : PackedWord.count 32 (x ||| y) = PackedWord.count 32 x :=
    PackedWord.count_congr fun i low => by rw [getLsbD_or, above i low, Bool.or_false]
  rw [view, count, getLsbD_or, getLsbD_or]
  rfl

theorem view_and_not {x y : PageWord} (above : ∀ i, i < 32 → y.getLsbD i = false) :
    view (x &&& ~~~y) = ⟨(view x).readers, (view x).closed && !y.getLsbD 62,
      (view x).accessed && !y.getLsbD 63⟩ := by
  have count : PackedWord.count 32 (x &&& ~~~y) = PackedWord.count 32 x := by
    apply PackedWord.count_congr
    intro i low
    rw [getLsbD_and, getLsbD_not, above i low,
      decide_eq_true (lt_trans low (by decide : 32 < 64))]
    simp
  rw [view, count, getLsbD_and, getLsbD_not, getLsbD_and, getLsbD_not]
  rfl

theorem flag_above {y : PageWord} {k : Nat} (bits : ∀ i, y.getLsbD i = decide (i = k))
    (high : 32 ≤ k) (i : Nat) (low : i < 32) : y.getLsbD i = false := by
  rw [bits]
  exact decide_eq_false (by omega)

section

variable (old : PageWord)
include old

theorem view_takeAccessed : view (takeAccessed old) = { view old with accessed := false } := by
  rw [takeAccessed, view_and_not (flag_above getLsbD_accessedMask (by decide)),
    getLsbD_accessedMask, getLsbD_accessedMask]
  simp

theorem view_markAccessed : view (markAccessed old) = { view old with accessed := true } := by
  rw [markAccessed, view_or (flag_above getLsbD_accessedMask (by decide)), getLsbD_accessedMask,
    getLsbD_accessedMask]
  simp

theorem view_close : view (close old) = { view old with closed := true } := by
  rw [close, view_or (flag_above getLsbD_closedMask (by decide)), getLsbD_closedMask,
    getLsbD_closedMask]
  simp

theorem view_reopen : view (reopen old) = { view old with closed := false } := by
  rw [reopen, view_and_not (flag_above getLsbD_closedMask (by decide)), getLsbD_closedMask,
    getLsbD_closedMask]
  simp

theorem view_bind : view (bind old) = view old := by
  rw [bind, view_or (flag_above getLsbD_boundMask (by decide)), getLsbD_boundMask,
    getLsbD_boundMask]
  simp

end

theorem view_releaseRead {old : PageWord} (positive : 0 < (view old).readers) :
    view (releaseRead old) =
      { view old with readers := (view old).readers - 1, accessed := true } := by
  have counted : view (old - 1#64) = { view old with readers := (view old).readers - 1 } :=
    view_releaseFailed positive
  rw [releaseRead, view_or (flag_above getLsbD_accessedMask (by decide)),
    view_and_not (fun i low => getLsbD_retryMask (.inl low)), counted, getLsbD_accessedMask,
    getLsbD_accessedMask, getLsbD_retryMask (.inr (by decide)), getLsbD_retryMask
    (.inr (by decide))]
  simp

theorem view_abort (old : PageWord) (reason : Fin 3) :
    view (abort old reason) = { view old with closed := false } := by
  have small : reason.val + 1 < 4 := by omega
  have cleared : ∀ i, i < 32 → (closedMask ||| retryMask).getLsbD i = false := by
    intro i low
    rw [getLsbD_or, getLsbD_retryMask (.inl low),
      flag_above getLsbD_closedMask (by decide) i low]
    rfl
  rw [abort, view_or (fun i low => getLsbD_retry small (.inl low)), view_and_not cleared,
    getLsbD_retry small (.inr (by decide)), getLsbD_retry small (.inr (by decide)),
    getLsbD_or, getLsbD_or, getLsbD_closedMask, getLsbD_closedMask,
    getLsbD_retryMask (.inr (by decide)), getLsbD_retryMask (.inr (by decide))]
  simp

theorem reopen_close {old : PageWord} (opened : (view old).closed = false) :
    reopen (close old) = old := by
  apply BitVec.eq_of_getLsbD_eq
  intro i inside
  rw [reopen, close, getLsbD_and, getLsbD_or, getLsbD_not, getLsbD_closedMask,
    decide_eq_true inside]
  by_cases flag : i = 62
  · subst flag
    rw [show old.getLsbD 62 = false from opened]
    rfl
  · simp [flag]

theorem view_zero : view 0#64 = ⟨0, false, false⟩ := rfl

end PageWord

end Talon.Worker
