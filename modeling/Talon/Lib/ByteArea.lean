import Mathlib.Data.List.GetD
import Talon.Lib.FileSystem

/-!
# Byte arrays that grow with zeros

What a write at an offset and a change of length mean for a byte array, position by position, and
the list operations that compute them.
-/

set_option autoImplicit false

namespace ByteArea

open List

export Wire (Bytes)

/-- The array after a write of `data` at `off`: long enough for both, the bytes of the range
replaced, every other byte as before, and zero where there was none. -/
def written (old : Bytes) (off : Nat) (data : Bytes) : Bytes :=
  (List.range (max old.length (off + data.length))).map fun i =>
    if off ≤ i ∧ i < off + data.length then data.getD (i - off) 0 else old.getD i 0

def resized (old : Bytes) (n : Nat) : Bytes :=
  (List.range n).map fun i => old.getD i 0

def slice (old : Bytes) (off size : Nat) : Bytes := (old.drop off).take size

def resize (b : Bytes) (n : Nat) : Bytes := b.take n ++ List.replicate (n - b.length) 0

/-- Copy `data` over the bytes from `off` on, which are there. -/
def copyInto (b : Bytes) (off : Nat) (data : Bytes) : Bytes :=
  b.take off ++ data ++ b.drop (off + data.length)

@[simp]
theorem length_written (old : Bytes) (off : Nat) (data : Bytes) :
    (written old off data).length = max old.length (off + data.length) := by
  simp [written]

theorem getD_written (old : Bytes) (off : Nat) (data : Bytes) (i : Nat) :
    (written old off data).getD i 0 =
      if off ≤ i ∧ i < off + data.length then data.getD (i - off) 0 else old.getD i 0 := by
  by_cases inside : i < max old.length (off + data.length)
  · simp [written, getD_eq_getElem?_getD, inside]
  · have past : old.length ≤ i := by omega
    have outside : ¬ (off ≤ i ∧ i < off + data.length) := by omega
    rw [if_neg outside, getD_eq_default _ _ past, getD_eq_default]
    rw [length_written]
    omega

@[simp]
theorem length_resized (old : Bytes) (n : Nat) : (resized old n).length = n := by
  simp [resized]

theorem getD_resized {old : Bytes} {n i : Nat} (inside : i < n) :
    (resized old n).getD i 0 = old.getD i 0 := by
  simp [resized, getD_eq_getElem?_getD, inside]

@[simp]
theorem length_resize (b : Bytes) (n : Nat) : (resize b n).length = n := by
  simp only [resize, length_append, length_take, length_replicate]
  omega

theorem ext_getD {a b : Bytes} (length : a.length = b.length)
    (same : ∀ i, i < b.length → a.getD i 0 = b.getD i 0) : a = b := by
  apply ext_getElem length
  intro i left right
  have byte := same i right
  rwa [getD_eq_getElem _ _ left, getD_eq_getElem _ _ right] at byte

theorem getD_resize (b : Bytes) (n i : Nat) :
    (resize b n).getD i 0 = if i < n then b.getD i 0 else 0 := by
  simp only [resize, getD_eq_getElem?_getD, getElem?_append, getElem?_take,
    length_take, getElem?_replicate]
  grind

theorem resize_eq_resized (b : Bytes) (n : Nat) : resize b n = resized b n := by
  apply ext_getD
  · rw [length_resize, length_resized]
  · intro i inside
    rw [length_resized] at inside
    rw [getD_resize, if_pos inside, getD_resized inside]

theorem resized_self {b : Bytes} {n : Nat} (h : n = b.length) : resized b n = b := by
  subst h
  apply ext_getD (length_resized b b.length)
  intro i inside
  exact getD_resized inside

theorem length_copyInto {b data : Bytes} {off : Nat} (room : off + data.length ≤ b.length) :
    (copyInto b off data).length = b.length := by
  simp only [copyInto, length_append, length_take, length_drop]
  omega

theorem getD_copyInto {b data : Bytes} {off : Nat} (room : off + data.length ≤ b.length) (i : Nat) :
    (copyInto b off data).getD i 0 =
      if off ≤ i ∧ i < off + data.length then data.getD (i - off) 0 else b.getD i 0 := by
  simp only [copyInto, getD_eq_getElem?_getD, getElem?_append, getElem?_take,
    length_append, length_take, getElem?_drop]
  grind

theorem copyInto_resize (b data : Bytes) (off : Nat) :
    copyInto (resize b (max b.length (off + data.length))) off data = written b off data := by
  have room : off + data.length ≤ (resize b (max b.length (off + data.length))).length := by
    rw [length_resize]
    exact Nat.le_max_right _ _
  apply ext_getD
  · rw [length_copyInto room, length_resize, length_written]
  · intro i inside
    rw [length_written] at inside
    rw [getD_copyInto room, getD_resize, if_pos inside, getD_written]

theorem overwrite_eq_copyInto (b data : Bytes) (off : Nat) :
    CrashFs.File.overwrite b off data =
      copyInto (resize b (max b.length (off + data.length))) off data := by
  apply ext_getElem?
  intro i
  simp only [CrashFs.File.overwrite, copyInto, resize, getElem?_append, getElem?_take,
    length_append, length_take, getElem?_drop, length_replicate,
    getElem?_replicate]
  grind

end ByteArea
