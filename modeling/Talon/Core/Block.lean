import Talon.Core.Key
import Talon.Lib.WordRow

/-!
# Materialisation of a block

A cached block is one file or a set of pages.  The pages that are present are a bitmap over words,
whose count of set bits is the number of present pages.
-/

set_option autoImplicit false

namespace Talon.Core

open List

/-- A presence bitmap has the words its length needs, and no bit is set past its length. -/
structure PresentBitmap where
  words : List (BitVec 64)
  len : Nat
  sized : words.length = (len + 63) / 64
  clean : ∀ p, len ≤ p → WordRow.bit words p = false
deriving DecidableEq

namespace PresentBitmap

theorem bit_new (n p : Nat) : WordRow.bit (replicate n 0#64) p = false := by
  unfold WordRow.bit
  rw [getElem?_replicate]
  by_cases inside : p / 64 < n
  · simp [inside]
  · simp [inside]

def new (pageCount : Nat) : PresentBitmap where
  words := List.replicate ((pageCount + 63) / 64) 0#64
  len := pageCount
  sized := List.length_replicate
  clean p _ := bit_new _ p

theorem inside (b : PresentBitmap) {p : Nat} (h : p < b.len) : p / 64 < b.words.length := by
  rw [b.sized]
  omega

theorem clean_set (b : PresentBitmap) {page : Nat} (h : page < b.len) (p : Nat) (past : b.len ≤ p) :
    WordRow.bit (WordRow.set b.words page) p = false := by
  have other : p ≠ page := by omega
  rw [WordRow.bit_set (b.inside h), b.clean p past]
  simp [other]

def set (b : PresentBitmap) (page : Nat) : PresentBitmap :=
  if h : page < b.len then
    { words := WordRow.set b.words page
      len := b.len
      sized := (WordRow.length_set _ _).trans b.sized
      clean := b.clean_set h }
  else b

def isPresent (b : PresentBitmap) (page : Nat) : Bool :=
  decide (page < b.len) && WordRow.bit b.words page

def count (b : PresentBitmap) : Nat := WordRow.count b.words

def pages (b : PresentBitmap) : List Nat := (List.range b.len).filter b.isPresent

theorem count_eq_length (b : PresentBitmap) : b.count = b.pages.length := by
  have long : b.len ≤ 64 * b.words.length := by
    rw [b.sized]
    omega
  have inside : (range b.len).countP (WordRow.bit b.words) = (range b.len).countP b.isPresent :=
    countP_congr fun p mem => by simp [isPresent, mem_range.mp mem]
  rw [count, pages, WordRow.count_eq_of_clear long b.clean, inside, countP_eq_length_filter]

theorem nodup_pages (b : PresentBitmap) : b.pages.Nodup := nodup_range.filter _

@[simp] theorem pages_new (n : Nat) : (new n).pages = [] := by
  refine filter_eq_nil_iff.mpr fun p _ => ?_
  simp [isPresent, new, bit_new]

end PresentBitmap

inductive BlockForm
  | whole
  | paged (pageSize : Nat) (present : PresentBitmap)
deriving DecidableEq

end Talon.Core
