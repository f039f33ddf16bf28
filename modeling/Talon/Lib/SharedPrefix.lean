import Mathlib.Algebra.Order.Ring.Nat
import Mathlib.Data.List.SplitBy

/-!
# Prefixes shared by sorted byte strings

In lexicographic order, whatever prefix the first and the last of several strings have in common is
a prefix of all that lie between them.
-/

set_option autoImplicit false

namespace SharedPrefix

open List

variable {α : Type}

def commonLen [DecidableEq α] : List α → List α → Nat
  | a :: as, b :: bs => if a = b then commonLen as bs + 1 else 0
  | _, _ => 0

section Common

variable [DecidableEq α]

theorem commonLen_le_left (a b : List α) : commonLen a b ≤ a.length := by
  fun_induction commonLen a b with
  | case1 x _ _ ih => exact Nat.succ_le_succ ih
  | case2 => exact Nat.zero_le _
  | case3 => exact Nat.zero_le _

theorem take_commonLen (a b : List α) : a.take (commonLen a b) = b.take (commonLen a b) := by
  fun_induction commonLen a b with
  | case1 x _ _ ih => rw [take_succ_cons, take_succ_cons, ih]
  | case2 => rfl
  | case3 => rfl

theorem getElem?_commonLen_ne {a b : List α} (h : a ≠ b) :
    a[commonLen a b]? ≠ b[commonLen a b]? := by
  fun_induction commonLen a b with
  | case1 x _ _ ih =>
    rw [getElem?_cons_succ, getElem?_cons_succ]
    exact ih fun same => h (by rw [same])
  | case2 x _ y _ differ =>
    intro same
    exact differ (Option.some.inj same)
  | case3 a b other =>
    cases a with
    | nil =>
      cases b with
      | nil => exact absurd rfl h
      | cons => exact fun same => nomatch same
    | cons x as =>
      cases b with
      | nil => exact fun same => nomatch same
      | cons y bs => exact absurd rfl (other x as y bs rfl)

end Common

theorem take_between {a b c : List UInt8} {n : Nat} (ab : a ≤ b) (bc : b ≤ c)
    (same : a.take n = c.take n) (long : n ≤ a.length) : b.take n = a.take n ∧ n ≤ b.length := by
  induction n generalizing a b c with
  | zero => exact ⟨rfl, Nat.zero_le _⟩
  | succ n ih =>
    cases a with
    | nil => exact absurd long (by simp)
    | cons x as =>
      cases c with
      | nil => cases same
      | cons z cs =>
        rw [take_succ_cons, take_succ_cons] at same
        obtain ⟨rfl, tails⟩ := cons.inj same
        cases b with
        | nil => exact absurd (nil_lt_cons x as) ab
        | cons y bs =>
          rw [cons_le_cons_iff] at ab bc
          have equal : y = x := by
            rcases ab with less | ⟨same, -⟩
            · rcases bc with less' | ⟨same', -⟩
              · exact absurd less (UInt8.lt_asymm less')
              · exact same'
            · exact same.symm
          subst equal
          have ab' : as ≤ bs := ab.resolve_left (UInt8.lt_irrefl _) |>.2
          have bc' : bs ≤ cs := bc.resolve_left (UInt8.lt_irrefl _) |>.2
          obtain ⟨head, length⟩ := ih ab' bc' tails (Nat.le_of_succ_le_succ long)
          exact ⟨by rw [take_succ_cons, take_succ_cons, head],
            Nat.succ_le_succ length⟩

theorem length_lt_of_mem_splitBy {β : Type} [BEq β] [LawfulBEq β] {symbol : α → β} {l part : List α}
    (mem : part ∈ l.splitBy fun a b => symbol a == symbol b) {x y : α} (hx : x ∈ l) (hy : y ∈ l)
    (ends : symbol x ≠ symbol y) : part.length < l.length := by
  have flat := flatten_splitBy (fun a b => symbol a == symbol b) l
  obtain ⟨before, after, split⟩ := append_of_mem mem
  rw [split] at flat
  simp only [flatten_append, flatten_cons] at flat
  by_contra long
  have lengths := congrArg length flat
  simp only [length_append] at lengths
  have none_before : before.flatten = [] := length_eq_zero_iff.mp (by omega)
  have none_after : after.flatten = [] := length_eq_zero_iff.mp (by omega)
  rw [none_before, none_after, nil_append, append_nil] at flat
  subst flat
  have chain := isChain_of_mem_splitBy mem
  have same : part.Pairwise fun a b => symbol a = symbol b := by
    refine List.IsChain.pairwise (chain.imp fun a b h => ?_)
    exact beq_iff_eq.mp h
  have symmetric : Std.Symm fun a b => symbol a = symbol b := ⟨fun _ _ h => h.symm⟩
  have reflexive : ∀ z ∈ part, symbol z = symbol z := fun _ _ => rfl
  exact ends (List.Pairwise.forall_of_forall (R := fun a b => symbol a = symbol b) reflexive same
    hx hy)

end SharedPrefix
