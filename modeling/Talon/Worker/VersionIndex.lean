import Talon.Core.Key
import Mathlib.Data.Finset.Basic

/-!
# The index of resident versions

`eviction/versions.rs`: the resident blocks by a digest of their object, offset and size.  The first
block of a digest has a slot of its own; further ones, other versions or collisions, share a list.
-/

set_option autoImplicit false

namespace Talon.Worker

open Talon.Core List

/-- `swap_remove`: the last element takes the place of the removed one. -/
def swapRemove {α : Type} (l : List α) (i : Nat) : List α :=
  match l.getLast? with
  | some last => (l.set i last).dropLast
  | none => []

theorem perm_swapRemove {α : Type} {l : List α} {i : Nat} (inside : i < l.length) :
    l.Perm (l[i] :: swapRemove l i) := by
  rcases eq_nil_or_concat l with rfl | ⟨front, last, rfl⟩
  · exact absurd inside (Nat.not_lt_zero i)
  simp only [concat_eq_append] at inside ⊢
  have ends : swapRemove (front ++ [last]) i = ((front ++ [last]).set i last).dropLast := by
    simp [swapRemove]
  rw [ends, set_append]
  by_cases early : i < front.length
  · have here : front[i] :: front.eraseIdx i = front[i] ::
        (front.take i ++ front.drop (i + 1)) := by
      rw [eraseIdx_eq_take_drop_succ]
    have taken : front.Perm (front[i] :: (front.take i ++ front.drop (i + 1))) :=
    here ▸ (getElem_cons_eraseIdx_perm early).symm
    rw [if_pos early, dropLast_concat, set_eq_take_append_cons_drop, if_pos early,
      getElem_append_left early]
    calc (front ++ [last]).Perm (last :: front) := perm_append_singleton last front
      _ |>.Perm (last :: front[i] :: (front.take i ++ front.drop (i + 1))) := taken.cons last
      _ |>.Perm (front[i] :: last :: (front.take i ++ front.drop (i + 1))) := List.Perm.swap ..
      _ |>.Perm (front[i] :: (front.take i ++ last :: front.drop (i + 1))) :=
        perm_middle.symm.cons _
  · rw [length_append, length_singleton] at inside
    have late : i = front.length := by omega
    subst late
    simp

/-- The hash function is the process's own. -/
structure VersionIndex where
  digest : BlockId → Nat
  first : Nat → Option BlockId
  overflow : Nat → Option (List BlockId)

def sameLogical (a b : BlockId) : Bool :=
  a.object == b.object && a.offset == b.offset && a.blockSize == b.blockSize

namespace VersionIndex

def new (digest : BlockId → Nat) : VersionIndex := ⟨digest, fun _ => none, fun _ => none⟩

/-- Everything under one hash, in the order it is visited. -/
def stored (v : VersionIndex) (hash : Nat) : List BlockId :=
  (v.first hash).toList ++ (v.overflow hash).getD []

def insertAt (v : VersionIndex) (hash : Nat) (block : BlockId) : VersionIndex :=
  match v.first hash with
  | none => { v with first := Function.update v.first hash (some block) }
  | some head =>
    if head = block then v
    else
      let rest := (v.overflow hash).getD []
      let rest := if block ∈ rest then rest else rest ++ [block]
      { v with overflow := Function.update v.overflow hash (some rest) }

def insert (v : VersionIndex) (block : BlockId) : VersionIndex := v.insertAt (v.digest block) block

def blocks (v : VersionIndex) (block : BlockId) : List BlockId :=
  (v.stored (v.digest block)).filter (sameLogical · block)

/-- The block leaves; the last of the further ones takes over the slot. -/
def takeAt (v : VersionIndex) (hash : Nat) (block : BlockId) : VersionIndex :=
  if v.first hash = some block then
    { v with
      first := Function.update v.first hash ((v.overflow hash).bind getLast?)
      overflow := Function.update v.overflow hash ((v.overflow hash).map dropLast) }
  else
    match v.overflow hash with
    | none => v
    | some rest =>
      match rest.findIdx? (· = block) with
      | some position =>
        { v with overflow := Function.update v.overflow hash (some (swapRemove rest position)) }
      | none => v

def removeAt (v : VersionIndex) (hash : Nat) (block : BlockId) : VersionIndex :=
  let v := v.takeAt hash block
  { v with
    overflow := Function.update v.overflow hash ((v.overflow hash).filter fun rest => !rest.isEmpty) }

def remove (v : VersionIndex) (block : BlockId) : VersionIndex := v.removeAt (v.digest block) block

def Contains (v : VersionIndex) (block : BlockId) : Prop := block ∈ v.stored (v.digest block)

/-- A list stands behind a first block and is not empty, and no block is stored twice or under a
foreign hash. -/
structure Ok (v : VersionIndex) : Prop where
  first : ∀ hash, v.first hash = none → v.overflow hash = none
  listed : ∀ hash, v.overflow hash ≠ some []
  nodup : ∀ hash, (v.stored hash).Nodup
  filed : ∀ hash, ∀ c ∈ v.stored hash, v.digest c = hash

theorem ok_new (digest : BlockId → Nat) : (new digest).Ok :=
  ⟨fun _ _ => rfl, fun _ => nofun, fun _ => nodup_nil, fun _ _ => nofun⟩

theorem not_contains_new (digest : BlockId → Nat) (block : BlockId) : ¬(new digest).Contains block :=
  not_mem_nil

variable {v : VersionIndex} {hash : Nat} {block c : BlockId}

@[simp] theorem digest_insert : (v.insert block).digest = v.digest := by
  unfold insert insertAt
  split
  · rfl
  · split <;> rfl

@[simp] theorem digest_takeAt : (v.takeAt hash block).digest = v.digest := by
  unfold takeAt
  split
  · rfl
  · split
    · rfl
    · split <;> rfl

@[simp] theorem digest_remove : (v.remove block).digest = v.digest := digest_takeAt

theorem stored_insertAt (ok : v.Ok) (h : Nat) : (v.insertAt hash block).stored h =
    if h = hash ∧ block ∉ v.stored hash then v.stored hash ++ [block] else v.stored h := by
  by_cases same : h = hash
  · subst same
    cases head : v.first h with
    | none => simp [insertAt, stored, head, ok.first h head]
    | some first =>
      by_cases own : first = block
      · simp [insertAt, stored, head, own]
      · by_cases listed : block ∈ (v.overflow h).getD []
        · simp [insertAt, stored, head, own, listed]
        · simp [insertAt, stored, head, own, listed, Ne.symm own]
  · unfold insertAt
    split
    · simp [stored, same]
    · split <;> simp [stored, same]

theorem ok_insert (ok : v.Ok) : (v.insert block).Ok where
  first h gone := by
    unfold insert insertAt at gone ⊢
    split at gone
    · rename_i free
      by_cases same : h = v.digest block
      · simp [same] at gone
      · simp [same] at gone
        simpa [free] using ok.first h gone
    · rename_i head taken
      have other : h ≠ v.digest block := by
        rintro rfl
        split at gone <;> simp [taken] at gone
      split at gone <;> simp_all [ok.first h]
  listed h := by
    unfold insert insertAt
    split
    · exact ok.listed h
    · split
      · exact ok.listed h
      · by_cases same : h = v.digest block
        · subst same
          by_cases listed : block ∈ (v.overflow (v.digest block)).getD []
          · simpa [listed] using ne_nil_of_mem listed
          · simp [listed]
        · simpa [same] using ok.listed h
  nodup h := by
    rw [insert, stored_insertAt ok]
    split
    · rename_i new
      rw [← concat_eq_append]
      exact List.Nodup.concat new.2 (ok.nodup _)
    · exact ok.nodup h
  filed h c mem := by
    rw [insert, stored_insertAt ok] at mem
    rw [digest_insert]
    split at mem
    · rename_i new
      rcases mem_append.mp mem with old | last
      · rw [new.1, ok.filed _ c old]
      · rw [new.1, mem_singleton.mp last]
    · exact ok.filed h c mem

theorem contains_insert (ok : v.Ok) : (v.insert block).Contains c ↔ v.Contains c ∨ c = block := by
  unfold Contains
  rw [digest_insert, insert, stored_insertAt ok]
  split
  · rename_i new
    rw [mem_append, mem_singleton, new.1]
  · rename_i old
    constructor
    · exact Or.inl
    · rintro (inside | rfl)
      · exact inside
      · exact by_contra fun absent => old ⟨rfl, absent⟩

theorem stored_removeAt_eq (h : Nat) :
    (v.removeAt hash block).stored h = (v.takeAt hash block).stored h := by
  by_cases same : h = hash
  · subst same
    simp only [removeAt, stored, Function.update_self]
    cases (v.takeAt h block).overflow h with
    | none => rfl
    | some rest => cases rest <;> rfl
  · simp [removeAt, stored, same]

theorem stored_removeAt (v : VersionIndex) (hash : Nat) (block : BlockId) :
    (∀ h, h ≠ hash → (v.removeAt hash block).stored h = v.stored h) ∧
      ((v.removeAt hash block).stored hash).Perm ((v.stored hash).erase block) := by
  simp only [stored_removeAt_eq]
  unfold takeAt
  split
  · rename_i own
    refine ⟨fun h other => by simp [stored, other], ?_⟩
    cases listed : v.overflow hash with
    | none => simp [stored, own, listed]
    | some rest =>
      rcases eq_nil_or_concat rest with rfl | ⟨front, last, rfl⟩
      · simp [stored, own, listed]
      · simpa [stored, own, listed] using (perm_append_singleton last front).symm
  · rename_i other
    have head : block ∉ (v.first hash).toList := by simpa [eq_comm] using other
    split
    · rename_i listed
      refine ⟨fun _ _ => rfl, ?_⟩
      rw [erase_of_not_mem (by simpa [stored, listed] using head)]
    · rename_i rest listed
      split
      · rename_i position found
        refine ⟨fun h different => by simp [stored, different], ?_⟩
        obtain ⟨inside, here, _⟩ := findIdx?_eq_some_iff_getElem.mp found
        have gone := (perm_swapRemove inside).erase block
        rw [of_decide_eq_true here, erase_cons_head] at gone
        simp only [stored, Function.update_self, listed, Option.getD_some]
        rw [erase_append_right _ head]
        exact gone.symm.append_left _
      · rename_i absent
        refine ⟨fun _ _ => rfl, ?_⟩
        have out : block ∉ rest := fun inside => by
          simpa using findIdx?_eq_none_iff.mp absent block inside
        rw [erase_of_not_mem (by simp [stored, listed, out, other])]

theorem takeAt_of_ne (block : BlockId) {h : Nat} (other : h ≠ hash) :
    (v.takeAt hash block).first h = v.first h ∧
    (v.takeAt hash block).overflow h = v.overflow h := by
  unfold takeAt
  split
  · simp [other]
  · split
    · simp
    · split <;> simp [other]

theorem rest_takeAt (ok : v.Ok) (gone : (v.takeAt hash block).first hash = none) :
    ((v.takeAt hash block).overflow hash).getD [] = [] := by
  unfold takeAt at gone ⊢
  split at gone
  · rename_i own
    cases listed : v.overflow hash <;> simp_all
  · rename_i other
    cases listed : v.overflow hash with
    | none => simp [other, listed]
    | some rest =>
      have free : v.first hash = none := by
        simp only [listed] at gone
        split at gone <;> exact gone
      simp [ok.first hash free] at listed

theorem ok_remove (ok : v.Ok) : (v.remove block).Ok where
  first h gone := by
    change (v.takeAt (v.digest block) block).first h = none at gone
    by_cases same : h = v.digest block
    · subst same
      have rest := rest_takeAt ok gone
      simp only [remove, removeAt, Function.update_self]
      cases listed : (v.takeAt (v.digest block) block).overflow (v.digest block) <;> simp_all
    · obtain ⟨first, overflow⟩ := v.takeAt_of_ne block same
      simpa [remove, removeAt, same, overflow] using ok.first h (first ▸ gone)
  listed h := by
    by_cases same : h = v.digest block
    · subst same
      simp [remove, removeAt, Option.filter_eq_some_iff]
    · simpa [remove, removeAt, same, v.takeAt_of_ne block same] using ok.listed h
  nodup h := by
    obtain ⟨others, own⟩ := v.stored_removeAt (v.digest block) block
    by_cases same : h = v.digest block
    · subst same
      exact own.symm.nodup ((ok.nodup _).erase block)
    · rw [remove, others h same]
      exact ok.nodup h
  filed h c mem := by
    obtain ⟨others, own⟩ := v.stored_removeAt (v.digest block) block
    rw [digest_remove]
    by_cases same : h = v.digest block
    · subst same
      exact ok.filed _ c (mem_of_mem_erase (own.mem_iff.mp mem))
    · exact ok.filed h c (others h same ▸ mem)

theorem contains_remove (ok : v.Ok) : (v.remove block).Contains c ↔ v.Contains c ∧ c ≠ block := by
  unfold Contains
  rw [digest_remove, remove]
  obtain ⟨others, own⟩ := v.stored_removeAt (v.digest block) block
  by_cases same : v.digest c = v.digest block
  · rw [same, own.mem_iff, (ok.nodup _).mem_erase_iff, and_comm]
  · have different : c ≠ block := fun eq => same (by rw [eq])
    rw [others _ same]
    simp [different]

/-! ## Runs -/

/-- `digest`, over any hash of the three fields it reads. -/
def digestOf (hash : ObjectId → Nat → Nat → Nat) (block : BlockId) : Nat :=
  hash block.object block.offset block.blockSize

inductive Op
  | insert (block : BlockId)
  | remove (block : BlockId)

def step (v : VersionIndex) : Op → VersionIndex
  | .insert block => v.insert block
  | .remove block => v.remove block

def run (digest : BlockId → Nat) (ops : List Op) : VersionIndex := ops.foldl step (new digest)

/-- The identities that were inserted and not removed since. -/
def present (ops : List Op) : Finset BlockId :=
  ops.foldl (fun held op => match op with
    | .insert block => Insert.insert block held
    | .remove block => held.erase block) ∅

/-- After every run the index contains what was added and not removed. -/
theorem ok_run (digest : BlockId → Nat) (ops : List Op) : (run digest ops).Ok ∧
    (run digest ops).digest = digest ∧ ∀ c, (run digest ops).Contains c ↔ c ∈ present ops := by
  induction ops using List.reverseRecOn with
  | nil => exact ⟨ok_new digest, rfl, fun c => by simp [run, present, not_contains_new]⟩
  | append_singleton ops op ih =>
    obtain ⟨ok, own, contains⟩ := ih
    simp only [run, present, foldl_append, foldl_cons, foldl_nil] at ok own contains ⊢
    cases op with
    | insert block =>
      refine ⟨ok_insert ok, digest_insert.trans own, fun c => (contains_insert ok).trans ?_⟩
      rw [contains c, Finset.mem_insert, or_comm]
    | remove block =>
      refine ⟨ok_remove ok, digest_remove.trans own, fun c => (contains_remove ok).trans ?_⟩
      rw [contains c, Finset.mem_erase, and_comm]

theorem Ok.contains_of_stored (ok : v.Ok) (mem : c ∈ v.stored hash) : v.Contains c := by
  rw [Contains, ok.filed hash c mem]
  exact mem

theorem Ok.two_of_overflow (ok : v.Ok) {rest : List BlockId}
    (listed : v.overflow hash = some rest) :
    ∃ a b, a ≠ b ∧ a ∈ v.stored hash ∧ b ∈ v.stored hash := by
  cases head : v.first hash with
  | none => simp [ok.first hash head] at listed
  | some a =>
    cases rest with
    | nil => exact absurd listed (ok.listed hash)
    | cons b rest =>
      have nodup := ok.nodup hash
      have stored : v.stored hash = a :: b :: rest := by simp [VersionIndex.stored, head, listed]
      rw [stored] at nodup ⊢
      exact ⟨a, b, by simp_all, by simp, by simp⟩

/-- Whatever identities collide, `blocks` yields those present with the fields of the given block,
each once; a hash has an overflow list only while two identities with it are present. -/
theorem blocks_exact (hash : ObjectId → Nat → Nat → Nat) (ops : List Op) :
    (∀ b, ((run (digestOf hash) ops).blocks b).Nodup ∧ ∀ c, c ∈ (run (digestOf hash) ops).blocks b ↔
      c ∈ present ops ∧ c.object = b.object ∧ c.offset = b.offset ∧ c.blockSize = b.blockSize) ∧
    (∀ h rest, (run (digestOf hash) ops).overflow h = some rest → ∃ a ∈ present ops,
      ∃ b ∈ present ops, a ≠ b ∧ digestOf hash a = h ∧ digestOf hash b = h) ∧
    (present ops = ∅ ∨ (∀ h, (run (digestOf hash) ops).first h = none) →
      ∀ h, (run (digestOf hash) ops).first h = none ∧
        (run (digestOf hash) ops).overflow h = none) := by
  obtain ⟨ok, digest, contains⟩ := ok_run (digestOf hash) ops
  generalize run (digestOf hash) ops = v at ok digest contains ⊢
  refine ⟨fun b => ⟨(ok.nodup _).filter _, fun c => ?_⟩, fun h rest listed => ?_, fun empty h => ?_⟩
  · rw [← contains c, VersionIndex.Contains, blocks, mem_filter, digest]
    simp only [sameLogical, Bool.and_eq_true, beq_iff_eq, and_assoc]
    refine and_congr_left fun same => ?_
    simp [digestOf, same]
  · obtain ⟨a, b, differ, first, second⟩ := ok.two_of_overflow listed
    exact ⟨a, (contains a).mp (ok.contains_of_stored first), b,
      (contains b).mp (ok.contains_of_stored second), differ, digest ▸ ok.filed h a first,
      digest ▸ ok.filed h b second⟩
  · have free : v.first h = none := by
      rcases empty with none | none
      · by_contra taken
        obtain ⟨a, head⟩ := Option.ne_none_iff_exists'.mp taken
        have inside :=
          (contains a).mp (ok.contains_of_stored (show a ∈ v.stored h by simp [stored, head]))
        simp [none] at inside
      · exact none h
    exact ⟨free, ok.first h free⟩

end VersionIndex

end Talon.Worker
