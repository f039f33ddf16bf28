import Mathlib.Data.Set.Finite.Basic
import Talon.Lib.Wire

/-!
# A file system that may lose what was not synced

File contents and directory entries become durable separately.  A file keeps, besides its
contents, the bytes that its last completed sync put on the disk; a name keeps, besides its
binding, the earlier bindings that may come back because the directory has not been synced since.
A crash resolves every name to one of its possible bindings and every file to one of its possible
contents, independently of each other.

The model follows a file through a rename by value.  It is therefore meant for programs that do
not write to a file between its rename and the next sync of the directory.
-/

set_option autoImplicit false

namespace CrashFs

open List

export Wire (Bytes)

structure File where
  data : Bytes
  disk : Bytes
deriving DecidableEq

namespace File

/-- The contents a crash may leave: an append since the last sync survives as any prefix, an
unsynced truncation may come undone, and after any other overwrite nothing is promised. -/
def Survives (f : File) (left : Bytes) : Prop :=
  if f.disk <+: f.data then f.disk <+: left ∧ left <+: f.data
  else if f.data <+: f.disk then f.data <+: left ∧ left <+: f.disk
  else True

/-- Replace the bytes from `off` on, filling a gap with zeros. -/
def overwrite (d : Bytes) (off : Nat) (b : Bytes) : Bytes :=
  (d ++ List.replicate (off - d.length) 0).take off ++ b ++ d.drop (off + b.length)

def writeAt (off : Nat) (b : Bytes) (f : File) : File :=
  { f with data := overwrite f.data off b }

def setLen (n : Nat) (f : File) : File :=
  { f with data := f.data.take n ++ List.replicate (n - f.data.length) 0 }

def sync (f : File) : File := { f with disk := f.data }

/-- A sync that covers the bytes written before it started. -/
def syncTo (n : Nat) (f : File) : File :=
  { f with disk := f.data.take (max n f.disk.length) }

theorem overwrite_end (d b : Bytes) : overwrite d d.length b = d ++ b := by
  simp [overwrite]

theorem writeAt_end (b : Bytes) (f : File) :
    f.writeAt f.data.length b = { f with data := f.data ++ b } := by
  simp [writeAt, overwrite_end]

theorem survives_synced {f : File} (h : f.disk = f.data) {left : Bytes} :
    f.Survives left ↔ left = f.data := by
  unfold Survives
  rw [h, if_pos (prefix_refl _)]
  constructor
  · rintro ⟨lo, hi⟩
    exact hi.eq_of_length (Nat.le_antisymm hi.length_le lo.length_le)
  · rintro rfl
    exact ⟨prefix_refl _, prefix_refl _⟩

end File

/-- What a name is bound to, and the earlier bindings that a crash may bring back. -/
structure Slot where
  now : Option File
  old : List (Option File)
deriving DecidableEq

namespace Slot

def empty : Slot := ⟨none, []⟩

def rebind (s : Slot) (b : Option File) : Slot := ⟨b, s.now :: s.old⟩

def modify (s : Slot) (g : File → File) : Slot := ⟨s.now.map g, s.old⟩

def settle (s : Slot) : Slot := ⟨s.now, []⟩

def Possible (s : Slot) (b : Option File) : Prop := b = s.now ∨ b ∈ s.old

variable (s : Slot)
include s

@[simp] theorem rebind_now (b : Option File) : (s.rebind b).now = b := rfl

@[simp] theorem modify_now (g : File → File) : (s.modify g).now = s.now.map g := rfl

@[simp] theorem settle_now : s.settle.now = s.now := rfl

@[simp] theorem settle_old : s.settle.old = [] := rfl

theorem possible_now : s.Possible s.now := Or.inl rfl

@[simp] theorem possible_rebind (c b : Option File) :
    (s.rebind c).Possible b ↔ b = c ∨ s.Possible b := by
  simp [Possible, rebind]

omit s

end Slot

section Operations

variable {N : Type} [DecidableEq N]

abbrev Fs (N : Type) := N → Slot

def Fs.empty : Fs N := fun _ => Slot.empty

def Fs.contents (fs : Fs N) (n : N) : Option Bytes := (fs n).now.map File.data

inductive Op (N : Type)
  | create (n : N)
  | write (n : N) (off : Nat) (b : Bytes)
  | setLen (n : N) (len : Nat)
  | sync (n : N)
  | rename (src dst : N)
  | remove (n : N)
  | syncDir (dir : N → Bool)
  | read (n : N)
  | readDir (dir : N → Bool)

inductive Reply (N : Type)
  | done
  | failed
  | wrote (k : Nat)
  | bytes (b : Bytes)
  | names (l : List N)

/-- Open for writing, truncating a file that is already there. -/
def Fs.create (fs : Fs N) (n : N) : Fs N :=
  Function.update fs n <|
    match (fs n).now with
    | none => (fs n).rebind (some ⟨[], []⟩)
    | some _ => (fs n).modify (fun f => { f with data := [] })

def Fs.modify (fs : Fs N) (n : N) (g : File → File) : Fs N :=
  Function.update fs n ((fs n).modify g)

def Fs.rename (fs : Fs N) (src dst : N) : Fs N :=
  Function.update (Function.update fs dst ((fs dst).rebind (fs src).now))
    src ((fs src).rebind none)

def Fs.remove (fs : Fs N) (n : N) : Fs N :=
  Function.update fs n ((fs n).rebind none)

def Fs.unlink (fs : Fs N) (n : N) : Fs N := if (fs n).now = none then fs else fs.remove n

def Fs.syncDir (fs : Fs N) (dir : N → Bool) : Fs N :=
  fun n => if dir n then (fs n).settle else fs n

/-- One operation, its reply and the state it leaves.  A write may be short; a directory is listed
in any order. -/
inductive Exec : Op N → Fs N → Reply N → Fs N → Prop
  | create (fs : Fs N) (n : N) : Exec (.create n) fs .done (fs.create n)
  | write (fs : Fs N) (n : N) (off : Nat) (b : Bytes) (k : Nat)
      (present : (fs n).now ≠ none) (some : b ≠ [] → 0 < k) (most : k ≤ b.length) :
      Exec (.write n off b) fs (.wrote k) (fs.modify n (File.writeAt off (b.take k)))
  | setLen (fs : Fs N) (n : N) (len : Nat) (present : (fs n).now ≠ none) :
      Exec (.setLen n len) fs .done (fs.modify n (File.setLen len))
  | sync (fs : Fs N) (n : N) (present : (fs n).now ≠ none) :
      Exec (.sync n) fs .done (fs.modify n File.sync)
  | rename (fs : Fs N) (src dst : N) (present : (fs src).now ≠ none) :
      Exec (.rename src dst) fs .done (fs.rename src dst)
  | remove (fs : Fs N) (n : N) (present : (fs n).now ≠ none) :
      Exec (.remove n) fs .done (fs.remove n)
  | syncDir (fs : Fs N) (dir : N → Bool) : Exec (.syncDir dir) fs .done (fs.syncDir dir)
  | read (fs : Fs N) (n : N) (b : Bytes) (present : fs.contents n = some b) :
      Exec (.read n) fs (.bytes b) fs
  | readDir (fs : Fs N) (dir : N → Bool) (l : List N) (nodup : l.Nodup)
      (listed : ∀ n, n ∈ l ↔ dir n = true ∧ (fs n).now ≠ none) :
      Exec (.readDir dir) fs (.names l) fs
  | writeMissing (fs : Fs N) (n : N) (off : Nat) (b : Bytes) (missing : (fs n).now = none) :
      Exec (.write n off b) fs .failed fs
  | setLenMissing (fs : Fs N) (n : N) (len : Nat) (missing : (fs n).now = none) :
      Exec (.setLen n len) fs .failed fs
  | syncMissing (fs : Fs N) (n : N) (missing : (fs n).now = none) :
      Exec (.sync n) fs .failed fs
  | renameMissing (fs : Fs N) (src dst : N) (missing : (fs src).now = none) :
      Exec (.rename src dst) fs .failed fs
  | removeMissing (fs : Fs N) (n : N) (missing : (fs n).now = none) :
      Exec (.remove n) fs .failed fs
  | readMissing (fs : Fs N) (n : N) (missing : (fs n).now = none) :
      Exec (.read n) fs .failed fs

variable {fs : Fs N} {r : Reply N}

theorem exec_remove {fs' : Fs N} {n : N} (h : Exec (.remove n) fs r fs') : fs' = fs.unlink n := by
  cases h with
  | remove _ _ present => simp [Fs.unlink, present]
  | removeMissing _ _ missing => simp [Fs.unlink, missing]

theorem unlink_runs (fs : Fs N) (n : N) : ∃ r, Exec (.remove n) fs r (fs.unlink n) := by
  by_cases missing : (fs n).now = none
  · exact ⟨.failed, by simpa [Fs.unlink, missing] using Exec.removeMissing fs n missing⟩
  · exact ⟨.done, by simpa [Fs.unlink, missing] using Exec.remove fs n missing⟩

theorem unlink_of_ne (fs : Fs N) {n m : N} (other : m ≠ n) : fs.unlink n m = fs m := by
  unfold Fs.unlink
  split
  · rfl
  · exact Function.update_of_ne other _ _

omit [DecidableEq N] in
@[simp] theorem contents_empty (n : N) : (Fs.empty : Fs N).contents n = none := rfl

theorem contents_unlink (fs : Fs N) (n m : N) :
    (fs.unlink n).contents m = if m = n then none else fs.contents m := by
  by_cases same : m = n
  · subst same
    by_cases missing : (fs m).now = none <;>
      simp [Fs.contents, Fs.unlink, Fs.remove, missing]
  · by_cases missing : (fs n).now = none <;>
      simp [Fs.contents, Fs.unlink, Fs.remove, missing, same]

omit [DecidableEq N] in
@[simp] theorem contents_syncDir (fs : Fs N) (dir : N → Bool) (n : N) :
    (fs.syncDir dir).contents n = fs.contents n := by
  unfold Fs.contents Fs.syncDir
  split <;> rfl

def Slot.Crash (s s' : Slot) : Prop :=
  (s.Possible none ∧ s' = ⟨none, []⟩) ∨
    ∃ f left, s.Possible (some f) ∧ f.Survives left ∧ s' = ⟨some ⟨left, left⟩, []⟩

def Slot.settled (b : Bytes) : Slot := ⟨some ⟨b, b⟩, []⟩

theorem Slot.Crash.of_settled {s : Slot} {b : Bytes} (h : (Slot.settled b).Crash s) :
    s = Slot.settled b := by
  rcases h with ⟨possible, -⟩ | ⟨f, _, possible, survives, rfl⟩
  · simp [Slot.settled, Slot.Possible] at possible
  · simp only [Slot.settled, Slot.Possible, Option.some.injEq, not_mem_nil, or_false] at possible
    subst possible
    rw [(File.survives_synced rfl).mp survives]
    rfl

def Slot.flush (s : Slot) : Slot := ⟨s.now.map fun f => ⟨f.data, f.data⟩, []⟩

theorem Slot.crash_flush (s : Slot) : s.Crash s.flush := by
  cases now : s.now with
  | none => exact .inl ⟨.inl now.symm, by rw [flush, now]; rfl⟩
  | some f =>
    refine .inr ⟨f, f.data, .inl now.symm, ?_, by rw [flush, now]; rfl⟩
    unfold File.Survives
    split
    · rename_i grown
      exact ⟨grown, prefix_refl _⟩
    · split
      · rename_i shrunk
        exact ⟨prefix_refl _, shrunk⟩
      · trivial

/-- A crash: either only the process dies, or the machine loses what is not durable. -/
inductive Crash : Fs N → Fs N → Prop
  | kill (fs : Fs N) : Crash fs fs
  | loss (fs fs' : Fs N) (resolved : ∀ n, (fs n).Crash (fs' n)) : Crash fs fs'

/-! ## Every operation has an outcome -/

def Fs.FinitelyMany (fs : Fs N) : Prop := {n | fs n ≠ Slot.empty}.Finite

omit [DecidableEq N] in
theorem finitelyMany_empty : (Fs.empty : Fs N).FinitelyMany := by
  simp [Fs.FinitelyMany, Fs.empty]

theorem Fs.FinitelyMany.update (h : fs.FinitelyMany) (n : N) (s : Slot) :
    Fs.FinitelyMany (Function.update fs n s) := by
  refine (h.insert n).subset fun m changed => ?_
  by_cases same : m = n
  · exact Or.inl same
  · refine Or.inr ?_
    rwa [Set.mem_ofPred_eq, Function.update_of_ne same] at changed

theorem Fs.FinitelyMany.exec {fs' : Fs N} {o : Op N} (h : fs.FinitelyMany)
    (exec : Exec o fs r fs') : fs'.FinitelyMany := by
  cases exec with
  | create | write | setLen | sync | remove => exact h.update _ _
  | rename => exact (h.update _ _).update _ _
  | syncDir =>
    refine h.subset fun n changed same => changed ?_
    unfold Fs.syncDir
    rw [same]
    split <;> rfl
  | read | readDir | writeMissing | setLenMissing | syncMissing | renameMissing | removeMissing |
      readMissing => exact h

omit [DecidableEq N] in
theorem Fs.FinitelyMany.crash {fs' : Fs N} (h : fs.FinitelyMany) (crash : Crash fs fs') :
    fs'.FinitelyMany := by
  cases crash with
  | kill => exact h
  | loss _ resolved =>
    refine h.subset fun n changed same => changed ?_
    rcases resolved n with ⟨_, left⟩ | ⟨f, left, possible, _, _⟩
    · exact left
    · rw [same] at possible
      simp [Slot.Possible, Slot.empty] at possible

theorem exec_exists (h : fs.FinitelyMany) (o : Op N) : ∃ r fs', Exec o fs r fs' := by
  cases o with
  | create n => exact ⟨_, _, .create fs n⟩
  | write n off b =>
    by_cases present : (fs n).now = none
    · exact ⟨_, _, .writeMissing fs n off b present⟩
    · exact ⟨_, _, .write fs n off b b.length present length_pos_iff.mpr le_rfl⟩
  | setLen n len =>
    by_cases present : (fs n).now = none
    · exact ⟨_, _, .setLenMissing fs n len present⟩
    · exact ⟨_, _, .setLen fs n len present⟩
  | sync n =>
    by_cases present : (fs n).now = none
    · exact ⟨_, _, .syncMissing fs n present⟩
    · exact ⟨_, _, .sync fs n present⟩
  | rename src dst =>
    by_cases present : (fs src).now = none
    · exact ⟨_, _, .renameMissing fs src dst present⟩
    · exact ⟨_, _, .rename fs src dst present⟩
  | remove n =>
    by_cases present : (fs n).now = none
    · exact ⟨_, _, .removeMissing fs n present⟩
    · exact ⟨_, _, .remove fs n present⟩
  | syncDir dir => exact ⟨_, _, .syncDir fs dir⟩
  | read n =>
    cases present : (fs n).now with
    | none => exact ⟨_, _, .readMissing fs n present⟩
    | some f => exact ⟨_, _, .read fs n f.data (by simp [Fs.contents, present])⟩
  | readDir dir =>
    have finite : {n | dir n = true ∧ (fs n).now ≠ none}.Finite := by
      refine h.subset fun n found same => found.2 ?_
      rw [same]
      rfl
    refine ⟨_, _, .readDir fs dir finite.toFinset.toList (Finset.nodup_toList _) fun n => ?_⟩
    simp

end Operations

end CrashFs
