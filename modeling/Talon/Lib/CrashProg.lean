import Talon.Lib.FileSystem
import Talon.Lib.Transition

/-!
# Programs over the crash-prone file system

A program is a tree of file-system operations that branches on their replies.  `Safe` is its
weakest precondition with a crash condition: at every point of every execution, with any steps of
the environment in between, the crash condition `C` holds of the file system, and the result
satisfies `Q`.  The environment stands for what other tasks do to the same directory meanwhile.
-/

set_option autoImplicit false

namespace CrashFs

open Relation Function List

inductive Prog (N : Type) (α : Type)
  | ret (a : α)
  | op (o : Op N) (k : Reply N → Prog N α)

namespace Prog

section Syntax

variable {N α β : Type}

def bind : Prog N α → (α → Prog N β) → Prog N β
  | .ret a, f => f a
  | .op o k, f => .op o (fun r => (k r).bind f)

@[simp] theorem ret_bind (a : α) (f : α → Prog N β) : (Prog.ret a).bind f = f a := rfl

/-- `write_all`: repeat short writes until the buffer is used up; `false` is an error. -/
def writeLoop (n : N) : Nat → Nat → Bytes → Prog N Bool
  | 0, _, _ => .ret true
  | fuel + 1, off, b =>
    if b = [] then .ret true
    else .op (.write n off b) fun
      | .wrote k => writeLoop n fuel (off + k) (b.drop k)
      | _ => .ret false

def writeAll (n : N) (off : Nat) (b : Bytes) : Prog N Bool := writeLoop n b.length off b

def ensure (o : Op N) (next : Prog N (Option α)) : Prog N (Option α) :=
  .op o fun
    | .done => next
    | _ => .ret none

def ensureWrite (n : N) (off : Nat) (b : Bytes) (next : Prog N (Option α)) :
    Prog N (Option α) :=
  (writeAll n off b).bind fun ok => if ok then next else .ret none

end Syntax

section Semantics

variable {N α β : Type} [DecidableEq N]

inductive Step : Prog N α → Fs N → Prog N α → Fs N → Prop
  | op {o k fs r fs'} (exec : Exec o fs r fs') : Step (.op o k) fs (k r) fs'

inductive Runs : Prog N α → Fs N → α → Fs N → Prop
  | ret (a : α) (fs : Fs N) : Runs (.ret a) fs a fs
  | op {o k fs mid fs' r a}
      (exec : Exec o fs r mid) (rest : Runs (k r) mid a fs') : Runs (.op o k) fs a fs'

def Returns (p : Prog N α) (fs : Fs N) (a : α) : Prop :=
  (∃ fs', Runs p fs a fs') ∧ ∀ b fs', Runs p fs b fs' → b = a

variable (env : Fs N → Fs N → Prop) (C : Fs N → Prop)

def Safe (Q : α → Fs N → Prop) : Prog N α → Fs N → Prop
  | .ret a, fs => ∀ fs', ReflTransGen env fs fs' → C fs' ∧ Q a fs'
  | .op o k, fs => ∀ mid, ReflTransGen env fs mid →
      C mid ∧ ∀ r fs', Exec o mid r fs' → (k r).Safe Q fs'

variable {env C} {Q Q' : α → Fs N → Prop} {p p' : Prog N α} {fs fs' : Fs N}

variable (h : p.Safe env C Q fs)
include h

theorem Safe.crash : C fs := by
  cases p <;> exact (h fs .refl).1

theorem Safe.later (moved : ReflTransGen env fs fs') : p.Safe env C Q fs' := by
  cases p with
  | ret => exact fun fs'' later => h fs'' (moved.trans later)
  | op => exact fun mid later => h mid (moved.trans later)

theorem Safe.step (s : Step p fs p' fs') : p'.Safe env C Q fs' := by
  cases s with
  | op exec => exact (h fs .refl).2 _ _ exec

omit h

variable {a : α}

theorem Safe.result (h : (Prog.ret a).Safe env C Q fs) : Q a fs := (h fs .refl).2

include h in
theorem Safe.mono {C' : Fs N → Prop} (hC : ∀ fs, C fs → C' fs)
    (hQ : ∀ a fs, Q a fs → Q' a fs) : p.Safe env C' Q' fs := by
  induction p generalizing fs with
  | ret => exact fun fs' moved => ⟨hC _ (h fs' moved).1, hQ _ _ (h fs' moved).2⟩
  | op o k ih =>
    intro mid moved
    obtain ⟨crash, next⟩ := h mid moved
    exact ⟨hC _ crash, fun r fs' exec => ih r (next r fs' exec)⟩

variable {f : α → Prog N β}

theorem Safe.bind {R : β → Fs N → Prop} (h : p.Safe env C (fun a fs => (f a).Safe env C R fs) fs) :
    (p.bind f).Safe env C R fs := by
  induction p generalizing fs with
  | ret => exact (h fs .refl).2
  | op o k ih =>
    intro mid moved
    obtain ⟨crash, next⟩ := h mid moved
    exact ⟨crash, fun r fs' exec => ih r (next r fs' exec)⟩

include h in
/-- A safe program that returns has met its postcondition. -/
theorem Safe.runs (run : Runs p fs a fs') : Q a fs' := by
  induction run with
  | ret => exact h.result
  | op exec _ ih => exact ih ((h _ .refl).2 _ _ exec)

variable {mid : Fs N}

theorem Runs.bind {b : β}
    (first : Runs p fs a mid) (rest : Runs (f a) mid b fs') : Runs (p.bind f) fs b fs' := by
  induction first with
  | ret => exact rest
  | op exec _ ih => exact .op exec (ih rest)

/-- A program comes to a point of its execution. -/
def Reaches (p : Prog N α) (fs : Fs N) (p' : Prog N α) (fs' : Fs N) : Prop :=
  ReflTransGen (fun x y : Prog N α × Fs N => Step x.1 x.2 y.1 y.2) (p, fs) (p', fs')

theorem Reaches.op {o : Op N} {k : Reply N → Prog N α} {r : Reply N}
    (exec : Exec o fs r mid) (rest : Reaches (k r) mid p' fs') : Reaches (.op o k) fs p' fs' :=
  .head (Step.op exec) rest

theorem Reaches.lift {σ : Type} {R : σ → σ → Prop} (embed : Prog N α → Fs N → σ)
    (steps : ∀ p fs p' fs', Step p fs p' fs' → R (embed p fs) (embed p' fs'))
    (reaches : Reaches p fs p' fs') : ReflTransGen R (embed p fs) (embed p' fs') :=
  ReflTransGen.lift (fun x => embed x.1 x.2) (fun x y => steps x.1 x.2 y.1 y.2) _ _ reaches

theorem Runs.ends (run : Runs p fs a fs') : Reaches p fs (.ret a) fs' := by
  induction run with
  | ret => exact .refl
  | op exec _ ih => exact .op exec ih

theorem Runs.reaches {q : Prog N β} (first : Runs p fs a mid)
    (rest : Reaches (f a) mid q fs') : Reaches (p.bind f) fs q fs' := by
  induction first with
  | ret => exact rest
  | op exec _ ih => exact .op exec (ih rest)

theorem exists_runs (p : Prog N α) (h : fs.FinitelyMany) :
    ∃ a fs', Runs p fs a fs' ∧ fs'.FinitelyMany := by
  induction p generalizing fs with
  | ret a => exact ⟨a, fs, .ret a fs, h⟩
  | op o k ih =>
    obtain ⟨r, _, exec⟩ := exec_exists h o
    obtain ⟨a, fs', run, left⟩ := ih r (h.exec exec)
    exact ⟨a, fs', .op exec run, left⟩

end Semantics

section Install

variable {N α : Type} [DecidableEq N]

/-- The environment neither changes nor looks at a name. -/
def Avoids (env : Fs N → Fs N → Prop) (n : N) : Prop :=
  ∀ fs fs' s, env (Function.update fs n s) fs' → ∃ mid, env fs mid ∧ fs' = Function.update mid n s

variable {env : Fs N → Fs N → Prop} {C : Fs N → Prop} {Q : α → Fs N → Prop} {fs : Fs N}

variable {n : N}

theorem Avoids.run (h : Avoids env n) {fs fs' : Fs N} {s : Slot}
    (run : ReflTransGen env (update fs n s) fs') :
    ∃ mid, ReflTransGen env fs mid ∧ fs' = update mid n s := by
  induction run with
  | refl => exact ⟨fs, .refl, rfl⟩
  | tail _ one ih =>
    obtain ⟨_, before, rfl⟩ := ih
    obtain ⟨next, step, rfl⟩ := h _ _ _ one
    exact ⟨next, before.tail step, rfl⟩

theorem Avoids.same (h : Avoids env n) {fs fs' : Fs N}
    (run : ReflTransGen env fs fs') : fs' n = fs n := by
  rw [← update_eq_self n fs] at run
  obtain ⟨_, _, rfl⟩ := h.run run
  exact update_self ..

variable {start : Slot}

theorem modify_writeAt_end (done b : Bytes) :
    Fs.modify (update fs n (start.modify fun f => { f with data := done })) n
        (File.writeAt done.length b) =
      update fs n (start.modify fun f => { f with data := done ++ b }) := by
  unfold Fs.modify
  rw [update_idem, update_self]
  congr 1
  unfold Slot.modify
  simp only [Slot.mk.injEq, and_true]
  cases start.now with
  | none => rfl
  | some f => exact congrArg some (File.writeAt_end b { f with data := done })

theorem safe_writeLoop {R : Bool → Fs N → Prop} (avoid : Avoids env n)
    (present : start.now ≠ none) (fuel : Nat) (done b : Bytes) (enough : b.length ≤ fuel)
    (crash : ∀ mid k, ReflTransGen env fs mid →
      C (update mid n (start.modify fun f => { f with data := k })))
    (last : ∀ mid, ReflTransGen env fs mid →
      R true (update mid n (start.modify fun f => { f with data := done ++ b }))) :
    (writeLoop n fuel done.length b).Safe env C R
      (update fs n (start.modify fun f => { f with data := done })) := by
  induction fuel generalizing done b fs with
  | zero =>
    have nil : b = [] := eq_nil_of_length_eq_zero (Nat.le_zero.mp enough)
    subst nil
    intro fs' run
    obtain ⟨mid, moved, rfl⟩ := avoid.run run
    exact ⟨crash mid done moved, by simpa using last mid moved⟩
  | succ _ ih =>
    rw [writeLoop]
    split
    · rename_i nil
      subst nil
      intro fs' run
      obtain ⟨mid, moved, rfl⟩ := avoid.run run
      exact ⟨crash mid done moved, by simpa using last mid moved⟩
    intro _ run
    obtain ⟨mid, moved, rfl⟩ := avoid.run run
    refine ⟨crash mid done moved, fun r after exec => ?_⟩
    cases exec with
    | write _ _ _ _ k _ positive most =>
      have := positive (by assumption)
      rw [modify_writeAt_end]
      have length : done.length + k = (done ++ b.take k).length := by
        rw [length_append, length_take, Nat.min_eq_left most]
      simp only [length]
      refine ih (done ++ b.take k) (b.drop k) (by rw [length_drop]; omega) ?_ ?_
      · exact fun later piece run => crash later piece (moved.trans run)
      · intro later run
        simpa using last later (moved.trans run)
    | writeMissing _ _ _ _ missing =>
      rw [update_self, Slot.modify_now, Option.map_eq_none_iff] at missing
      exact absurd missing present

def place (tmp dst : N) (next : Prog N (Option α)) : Prog N (Option α) :=
  ensure (.sync tmp) <| ensure (.rename tmp dst) next

def install (tmp dst : N) (b : Bytes) (next : Prog N (Option α)) : Prog N (Option α) :=
  ensure (.create tmp) <| ensureWrite tmp 0 b <| place tmp dst next

variable {b : Bytes}

theorem writeAll_runs (present : (fs n).now ≠ none) (filled : b ≠ [])
    (off : Nat) : Runs (writeAll n off b) fs true (fs.modify n (File.writeAt off b)) := by
  have positive := length_pos_iff.mpr filled
  have exec := Exec.write fs n off b b.length present (fun _ => positive) le_rfl
  rw [take_length] at exec
  obtain ⟨fuel, length⟩ := Nat.exists_eq_succ_of_ne_zero (Nat.pos_iff_ne_zero.mp positive)
  rw [writeAll, length, writeLoop, if_neg filled]
  refine .op exec ?_
  dsimp only
  rw [drop_length]
  cases fuel with
  | zero => exact .ret ..
  | succ =>
    rw [writeLoop, if_pos rfl]
    exact .ret ..

theorem create_eq (fs : Fs N) (n : N) :
    ∃ start : Slot, start.now ≠ none ∧
      fs.create n = update fs n (start.modify fun f => { f with data := [] }) := by
  unfold Fs.create
  cases bound : (fs n).now with
  | none => exact ⟨(fs n).rebind (some ⟨[], []⟩), by simp, by simp [Slot.rebind, Slot.modify]⟩
  | some => exact ⟨fs n, by simp [bound], rfl⟩

variable {next : Prog N (Option α)}

theorem safe_place {tmp dst : N} {Q : Option α → Fs N → Prop} (distinct : tmp ≠ dst)
    (avoid : Avoids env tmp) (avoidDst : Avoids env dst) (present : start.now ≠ none)
    (before : ∀ mid s, ReflTransGen env fs mid → C (update mid tmp s))
    (after : ∀ mid (s : Slot), s.now = none → ReflTransGen env fs mid → next.Safe env C Q
      (update (update mid dst ((fs dst).rebind (some ⟨b, b⟩))) tmp s)) :
    (place tmp dst next).Safe env C Q
      (update fs tmp (start.modify fun f => { f with data := b })) := by
  obtain ⟨f, file⟩ := Option.ne_none_iff_exists'.mp present
  intro _ run
  obtain ⟨mid, moved, rfl⟩ := avoid.run run
  refine ⟨before mid _ moved, fun r fs' exec => ?_⟩
  cases exec with
  | syncMissing _ _ missing => simp [file] at missing
  | sync =>
    simp only [Fs.modify, update_idem, update_self]
    intro _ run'
    obtain ⟨last, moved', rfl⟩ := avoid.run run'
    have far := moved.trans moved'
    refine ⟨before last _ far, fun r fs' exec => ?_⟩
    cases exec with
    | renameMissing _ _ _ missing => simp [file] at missing
    | rename =>
      have target := avoidDst.same far
      simp only [Fs.rename, update_self, Slot.modify_now, file, Option.map_some,
        File.sync]
      rw [update_of_ne distinct.symm, target, update_comm distinct,
        update_idem]
      exact after last _ rfl far

/-- Until the rename only the temporary name changes; the rename puts the whole, synced file under
the target name, whose directory entry is not yet durable. -/
theorem safe_install {tmp dst : N} {Q : Option α → Fs N → Prop} (distinct : tmp ≠ dst)
    (avoid : Avoids env tmp) (avoidDst : Avoids env dst)
    (before : ∀ mid s, ReflTransGen env fs mid → C (update mid tmp s))
    (after : ∀ mid (s : Slot), s.now = none → ReflTransGen env fs mid → next.Safe env C Q
      (update (update mid dst ((fs dst).rebind (some ⟨b, b⟩))) tmp s)) :
    (install tmp dst b next).Safe env C Q fs := by
  intro created run
  have unchanged : ∀ mid, ReflTransGen env fs mid → C mid := by
    intro mid moved
    have := before mid (mid tmp) moved
    rwa [update_eq_self] at this
  refine ⟨unchanged created run, fun r fs' exec => ?_⟩
  cases exec with
  | create =>
    obtain ⟨_, present, opened⟩ := create_eq created tmp
    rw [opened]
    apply Safe.bind
    refine safe_writeLoop avoid present b.length [] b le_rfl
      (fun mid k moved => before mid _ (run.trans moved)) fun mid moved => ?_
    have far := run.trans moved
    apply safe_place distinct avoid avoidDst present
    · intro later s moved'
      exact before later s (far.trans moved')
    · intro later s gone moved'
      rw [avoidDst.same far]
      exact after later s gone (far.trans moved')

end Install

section Alone

variable {N α : Type} [DecidableEq N]

def Alone : Fs N → Fs N → Prop := fun _ _ => False

omit [DecidableEq N] in
theorem reflTransGen_alone {fs fs' : Fs N} (h : ReflTransGen Alone fs fs') : fs' = fs := by
  induction h with
  | refl => rfl
  | tail _ one => exact one.elim

variable {C : Fs N → Prop} {Q : α → Fs N → Prop} {fs : Fs N}

theorem safe_ret {a : α} : (Prog.ret a).Safe Alone C Q fs ↔ C fs ∧ Q a fs := by
  constructor
  · intro h
    exact h fs .refl
  · intro h _ moved
    rw [reflTransGen_alone moved]
    exact h

variable {k : Reply N → Prog N α}

theorem safe_op {o : Op N} :
    (Prog.op o k).Safe Alone C Q fs ↔
      C fs ∧ ∀ r fs', Exec o fs r fs' → (k r).Safe Alone C Q fs' := by
  constructor
  · intro h
    exact h fs .refl
  · intro h _ moved
    rw [reflTransGen_alone moved]
    exact h

theorem safe_read {n : N} {b : Bytes} (crash : C fs) (found : fs.contents n = some b)
    (next : (k (.bytes b)).Safe Alone C Q fs) : (Prog.op (.read n) k).Safe Alone C Q fs := by
  refine safe_op.mpr ⟨crash, fun r fs' exec => ?_⟩
  cases exec with
  | read _ _ _ present =>
    rw [found] at present
    cases present
    exact next
  | readMissing _ _ missing => simp [Fs.contents, missing] at found

section

variable {next : Prog N (Option α)} {Q : Option α → Fs N → Prop}

theorem safe_sync {n : N} (crash : C fs) (present : (fs n).now ≠ none)
    (after : next.Safe Alone C Q (fs.modify n File.sync)) :
    (ensure (.sync n) next).Safe Alone C Q fs := by
  refine safe_op.mpr ⟨crash, fun r fs' exec => ?_⟩
  cases exec with
  | sync => exact after
  | syncMissing _ _ missing => exact absurd missing present

theorem safe_syncDir {dir : N → Bool} (crash : C fs)
    (after : next.Safe Alone C Q (fs.syncDir dir)) :
    (ensure (.syncDir dir) next).Safe Alone C Q fs := by
  refine safe_op.mpr ⟨crash, fun r fs' exec => ?_⟩
  cases exec with
  | syncDir => exact after

end

theorem avoids_alone (n : N) : Avoids Alone n := by
  intro _ _ s one
  exact one.elim

end Alone

section Spare

variable {N α β : Type}

/-- The environment may do anything to one name and nothing to the others. -/
def OnlyAt [DecidableEq N] (n : N) : Fs N → Fs N → Prop :=
  fun fs fs' => ∃ s, fs' = Function.update fs n s

variable {n : N}

theorem avoids_onlyAt [DecidableEq N] {m : N} (other : m ≠ n) : Avoids (OnlyAt n) m := by
  intro fs _ s one
  obtain ⟨t, rfl⟩ := one
  exact ⟨update fs n t, ⟨t, rfl⟩, update_comm other s t fs⟩

def SparesOp (n : N) : Op N → Prop
  | .create m => m ≠ n
  | .write m _ _ => m ≠ n
  | .setLen m _ => m ≠ n
  | .sync m => m ≠ n
  | .remove m => m ≠ n
  | .rename src dst => src ≠ n ∧ dst ≠ n
  | .syncDir _ | .read _ | .readDir _ => True

def Spares (n : N) : Prog N α → Prop
  | .ret _ => True
  | .op o k => SparesOp n o ∧ ∀ r, (k r).Spares n

theorem Spares.bind {p : Prog N α} {f : α → Prog N β} (h : p.Spares n)
    (next : ∀ a, (f a).Spares n) : (p.bind f).Spares n := by
  induction p with
  | ret a => exact next a
  | op o k ih => exact ⟨h.1, fun r => ih r (h.2 r)⟩

variable {next : Prog N (Option α)}

theorem spares_ensure {o : Op N} (here : SparesOp n o)
    (h : next.Spares n) : (ensure o next).Spares n := by
  refine ⟨here, fun r => ?_⟩
  cases r with
  | done => exact h
  | failed | wrote | bytes | names => trivial

theorem spares_writeLoop {m : N} (other : m ≠ n) (fuel off : Nat) (b : Bytes) :
    (writeLoop m fuel off b).Spares n := by
  induction fuel generalizing off b with
  | zero => trivial
  | succ _ ih =>
    rw [writeLoop]
    split
    · trivial
    · refine ⟨other, fun r => ?_⟩
      cases r with
      | wrote => exact ih _ _
      | done | failed | bytes | names => trivial

theorem spares_ensureWrite {m : N} (other : m ≠ n) (off : Nat) (b : Bytes) (h : next.Spares n) :
    (ensureWrite m off b next).Spares n := by
  apply Spares.bind (spares_writeLoop other ..)
  intro ok
  cases ok with
  | true => exact h
  | false => trivial

theorem exec_spares [DecidableEq N] {o : Op N} {fs fs' : Fs N} {r : Reply N}
    (here : SparesOp n o) (exec : Exec o fs r fs') (durable : (fs n).old = []) : fs' n = fs n := by
  cases exec with
  | create | write | setLen | sync | remove => exact update_of_ne (Ne.symm here) _ _
  | rename =>
    unfold Fs.rename
    rw [update_of_ne here.1.symm, update_of_ne here.2.symm]
  | syncDir =>
    unfold Fs.syncDir
    split
    · rw [Slot.settle, ← durable]
    · rfl
  | read | readDir | writeMissing | setLenMissing | syncMissing | renameMissing | removeMissing |
      readMissing => rfl

theorem Spares.step [DecidableEq N] {p p' : Prog N α} {fs fs' : Fs N} (h : p.Spares n)
    (step : Step p fs p' fs') (durable : (fs n).old = []) : p'.Spares n ∧ fs' n = fs n := by
  cases step with
  | op exec => exact ⟨h.2 _, exec_spares h.1 exec durable⟩

end Spare

end Prog

end CrashFs
