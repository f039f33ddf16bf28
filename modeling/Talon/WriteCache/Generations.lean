import Mathlib.Data.List.ReduceOption
import Talon.WriteCache.Order

/-!
# Ordered runs keep the generation order

The invariant of a run whose entries are inserted in order.  An object is in one of five shapes:
nothing held, pending, in flight, in flight with a newer generation pending, or parked.  The
flusher's transitions only move an entry between these places or drop one that a newer generation
or a completion covers, so one lemma about dropping entries serves them all.
-/

set_option autoImplicit false

namespace Talon.WriteCache

open CrashFs Talon.Core PartialMap CrashFs.Prog Relation List
open Or (inr inl)
open Externals (sample)

def Inner.Has (inner : Inner) (object : ObjectId) (entry : Entry) : Prop :=
  inner.pending object = some entry ∨ inner.inflight object = some entry ∨
    inner.failed object = some entry

variable {inner : Inner} {object : ObjectId} {seq : Nat} {entry : Entry}

theorem Inner.holds_iff :
    inner.Holds object seq ↔ ∃ entry : Entry, entry.seq = seq ∧ inner.Has object entry := Iff.rfl

/-- The places of one object's entries, and that the last of them is its newest generation. -/
structure Inner.Shape (returned : Nat → Option (ObjectId × Bytes)) (inner : Inner) : Prop where
  apart : ∀ object p i, inner.pending object = some p → inner.inflight object = some i →
    i.seq < p.seq
  parked : ∀ object f, inner.failed object = some f →
    inner.pending object = none ∧ inner.inflight object = none
  latest : ∀ object entry, inner.Has object entry →
    (inner.inflight object = some entry → inner.pending object = none) →
    ∀ s body, returned s = some (object, body) → s ≤ entry.seq

structure Inv (sys : Externals) (w : World) : Prop where
  call_fresh : ∀ s call, w.calls s = some call → s < w.nextSeq ∧ w.returned s = none
  returned_fresh : ∀ s x, w.returned s = some x → s < w.nextSeq
  call_entry : ∀ s object body entry, w.calls s = some ⟨object, body, some entry⟩ →
    entry = entryOf sys s body
  entries : ∀ object entry, w.inner.Has object entry →
    ∃ body, w.returned entry.seq = some (object, body) ∧ entry = entryOf sys entry.seq body
  shape : w.inner.Shape w.returned
  held : ∀ object seq body, w.Newest object seq body → w.inner.Holds object seq
  queued : ∀ object, w.inner.pending object ≠ none → object ∈ w.inner.queue
  files : FilesOf sys w.fs w.Live
  taken_returned : ∀ t ∈ w.taken, ∃ body, w.returned t.seq = some (t.object, body)
  taken_held : ∀ t ∈ w.taken, ∀ s, w.inner.Holds t.object s → t.seq ≤ s
  taken_sorted : w.taken.Pairwise fun a b => a.object = b.object → a.seq ≤ b.seq

variable {sys : Externals} {w : World}

theorem inv_opened : Inv sys World.opened := by
  have bare : ∀ object entry, ¬ World.opened.inner.Has object entry := by
    simp [World.opened, Inner.Has, Inner.default]
  refine ⟨nofun, nofun, nofun, fun o e has => absurd has (bare o e), ⟨nofun, nofun, ?_⟩, ?_,
    fun _ some => absurd rfl some, ⟨?_, ?_, fun _ _ => rfl⟩, nofun, nofun, .nil⟩
  · exact fun o e has => absurd has (bare o e)
  · exact fun _ _ _ newest => nomatch newest.found
  · simp [World.opened, World.Live]
  · simp [World.opened, World.Live]

/-! ## The files -/

variable {fs' : Fs Name}

variable {seq : Nat} {body : Bytes} {queue : List ObjectId}

section Files

variable {fs : Fs Name} {live live' : Nat → ObjectId → Bytes → Prop}

theorem FilesOf.congr (files : FilesOf sys fs live)
    (same : ∀ s object b, live s object b ↔ live' s object b) : FilesOf sys fs live' := by
  refine ⟨fun h seq b => ?_, fun h seq raw => ?_, files.staged⟩
  · rw [files.data]
    simp [same]
  · rw [files.sidecar]
    simp [same]

variable {h : UInt64}

theorem number_of_dataPath {s : Nat} (path : Name.data ⟨h, s⟩ = dataPath sys object seq) :
    s = seq := congrArg Stem.seq (Name.data.inj path)

theorem number_of_metaPath {s : Nat} (path : Name.sidecar ⟨h, s⟩ = metaPath sys object seq) :
    s = seq := congrArg Stem.seq (Name.sidecar.inj path)

theorem FilesOf.stage {object : ObjectId} (files : FilesOf sys fs live)
    (fresh : ∀ o b, ¬ live seq o b) (new : StagedContents sys fs fs' object seq body) :
    FilesOf sys fs' (fun s o b => live s o b ∨ (s = seq ∧ o = object ∧ b = body)) := by
  refine ⟨fun h s b => ?_, fun h s raw => ?_, fun id c => new.staged id c (files.staged id c)⟩
  · by_cases here : Name.data ⟨h, s⟩ = dataPath sys object seq
    · obtain rfl := number_of_dataPath here
      rw [here, new.data]
      constructor
      · intro eq
        exact ⟨object, inr ⟨rfl, rfl, (Option.some.inj eq).symm⟩, rfl⟩
      · rintro ⟨o, old | ⟨-, -, rfl⟩, -⟩
        · exact absurd old (fresh o b)
        · rfl
    · rw [new.other _ rfl here (by simp [metaPath]), files.data]
      constructor
      · rintro ⟨o, old, path⟩
        exact ⟨o, inl old, path⟩
      · rintro ⟨o, old | ⟨rfl, rfl, rfl⟩, path⟩
        · exact ⟨o, old, path⟩
        · exact absurd path.symm here
  · by_cases here : Name.sidecar ⟨h, s⟩ = metaPath sys object seq
    · obtain rfl := number_of_metaPath here
      rw [here, new.sidecar]
      constructor
      · intro eq
        exact ⟨object, body, inr ⟨rfl, rfl, rfl⟩, rfl, (Option.some.inj eq).symm⟩
      · rintro ⟨o, b, old | ⟨-, rfl, rfl⟩, -, rfl⟩
        · exact absurd old (fresh o b)
        · rfl
    · rw [new.other _ rfl (by simp [dataPath]) here, files.sidecar]
      constructor
      · rintro ⟨o, b, old, path, raw⟩
        exact ⟨o, b, inl old, path, raw⟩
      · rintro ⟨o, b, old | ⟨rfl, rfl, rfl⟩, path, raw⟩
        · exact ⟨o, b, old, path, raw⟩
        · exact absurd path.symm here

theorem FilesOf.removeAll {gens : List (ObjectId × Nat)} (files : FilesOf sys fs live)
    (unique : ∀ s o b o' b', live s o b → live s o' b' → o = o')
    (known : ∀ g ∈ gens, ∃ b, live g.2 g.1 b) :
    FilesOf sys (removedAll sys fs gens) (fun s o b => live s o b ∧ (o, s) ∉ gens) := by
  refine ⟨fun h s b => ?_, fun h s raw => ?_, fun id c => ?_⟩
  · rw [contents_removedAll]
    split
    · rename_i hit
      obtain ⟨g, mem, path | path⟩ := hit
      · simp [metaPath] at path
      · constructor
        · simp
        · rintro ⟨o, ⟨now, kept⟩, other⟩
          obtain rfl := number_of_dataPath path
          obtain ⟨b', was⟩ := known g mem
          exact absurd (unique _ _ _ _ _ now was ▸ mem) kept
    · rename_i miss
      rw [files.data]
      constructor
      · rintro ⟨o, now, path⟩
        refine ⟨o, ⟨now, fun mem => miss ⟨(o, s), mem, inr path.symm⟩⟩, path⟩
      · rintro ⟨o, ⟨now, -⟩, path⟩
        exact ⟨o, now, path⟩
  · rw [contents_removedAll]
    split
    · rename_i hit
      obtain ⟨g, mem, path | path⟩ := hit
      · constructor
        · simp
        · rintro ⟨o, b, ⟨now, kept⟩, _, -⟩
          obtain rfl := number_of_metaPath path
          obtain ⟨_, was⟩ := known g mem
          exact absurd (unique _ _ _ _ _ now was ▸ mem) kept
      · simp [dataPath] at path
    · rename_i miss
      rw [files.sidecar]
      constructor
      · rintro ⟨o, b, now, path, raw⟩
        exact ⟨o, b, ⟨now, fun mem => miss ⟨(o, s), mem, inl path.symm⟩⟩, path, raw⟩
      · rintro ⟨o, b, ⟨now, -⟩, path, raw⟩
        exact ⟨o, b, now, path, raw⟩
  · rw [contents_removedAll]
    split
    · rfl
    · exact files.staged id c

end Files

/-! ## Dropping entries -/

section

variable (inv : Inv sys w)
include inv

theorem Inv.returned_of_holds (holds : w.inner.Holds object seq) :
    ∃ body, w.returned seq = some (object, body) := by
  obtain ⟨entry, rfl, has⟩ := holds
  obtain ⟨body, found, -⟩ := inv.entries object entry has
  exact ⟨body, found⟩

theorem Inv.live_unique (s : Nat) (o : ObjectId) (b : Bytes) (o' : ObjectId)
    (b' : Bytes) (one : w.Live s o b) (two : w.Live s o' b') : o = o' := by
  rcases one with ⟨e, call⟩ | ⟨found, -⟩ <;> rcases two with ⟨_, call'⟩ | ⟨found', -⟩
  · rw [call] at call'
    cases call'
    rfl
  · rw [(inv.call_fresh s _ call).2] at found'
    cases found'
  · rw [(inv.call_fresh s _ call').2] at found
    cases found
  · rw [found] at found'
    cases found'
    rfl

end

section

variable {gens : List (ObjectId × Nat)} (inv : Inv sys w)
  (known : ∀ g ∈ gens, w.inner.Holds g.1 g.2)
include inv known

theorem Inv.files_removed :
    FilesOf sys (removedAll sys w.fs gens) (fun s o b => w.Live s o b ∧ (o, s) ∉ gens) := by
  refine inv.files.removeAll inv.live_unique fun g mem => ?_
  obtain ⟨body, found⟩ := inv.returned_of_holds (known g mem)
  exact ⟨body, inr ⟨found, known g mem⟩⟩

theorem Inv.call_kept (fresh : w.returned seq = none) (o : ObjectId) : (o, seq) ∉ gens := by
  intro mem
  obtain ⟨_, found⟩ := inv.returned_of_holds (known (o, seq) mem)
  rw [fresh] at found
  cases found

end

section

variable (inv : Inv sys w)
include inv

/-- A transition that drops the entries `gens` together with their files and moves the others. -/
theorem Inv.drop {completed : List (ObjectId × Nat)} (gens : List (ObjectId × Nat))
    (has : ∀ o e, inner.Has o e ↔ w.inner.Has o e ∧ (o, e.seq) ∉ gens)
    (known : ∀ g ∈ gens, w.inner.Holds g.1 g.2) (shape : inner.Shape w.returned)
    (queued : ∀ object, inner.pending object ≠ none → object ∈ inner.queue)
    (more : w.completed ⊆ completed)
    (covered : ∀ g ∈ gens, ∀ b, ¬ IsNewest w.returned completed g.1 g.2 b) :
    Inv sys { w with inner := inner, fs := removedAll sys w.fs gens, completed := completed } := by
  have holds : ∀ o s, inner.Holds o s ↔ w.inner.Holds o s ∧ (o, s) ∉ gens := by
    intro o s
    simp only [Inner.holds_iff, has]
    constructor
    · rintro ⟨e, rfl, h, kept⟩
      exact ⟨⟨e, rfl, h⟩, kept⟩
    · rintro ⟨⟨e, rfl, h⟩, kept⟩
      exact ⟨e, rfl, h, kept⟩
  refine { inv with
    entries := ?_, shape := shape, held := ?_, queued := queued, files := ?_, taken_held := ?_ }
  · intro o e h
    exact inv.entries o e ((has o e).mp h).1
  · intro o s b newest
    have before : w.Newest o s b :=
      ⟨newest.found, newest.highest, fun s' mem => newest.uncompleted s' (more mem)⟩
    exact (holds o s).mpr ⟨inv.held o s b before, fun mem => covered (o, s) mem b newest⟩
  · refine (inv.files_removed known).congr fun s o b => ?_
    constructor
    · rintro ⟨⟨e, call⟩ | ⟨found, held⟩, kept⟩
      · exact inl ⟨e, call⟩
      · exact inr ⟨found, (holds o s).mpr ⟨held, kept⟩⟩
    · rintro (⟨e, call⟩ | ⟨found, held⟩)
      · exact ⟨inl ⟨e, call⟩, inv.call_kept known (inv.call_fresh s _ call).2 o⟩
      · obtain ⟨held, kept⟩ := (holds o s).mp held
        exact ⟨inr ⟨found, held⟩, kept⟩
  · intro t mem s h
    exact inv.taken_held t mem s ((holds t.object s).mp h).1

theorem Inv.move (has : ∀ o e, inner.Has o e ↔ w.inner.Has o e) (shape : inner.Shape w.returned)
    (queued : ∀ object, inner.pending object ≠ none → object ∈ inner.queue) :
    Inv sys { w with inner := inner } := by
  refine inv.drop [] (fun o e => ?_) (by simp) shape queued (fun _ mem => mem) (by simp)
  simp [has]

end

/-! ## Taking a generation -/

theorem Inner.scan_spec {l skipped : List ObjectId} {found : Option (ObjectId × Entry)}
    (h : inner.scan l skipped = (found, queue)) :
    (∀ o e, found = some (o, e) → inner.pending o = some e ∧ inner.inflight o = none) ∧
      ∀ x, x ∈ l ∨ x ∈ skipped → inner.pending x ≠ none →
        x ∈ queue ∨ ∃ e, found = some (x, e) := by
  induction l generalizing skipped with
  | nil =>
    obtain ⟨rfl, rfl⟩ := h
    exact ⟨by simp, fun x mem _ => inl (by simpa using mem)⟩
  | cons y _ ih =>
    rw [Inner.scan] at h
    cases pending : inner.pending y with
    | none =>
      rw [pending] at h
      obtain ⟨taken, kept⟩ := ih h
      refine ⟨taken, fun x mem isPending => ?_⟩
      rcases mem with mem | mem
      · rcases mem_cons.mp mem with rfl | later
        · exact absurd pending isPending
        · exact kept x (inl later) isPending
      · exact kept x (inr mem) isPending
    | some entry =>
      rw [pending] at h
      simp only at h
      split at h
      · obtain ⟨taken, kept⟩ := ih h
        refine ⟨taken, fun x mem isPending => kept x ?_ isPending⟩
        rcases mem with mem | mem
        · rcases mem_cons.mp mem with rfl | later
          · exact inr (by simp)
          · exact inl later
        · exact inr (by simp [mem])
      · rename_i idle
        obtain ⟨rfl, rfl⟩ := h
        refine ⟨?_, fun x mem isPending => ?_⟩
        · intro o e eq
          cases eq
          exact ⟨pending, by simpa using idle⟩
        · rcases mem with mem | mem
          · rcases mem_cons.mp mem with rfl | later
            · exact inr ⟨entry, rfl⟩
            · exact inl (by simp [later])
          · exact inl (by simp [mem])

variable {C : Fs Name → Prop}

theorem safe_readVerified {fs : Fs Name} {Q : Except ReadError Bytes → Fs Name → Prop}
    (file : fs.contents (dataPath sys object entry.seq) = some body)
    (matching : entry = entryOf sys entry.seq body) (crash : C fs) (result : Q (.ok body) fs) :
    (readVerified sys object entry).Safe Alone C Q fs := by
  unfold readVerified
  rw [safe_op]
  refine ⟨crash, fun r fs' exec => ?_⟩
  have len : body.length = entry.len := by rw [matching, entryOf]
  have checksum : sys.xxh3 body = entry.checksum := by rw [matching, entryOf]
  cases exec with
  | read _ _ b present =>
    rw [present] at file
    cases file
    simp only [len, ne_eq, not_true_eq_false, ↓reduceIte, checksum]
    rw [safe_ret]
    exact ⟨crash, result⟩
  | readMissing _ _ missing =>
    simp [Fs.contents, missing] at file

theorem Inv.file_of_has (inv : Inv sys w) (has : w.inner.Has object entry) :
    ∃ body, w.returned entry.seq = some (object, body) ∧ entry = entryOf sys entry.seq body ∧
      w.fs.contents (dataPath sys object entry.seq) = some body := by
  obtain ⟨body, found, matching⟩ := inv.entries object entry has
  refine ⟨body, found, matching, ?_⟩
  exact (inv.files.data ..).mpr ⟨object, inr ⟨found, entry, rfl, has⟩, rfl⟩

def Inner.Took (inner : Inner) (r : Inner × Option FlushItem) : Prop :=
  (r.2 = none ∧ ∃ queue, r.1 = { inner with queue := queue } ∧
      ∀ x, inner.pending x ≠ none → x ∈ queue) ∨
    ∃ object entry body queue, inner.pending object = some entry ∧
      inner.inflight object = none ∧ r.1 = inner.start object entry queue ∧
      r.2 = some ⟨object, entry.seq, body⟩ ∧
      ∀ x, inner.pending x ≠ none → x = object ∨ x ∈ queue

theorem Inv.safe_takeNext (inv : Inv sys w) (crash : C w.fs) :
    (WriteCache.takeNext sys w.inner).Safe Alone C
      (fun r fs' => fs' = w.fs ∧ w.inner.Took r) w.fs := by
  unfold WriteCache.takeNext
  rw [takeLoop]
  rcases scanned : w.inner.scan w.inner.queue [] with ⟨found, queue⟩
  obtain ⟨taken, kept⟩ := Inner.scan_spec scanned
  cases found with
  | none =>
    rw [safe_ret]
    refine ⟨crash, rfl, inl ⟨rfl, queue, rfl, fun x isPending => ?_⟩⟩
    rcases kept x (inl (inv.queued x isPending)) isPending with mem | ⟨e, none⟩
    · exact mem
    · cases none
  | some pair =>
    obtain ⟨object, entry⟩ := pair
    obtain ⟨pending, idle⟩ := taken object entry rfl
    obtain ⟨body, -, matching, file⟩ := inv.file_of_has (inl pending)
    apply Safe.bind
    refine safe_readVerified file matching crash ?_
    rw [safe_ret]
    refine ⟨crash, rfl, inr ⟨object, entry, body, queue, pending, idle, rfl, rfl, ?_⟩⟩
    intro x isPending
    rcases kept x (inl (inv.queued x isPending)) isPending with mem | ⟨e, eq⟩
    · exact inr mem
    · cases eq
      exact inl rfl

variable {returned : Nat → Option (ObjectId × Bytes)}

theorem Inner.Shape.unparked (shape : inner.Shape returned)
    (held : inner.pending object ≠ none ∨ inner.inflight object ≠ none) :
    inner.failed object = none := by
  by_contra failed
  obtain ⟨f, failed⟩ := Option.ne_none_iff_exists'.mp failed
  obtain ⟨pending, inflight⟩ := shape.parked object f failed
  exact held.elim (absurd pending) (absurd inflight)

theorem Inner.Shape.alone {inner' : Inner} (shape : inner.Shape returned)
    (elsewhere : ∀ o, o ≠ object → inner'.pending o = inner.pending o ∧
      inner'.inflight o = inner.inflight o ∧ inner'.failed o = inner.failed o)
    (one : (inner'.pending object, inner'.inflight object, inner'.failed object) ∈
      [(some entry, none, none), (none, some entry, none), (none, none, some entry)])
    (above : ∀ s body, returned s = some (object, body) → s ≤ entry.seq) :
    inner'.Shape returned := by
  simp only [mem_cons, Prod.mk.injEq, not_mem_nil, or_false] at one
  refine ⟨?_, ?_, ?_⟩
  · intro o p i hp hi
    by_cases here : o = object
    · subst here
      rcases one with ⟨_, none, _⟩ | ⟨none, _, _⟩ | ⟨none, _, _⟩ <;> simp [none] at hp hi
    · obtain ⟨pending, inflight, _⟩ := elsewhere o here
      exact shape.apart o p i (pending ▸ hp) (inflight ▸ hi)
  · intro o f hf
    by_cases here : o = object
    · subst here
      rcases one with ⟨_, _, none⟩ | ⟨_, _, none⟩ | ⟨pending, inflight, _⟩
      · simp [none] at hf
      · simp [none] at hf
      · exact ⟨pending, inflight⟩
    · obtain ⟨pending, inflight, failed⟩ := elsewhere o here
      rw [pending, inflight]
      exact shape.parked o f (failed ▸ hf)
  · intro o e has last s body found
    by_cases here : o = object
    · subst here
      have only : e = entry := by
        rcases one with ⟨p, i, f⟩ | ⟨p, i, f⟩ | ⟨p, i, f⟩ <;> simpa [Inner.Has, p, i, f, eq_comm]
          using has
      exact only ▸ above s body found
    · obtain ⟨pending, inflight, failed⟩ := elsewhere o here
      rw [Inner.Has, pending, inflight, failed] at has
      rw [inflight, pending] at last
      exact shape.latest o e has last s body found

section

variable (inv : Inv sys w)
include inv

theorem Inv.start (pending : w.inner.pending object = some entry)
    (idle : w.inner.inflight object = none)
    (kept : ∀ x, w.inner.pending x ≠ none → x = object ∨ x ∈ queue) :
    Inv sys { w with inner := w.inner.start object entry queue } := by
  have unparked : w.inner.failed object = none :=
    inv.shape.unparked (inl (by simp [pending]))
  have above := inv.shape.latest object entry (inl pending) (by simp [idle])
  refine inv.move (fun o e => ?_) (inv.shape.alone (fun o (other : o ≠ object) => ?_) ?_ above) ?_
  · by_cases here : o = object
    · subst here
      simp [Inner.Has, Inner.start, pending, idle]
    · simp [Inner.Has, Inner.start, here]
  · simp [Inner.start, other]
  · simp [Inner.start, unparked]
  · intro o h
    by_cases here : o = object
    · subst here
      simp [Inner.start] at h
    · rcases kept o (by simpa [Inner.start, here] using h) with same | mem
      · exact absurd same here
      · exact mem

theorem Inv.takeNext {r : Inner × Option FlushItem} (took : w.inner.Took r) :
    Inv sys { w with inner := r.1, taken := w.taken ++ r.2.toList } := by
  obtain ⟨inner, _⟩ := r
  obtain ⟨rfl, queue, rfl, kept⟩ | ⟨object, entry, _, queue, pending, idle, rfl, rfl,
    kept⟩ := took
  · have moved : Inv sys { w with inner := { w.inner with queue := queue } } :=
      inv.move (fun _ _ => Iff.rfl)
        ⟨inv.shape.apart, inv.shape.parked, inv.shape.latest⟩ kept
    simpa using moved
  · have moved := inv.start pending idle kept
    have only : ∀ s, (w.inner.start object entry queue).Holds object s → entry.seq ≤ s := by
      rintro s ⟨e, rfl, has⟩
      rcases has with h | h | h
      · simp [Inner.start] at h
      · simp only [Inner.start, insert_self, Option.some.injEq] at h
        rw [h]
      · rw [(inv.shape.parked object e h).1] at pending
        cases pending
    obtain ⟨body', found, -⟩ := inv.entries object entry (inl pending)
    refine { moved with taken_returned := ?_, taken_held := ?_, taken_sorted := ?_ }
    · intro t mem
      rcases mem_append.mp mem with old | new
      · exact inv.taken_returned t old
      · simp only [Option.toList_some, mem_singleton] at new
        subst new
        exact ⟨body', found⟩
    · intro t mem s holds
      rcases mem_append.mp mem with old | new
      · exact moved.taken_held t old s holds
      · simp only [Option.toList_some, mem_singleton] at new
        subst new
        exact only s holds
    · simp only [Option.toList_some, pairwise_append, pairwise_singleton,
        mem_singleton, forall_eq, true_and]
      refine ⟨inv.taken_sorted, fun t mem same => ?_⟩
      exact inv.taken_held t mem entry.seq (same ▸ ⟨entry, rfl, inl pending⟩)

end

/-! ## Retiring, requeueing and parking -/

theorem Inner.inflightAt_eq_some :
    inner.inflightAt object seq = some entry ↔
      inner.inflight object = some entry ∧ entry.seq = seq := by
  simp [Inner.inflightAt, Option.filter_eq_some_iff]

theorem Inner.newerPending_iff :
    inner.newerPending object entry = true ↔
      ∃ newer, inner.pending object = some newer ∧ entry.seq < newer.seq := by
  simp [Inner.newerPending, Option.any_eq_true]

section Inflight

variable {object : ObjectId} {entry : Entry}

theorem Inv.not_newest_of_newer (inv : Inv sys w) (newer : w.inner.newerPending object entry = true)
    (b : Bytes) : ¬ IsNewest w.returned w.completed object entry.seq b := by
  intro newest
  obtain ⟨p, pending, _⟩ := Inner.newerPending_iff.mp newer
  obtain ⟨body, found, -⟩ := inv.entries object p (inl pending)
  have := newest.highest p.seq body found
  omega

section

variable (inv : Inv sys w) (inflight : w.inner.inflight object = some entry)
include inv inflight

theorem Inv.unparked : w.inner.failed object = none :=
  inv.shape.unparked (inr (by simp [inflight]))

theorem Inv.has_retire (o : ObjectId) (e : Entry) :
    (w.inner.retire object).Has o e ↔ w.inner.Has o e ∧ (o, e.seq) ∉ [(object, entry.seq)] := by
  have unparked := inv.unparked inflight
  by_cases here : o = object
  · subst here
    constructor
    · rintro (h | h | h)
      · have below := inv.shape.apart o e entry h inflight
        refine ⟨inl h, ?_⟩
        simp only [mem_singleton, Prod.mk.injEq, true_and]
        omega
      · simp [Inner.retire] at h
      · rw [show (w.inner.retire o).failed o = w.inner.failed o from rfl, unparked] at h
        cases h
    · rintro ⟨h | h | h, other⟩
      · exact inl h
      · rw [inflight] at h
        cases h
        simp at other
      · rw [unparked] at h
        cases h
  · simp [Inner.Has, Inner.retire, here]

theorem Inv.shape_retire : (w.inner.retire object).Shape w.returned := by
  refine ⟨?_, ?_, ?_⟩
  · intro o p i hp hi
    by_cases here : o = object
    · subst here
      simp [Inner.retire] at hi
    · simp only [Inner.retire, ne_eq, here, not_false_eq_true, erase_of_ne] at hp hi
      exact inv.shape.apart o p i hp hi
  · intro o f hf
    obtain ⟨noPending, noInflight⟩ := inv.shape.parked o f hf
    refine ⟨noPending, ?_⟩
    by_cases here : o = object
    · subst here
      simp [Inner.retire]
    · simpa [Inner.retire, here] using noInflight
  · intro o e has last s body found
    obtain ⟨was, kept⟩ := (inv.has_retire inflight o e).mp has
    refine inv.shape.latest o e was ?_ s body found
    intro flying
    by_cases here : o = object
    · subst here
      rw [inflight] at flying
      cases flying
      simp at kept
    · exact last (by simpa [Inner.retire, here] using flying)

theorem Inv.retire {completed : List (ObjectId × Nat)} (more : w.completed ⊆ completed)
    (covered : ∀ b, ¬ IsNewest w.returned completed object entry.seq b) :
    Inv sys { w with
      inner := w.inner.retire object
      fs := removed sys w.fs object entry.seq
      completed := completed } := by
  refine inv.drop [(object, entry.seq)] (inv.has_retire inflight) ?_ (inv.shape_retire inflight)
    inv.queued more ?_
  · intro g mem
    simp only [mem_singleton] at mem
    subst mem
    exact ⟨entry, rfl, inr (inl inflight)⟩
  · intro g mem
    simp only [mem_singleton] at mem
    subst mem
    exact covered

theorem Inv.pending_none (current : ¬ w.inner.newerPending object entry = true) :
    w.inner.pending object = none := by
  cases pending : w.inner.pending object with
  | none => rfl
  | some p =>
    have below := inv.shape.apart object p entry pending inflight
    exact absurd (Inner.newerPending_iff.mpr ⟨p, pending, below⟩) current

end

variable {inner : Inner}

theorem Inv.complete (inv : Inv sys w)
    (run : Runs (complete sys w.inner object seq) w.fs inner fs') :
    Inv sys { w with
      inner := inner
      fs := fs'
      completed := if (w.inner.inflightAt object seq).isSome then (object, seq) :: w.completed
        else w.completed } := by
  unfold WriteCache.complete at run
  cases found : w.inner.inflightAt object seq with
  | none =>
    rw [found] at run
    cases run
    simpa [found] using inv
  | some e =>
    rw [found] at run
    obtain ⟨inflight, rfl⟩ := Inner.inflightAt_eq_some.mp found
    obtain ⟨rfl, rfl⟩ := removeFiles_then_runs run
    refine inv.retire inflight (subset_cons_self _ _) fun b newest => ?_
    exact absurd (newest.uncompleted e.seq mem_cons_self) (lt_irrefl _)

/-- What `requeue` and `park_failed` have in common: they put the generation in flight back, unless
a newer one is pending. -/
def settle (sys : Externals) (next : Inner → ObjectId → Entry → Inner) (inner : Inner)
    (object : ObjectId)
    (seq : Nat) : Prog Name Inner :=
  match inner.inflightAt object seq with
  | none => .ret inner
  | some entry =>
    if inner.newerPending object entry then
      (removeFiles sys object seq).bind fun _ => .ret (inner.retire object)
    else .ret (next (inner.retire object) object entry)

section

variable (inv : Inv sys w) (inflight : w.inner.inflight object = some entry)
  (idle : w.inner.pending object = none)
include inv inflight idle

theorem Inv.enqueue : Inv sys { w with inner := (w.inner.retire object).enqueue object entry } := by
  have unparked := inv.unparked inflight
  have above := inv.shape.latest object entry (inr (inl inflight)) fun _ => idle
  refine inv.move (fun o e => ?_) (inv.shape.alone (fun o (other : o ≠ object) => ?_) ?_ above) ?_
  · by_cases here : o = object
    · subst here
      simp [Inner.Has, Inner.enqueue, Inner.retire, inflight, idle]
    · simp [Inner.Has, Inner.enqueue, Inner.retire, here]
  · simp [Inner.enqueue, Inner.retire, other]
  · simp [Inner.enqueue, Inner.retire, unparked]
  · intro o h
    by_cases here : o = object
    · subst here
      simp [Inner.enqueue]
    · have := inv.queued o (by simpa [Inner.enqueue, Inner.retire, here] using h)
      simp [Inner.enqueue, Inner.retire, this]

theorem Inv.park : Inv sys { w with inner := (w.inner.retire object).park object entry } := by
  have above := inv.shape.latest object entry (inr (inl inflight)) fun _ => idle
  refine inv.move (fun o e => ?_) (inv.shape.alone (fun o (other : o ≠ object) => ?_) ?_ above)
    inv.queued
  · by_cases here : o = object
    · subst here
      simp [Inner.Has, Inner.park, Inner.retire, inflight, idle, inv.unparked inflight]
    · simp [Inner.Has, Inner.park, Inner.retire, here]
  · simp [Inner.park, Inner.retire, other]
  · simp [Inner.park, Inner.retire, idle]

end

theorem Inv.settle (inv : Inv sys w) {next : Inner → ObjectId → Entry → Inner}
    (keeps : ∀ e, w.inner.inflight object = some e → w.inner.pending object = none →
      Inv sys { w with inner := next (w.inner.retire object) object e })
    (run : Runs (settle sys next w.inner object seq) w.fs inner fs') :
    Inv sys { w with inner := inner, fs := fs' } := by
  unfold WriteCache.settle at run
  cases found : w.inner.inflightAt object seq with
  | none =>
    rw [found] at run
    cases run
    exact inv
  | some e =>
    rw [found] at run
    obtain ⟨inflight, rfl⟩ := Inner.inflightAt_eq_some.mp found
    simp only at run
    split at run
    · rename_i newer
      obtain ⟨rfl, rfl⟩ := removeFiles_then_runs run
      exact inv.retire inflight (fun _ mem => mem) (inv.not_newest_of_newer newer)
    · rename_i current
      cases run
      exact keeps e inflight (inv.pending_none inflight current)

end Inflight

variable {parked : List (ObjectId × Entry)}

theorem Inner.rearm_spec (inner : Inner) (nodup : (parked.map Prod.fst).Nodup)
    (idle : ∀ o e, (o, e) ∈ parked → inner.pending o = none) :
    (inner.rearm parked).2.2 = [] ∧ (inner.rearm parked).1.inflight = inner.inflight ∧
      (inner.rearm parked).1.failed = inner.failed ∧
      (∀ o e, (inner.rearm parked).1.pending o = some e ↔
        inner.pending o = some e ∨ (o, e) ∈ parked) ∧
      ∀ o, o ∈ inner.queue ∨ (∃ e, (o, e) ∈ parked) → o ∈ (inner.rearm parked).1.queue := by
  induction parked generalizing inner with
  | nil => simp [Inner.rearm]
  | cons pair rest ih =>
    obtain ⟨object, entry⟩ := pair
    simp only [map_cons, nodup_cons] at nodup
    have none := idle object entry mem_cons_self
    have current : inner.newerPending object entry = false := by
      simp [Inner.newerPending, none]
    have apart : ∀ o e, (o, e) ∈ rest → o ≠ object := by
      rintro o e mem rfl
      exact nodup.1 (mem_map_of_mem (f := Prod.fst) mem)
    obtain ⟨clean, inflight, failed, pending, queue⟩ := ih (inner.enqueue object entry)
      nodup.2 (fun o e mem => by
        simpa [Inner.enqueue, apart o e mem] using idle o e (mem_cons_of_mem _ mem))
    simp only [Inner.rearm, current, Bool.false_eq_true, ↓reduceIte]
    refine ⟨clean, inflight, failed, fun o e => ?_, fun o mem => queue o ?_⟩
    · rw [pending]
      by_cases here : o = object
      · subst here
        have notLater : ∀ e, (o, e) ∉ rest := fun e mem => apart o e mem rfl
        simp [Inner.enqueue, none, notLater, eq_comm]
      · simp [Inner.enqueue, here]
    · rcases mem with mem | ⟨e, mem⟩
      · exact inl (by simp [Inner.enqueue, mem])
      · rcases mem_cons.mp mem with same | later
        · cases same
          exact inl (by simp [Inner.enqueue])
        · exact inr ⟨e, later⟩

theorem Inv.rearm (inv : Inv sys w)
    (drained : Lists parked w.inner.failed) :
    (Inner.rearm { w.inner with failed := empty } parked).2.2 = [] ∧
      Inv sys { w with inner := (Inner.rearm { w.inner with failed := empty } parked).1 } := by
  have idle : ∀ o e, (o, e) ∈ parked → w.inner.pending o = none := fun o e mem =>
    (inv.shape.parked o e ((drained.mem_iff o e).mp mem)).1
  obtain ⟨clean, inflight, failed, pending, queue⟩ :=
    Inner.rearm_spec { w.inner with failed := empty } drained.nodup idle
  refine ⟨clean, ?_⟩
  have back : ∀ o e, (Inner.rearm { w.inner with failed := empty } parked).1.pending o = some e ↔
      w.inner.pending o = some e ∨ w.inner.failed o = some e := by
    intro o e
    rw [pending, drained.mem_iff]
  have has : ∀ o e, (Inner.rearm { w.inner with failed := empty } parked).1.Has o e ↔
      w.inner.Has o e := by
    intro o e
    simp only [Inner.Has, back, inflight, failed, empty_apply, reduceCtorEq, or_false]
    tauto
  refine inv.move has ⟨?_, ?_, ?_⟩ ?_
  · intro o p i hp hi
    rw [inflight] at hi
    rcases (back o p).mp hp with old | old
    · exact inv.shape.apart o p i old hi
    · rw [(inv.shape.parked o p old).2] at hi
      cases hi
  · intro o f hf
    rw [failed] at hf
    simp at hf
  · intro o e h last s body found
    refine inv.shape.latest o e ((has o e).mp h) (fun flying => ?_) s body found
    have gone := last (by rw [inflight]; exact flying)
    cases was : w.inner.pending o with
    | none => rfl
    | some p =>
      rw [(back o p).mpr (inl was)] at gone
      cases gone
  · intro o h
    obtain ⟨e, now⟩ := Option.ne_none_iff_exists'.mp h
    rcases (pending o e).mp now with old | old
    · exact queue o (inl (inv.queued o (by rw [old]; simp)))
    · exact queue o (inr ⟨e, old⟩)

/-! ## Staging -/

section

variable (inv : Inv sys w)
include inv

theorem Inv.allocate (object : ObjectId) (body : Bytes) : Inv sys (w.allocated object body) := by
  unfold World.allocated
  have unused : w.calls w.nextSeq = none := by
    cases used : w.calls w.nextSeq with
    | none => rfl
    | some => exact absurd (inv.call_fresh _ _ used).1 (lt_irrefl _)
  have unreturned : w.returned w.nextSeq = none := by
    cases used : w.returned w.nextSeq with
    | none => rfl
    | some => exact absurd (inv.returned_fresh _ _ used) (lt_irrefl _)
  refine { inv with call_fresh := ?_, returned_fresh := ?_, call_entry := ?_, files := ?_ }
  · refine forall_insert ⟨Nat.lt_succ_self _, unreturned⟩ fun s call _ h => ?_
    exact (inv.call_fresh s call h).imp_left Nat.lt_succ_of_lt
  · intro s x h
    exact Nat.lt_succ_of_lt (inv.returned_fresh s x h)
  · intro s o b e h
    by_cases here : s = w.nextSeq
    · subst here
      simp at h
    · exact inv.call_entry s o b e (by simpa [here] using h)
  · refine inv.files.congr fun s o b => or_congr ?_ Iff.rfl
    by_cases here : s = w.nextSeq
    · subst here
      simp [unused]
    · simp [here]

theorem Inv.wrote (running : w.calls seq = some ⟨object, body, none⟩)
    (new : StagedContents sys w.fs fs' object seq body) :
    Inv sys (w.wrote seq object body (entryOf sys seq body) fs') := by
  unfold World.wrote
  have unreturned := (inv.call_fresh _ _ running).2
  have fresh : ∀ o b, ¬ w.Live seq o b := by
    rintro o b (⟨e, call⟩ | ⟨found, -⟩)
    · rw [running] at call
      cases call
    · rw [unreturned] at found
      cases found
  refine { inv with call_fresh := ?_, call_entry := ?_, files := ?_ }
  · exact forall_insert (inv.call_fresh _ _ running) fun s call _ => inv.call_fresh s call
  · intro s o b e h
    by_cases here : s = seq
    · subst here
      simp only [insert_self, Option.some.injEq, StageCall.mk.injEq] at h
      obtain ⟨rfl, rfl, rfl⟩ := h
      rfl
    · exact inv.call_entry s o b e (by simpa [here] using h)
  · refine (inv.files.stage fresh new).congr fun s o b => ?_
    by_cases here : s = seq
    · subst here
      simp [World.Live, running, unreturned, eq_comm]
    · simp [World.Live, here]

end

theorem Inner.mem_superseded {g : ObjectId × Nat} :
    g ∈ (inner.insert object entry).2.map (fun old => (object, old.seq)) ↔
      g.1 = object ∧ ∃ old : Entry, old.seq = g.2 ∧
        (inner.pending object = some old ∨ inner.failed object = some old) := by
  simp only [Inner.insert, mem_map, mem_append, Option.mem_toList]
  constructor
  · rintro ⟨old, place, rfl⟩
    exact ⟨rfl, old, rfl, place⟩
  · rintro ⟨rfl, old, number, place⟩
    exact ⟨old, place, Prod.ext rfl number⟩

theorem Inner.has_insert (o : ObjectId) (e : Entry) :
    (inner.insert object entry).1.Has o e ↔
      (o = object ∧ (e = entry ∨ inner.inflight object = some e)) ∨
        (o ≠ object ∧ inner.Has o e) := by
  by_cases here : o = object
  · subst here
    simp [Inner.Has, Inner.insert, eq_comm]
  · simp [Inner.Has, Inner.insert, here]

theorem Inv.holds_insert (inv : Inv sys w) (object : ObjectId) (number : entry.seq = seq)
    (o : ObjectId) (s : Nat) :
    (w.inner.insert object entry).1.Holds o s ↔
      (o = object ∧ s = seq) ∨ (w.inner.Holds o s ∧
        (o, s) ∉ (w.inner.insert object entry).2.map (fun old => (object, old.seq))) := by
  simp only [Inner.holds_iff, Inner.has_insert, Inner.mem_superseded]
  constructor
  · rintro ⟨e, rfl, ⟨rfl, rfl | flying⟩ | ⟨elsewhere, has⟩⟩
    · exact inl ⟨rfl, number⟩
    · refine inr ⟨⟨e, rfl, inr (inl flying)⟩, ?_⟩
      rintro ⟨-, old, _, pending | failed⟩
      · have := inv.shape.apart o old e pending flying
        omega
      · rw [(inv.shape.parked o old failed).2] at flying
        cases flying
    · exact inr ⟨⟨e, rfl, has⟩, fun h => elsewhere h.1⟩
  · rintro (⟨rfl, rfl⟩ | ⟨⟨e, rfl, has⟩, kept⟩)
    · exact ⟨entry, number, inl ⟨rfl, inl rfl⟩⟩
    · by_cases here : o = object
      · subst here
        rcases has with h | h | h
        · exact absurd ⟨rfl, e, rfl, inl h⟩ kept
        · exact ⟨e, rfl, inl ⟨rfl, inr h⟩⟩
        · exact absurd ⟨rfl, e, rfl, inr h⟩ kept
      · exact ⟨e, rfl, inr ⟨here, has⟩⟩

section Insert

variable {seq : Nat} {object : ObjectId} {body : Bytes} {entry : Entry}

theorem Inv.shape_insert (inv : Inv sys w) (number : entry.seq = seq)
    (ordered : ∀ s b, w.returned s = some (object, b) → s < seq) :
    (w.inner.insert object entry).1.Shape
      (PartialMap.insert w.returned seq (object, body)) := by
  refine ⟨?_, ?_, ?_⟩
  · intro o p i hp hi
    by_cases here : o = object
    · subst here
      simp only [Inner.insert, insert_self, Option.some.injEq] at hp
      subst hp
      obtain ⟨b, found, -⟩ := inv.entries o i (inr (inl hi))
      rw [number]
      exact ordered _ _ found
    · simp only [Inner.insert, ne_eq, here, not_false_eq_true, insert_of_ne] at hp hi
      exact inv.shape.apart o p i hp hi
  · intro o f hf
    have elsewhere : o ≠ object := by
      rintro rfl
      simp [Inner.insert] at hf
    simp only [Inner.insert, ne_eq, elsewhere, not_false_eq_true, erase_of_ne] at hf
    simpa [Inner.insert, elsewhere] using inv.shape.parked o f hf
  · intro o e has last s b found
    by_cases here : o = object
    · subst here
      have newest : e = entry := by
        rcases (Inner.has_insert o e).mp has with ⟨-, same | flying⟩ | ⟨elsewhere, -⟩
        · exact same
        · have gone := last flying
          simp [Inner.insert] at gone
        · exact absurd rfl elsewhere
      subst newest
      rw [number]
      by_cases this : s = seq
      · exact le_of_eq this
      · exact (ordered s b (by simpa [this] using found)).le
    · have elsewhere : s ≠ seq := by
        rintro rfl
        simp only [insert_self, Option.some.injEq, Prod.mk.injEq] at found
        exact here found.1.symm
      rcases (Inner.has_insert o e).mp has with ⟨same, -⟩ | ⟨-, was⟩
      · exact absurd same here
      · refine inv.shape.latest o e was ?_ s b (by simpa [elsewhere] using found)
        simpa [Inner.insert, here] using last

/-- An insertion keeps the invariant if its generation is the newest that returned. -/
theorem Inv.inserted (inv : Inv sys w) (running : w.calls seq = some ⟨object, body, some entry⟩)
    (ordered : ∀ s b, w.returned s = some (object, b) → s < seq) :
    Inv sys (w.inserted seq object body entry (removedAll sys w.fs
      ((w.inner.insert object entry).2.map fun old => (object, old.seq)))) := by
  unfold World.inserted
  have number : entry.seq = seq := by rw [inv.call_entry _ _ _ _ running, entryOf]
  have unreturned := (inv.call_fresh _ _ running).2
  have keep : ∀ s x, w.returned s = some x →
      insert w.returned seq (object, body) s = some x :=
    fun _ _ found => insert_of_fresh unreturned found
  have holds := inv.holds_insert object number
  have known : ∀ g ∈ (w.inner.insert object entry).2.map (fun old => (object, old.seq)),
      w.inner.Holds g.1 g.2 := by
    intro g mem
    obtain ⟨rfl, old, same, pending | failed⟩ := Inner.mem_superseded.mp mem
    · exact ⟨old, same, inl pending⟩
    · exact ⟨old, same, inr (inr failed)⟩
  refine ⟨?_, ?_, ?_, ?_, inv.shape_insert number ordered, ?_, ?_, ?_, ?_, ?_, inv.taken_sorted⟩
  · intro s call h
    obtain ⟨other, before⟩ := of_erase h
    obtain ⟨below, fresh⟩ := inv.call_fresh s call before
    exact ⟨below, (insert_of_ne other).trans fresh⟩
  · exact forall_insert (inv.call_fresh _ _ running).1 fun s x _ => inv.returned_fresh s x
  · exact fun s o b e h => inv.call_entry s o b e (of_erase h).2
  · intro o e has
    rcases (Inner.has_insert o e).mp has with ⟨rfl, rfl | flying⟩ | ⟨-, was⟩
    · refine ⟨body, ?_, ?_⟩
      · rw [number]
        exact insert_self ..
      · rw [inv.call_entry _ _ _ _ running]
        rfl
    · obtain ⟨b, found, matching⟩ := inv.entries o e (inr (inl flying))
      exact ⟨b, keep _ _ found, matching⟩
    · obtain ⟨b, found, matching⟩ := inv.entries o e was
      exact ⟨b, keep _ _ found, matching⟩
  · intro o s b newest
    have here : insert w.returned seq (object, body) s = some (o, b) := newest.found
    by_cases this : s = seq
    · subst this
      simp only [insert_self, Option.some.injEq, Prod.mk.injEq] at here
      exact (holds o s).mpr (inl ⟨here.1.symm, rfl⟩)
    · rw [insert_of_ne this] at here
      have elsewhere : o ≠ object := by
        rintro rfl
        have above := newest.highest seq body (insert_self ..)
        have below := ordered s b here
        omega
      refine (holds o s).mpr (inr ⟨inv.held o s b ⟨here, ?_, newest.uncompleted⟩, ?_⟩)
      · exact fun s' b' found => newest.highest s' b' (keep _ _ found)
      · exact fun mem => elsewhere (Inner.mem_superseded.mp mem).1
  · intro o h
    by_cases here : o = object
    · subst here
      cases was : w.inner.pending o with
      | none => simp [Inner.insert, was]
      | some => simpa [Inner.insert, was] using inv.queued o (by rw [was]; simp)
    · have mem := inv.queued o (by simpa [Inner.insert, here] using h)
      by_cases none : w.inner.pending object = none <;> simp [Inner.insert, none, mem]
  · refine (inv.files_removed known).congr fun s o b => ?_
    have notHere := inv.call_kept known unreturned
    by_cases this : s = seq
    · subst this
      simp only [World.Live, running, unreturned, notHere, not_false_eq_true, and_true,
        erase_self, insert_self, holds, Option.some.injEq, StageCall.mk.injEq, Prod.mk.injEq,
        reduceCtorEq, exists_false, false_and, or_false, false_or]
      constructor
      · rintro ⟨e, rfl, rfl, -⟩
        exact ⟨⟨rfl, rfl⟩, inl rfl⟩
      · rintro ⟨⟨rfl, rfl⟩, -⟩
        exact ⟨entry, rfl, rfl, rfl⟩
    · simp only [World.Live, ne_eq, this, not_false_eq_true, erase_of_ne, insert_of_ne, holds,
        and_false, false_or]
      constructor
      · rintro ⟨call | ⟨found, was⟩, kept⟩
        · exact inl call
        · exact inr ⟨found, was, kept⟩
      · rintro (⟨e, call⟩ | ⟨found, was, kept⟩)
        · exact ⟨inl ⟨e, call⟩, inv.call_kept known (inv.call_fresh s _ call).2 o⟩
        · exact ⟨inr ⟨found, was⟩, kept⟩
  · intro t mem
    obtain ⟨b, found⟩ := inv.taken_returned t mem
    exact ⟨b, keep _ _ found⟩
  · intro t mem s h
    rcases (holds t.object s).mp h with ⟨same, rfl⟩ | ⟨was, -⟩
    · obtain ⟨b, found⟩ := inv.taken_returned t mem
      exact (ordered t.seq b (same ▸ found)).le
    · exact inv.taken_held t mem s was

end Insert

/-! ## Runs -/

/-- Every step keeps the invariant, if the calls on an object return in their order. -/
theorem Inv.step (inv : Inv sys w) {w' : World} {a : Action} (step : Step sys w a w')
    (ordered : InOrder w a) : Inv sys w' := by
  cases step with
  | allocate object body => exact inv.allocate object body
  | writeFiles _ _ _ _ _ running run =>
    obtain ⟨result, new⟩ := stageFiles_contents run
    cases result
    exact inv.wrote running new
  | insert _ _ _ _ _ running run =>
    cases (safe_removeAll_eq _ _).runs run
    exact inv.inserted running (ordered _ running)
  | takeNext _ _ _ run =>
    obtain ⟨rfl, took⟩ := (inv.safe_takeNext (C := fun _ => True) trivial).runs run
    exact inv.takeNext took
  | complete _ _ _ _ run => exact inv.complete run
  | requeue _ _ _ _ run => exact inv.settle (fun _ => inv.enqueue) run
  | parkFailed _ _ _ _ run => exact inv.settle (fun _ => inv.park) run
  | retryFailed _ _ _ _ drained run =>
    obtain ⟨clean, rearmed⟩ := inv.rearm drained
    unfold WriteCache.retryFailed at run
    simp only [clean, removeAll, ret_bind] at run
    cases run
    exact rearmed

theorem inv_of_orderedRun (run : OrderedRun sys w) : Inv sys w :=
  Transition.kept_by_run (fun _ _ ⟨_, step, ordered⟩ inv => inv.step step ordered) inv_opened run

theorem foldl_maxBySeq (b : Entry) (l : List Entry) :
    ∃ m ∈ b :: l, foldl (fun best e =>
        match best with
        | none => some e
        | some b => if b.seq ≤ e.seq then some e else some b) (some b) l = some m ∧
      ∀ x ∈ b :: l, x.seq ≤ m.seq := by
  induction l generalizing b with
  | nil => exact ⟨b, by simp, rfl, by simp⟩
  | cons e _ ih =>
    by_cases above : b.seq ≤ e.seq
    · obtain ⟨m, mem, eq, highest⟩ := ih e
      refine ⟨m, mem_cons_of_mem _ mem, by simpa [above] using eq, fun x xmem => ?_⟩
      rcases mem_cons.mp xmem with rfl | later
      · exact above.trans (highest e mem_cons_self)
      · exact highest x later
    · obtain ⟨m, mem, eq, highest⟩ := ih b
      refine ⟨m, ?_, by simpa [above] using eq, fun x xmem => ?_⟩
      · rcases mem_cons.mp mem with rfl | later
        · exact mem_cons_self
        · exact mem_cons_of_mem _ (mem_cons_of_mem _ later)
      · have bounded := highest b mem_cons_self
        rcases mem_cons.mp xmem with rfl | later
        · exact bounded
        · rcases mem_cons.mp later with rfl | last
          · omega
          · exact highest x (mem_cons_of_mem _ last)

theorem Inner.newest_spec (has : inner.Has object entry) :
    ∃ m, inner.newest object = some m ∧ inner.Has object m ∧
      ∀ e, inner.Has object e → e.seq ≤ m.seq := by
  have mem : ∀ e, e ∈ [inner.pending object, inner.inflight object,
      inner.failed object].reduceOption ↔ inner.Has object e := by
    intro e
    simp [reduceOption_mem_iff, Inner.Has, eq_comm]
  cases held : [inner.pending object, inner.inflight object, inner.failed object].reduceOption with
  | nil =>
    have absent := (mem entry).mpr has
    rw [held] at absent
    cases absent
  | cons b l =>
    obtain ⟨m, member, eq, highest⟩ := foldl_maxBySeq b l
    refine ⟨m, ?_, (mem m).mp (held ▸ member), fun e h => highest e (held ▸ (mem e).mpr h)⟩
    unfold Inner.newest maxBySeq
    rw [held]
    exact eq

theorem Inv.stagedBytes_returns (inv : Inv sys w) (found : w.returned seq = some (object, body))
    (holds : w.inner.Holds object seq) (highest : ∀ s, w.inner.Holds object s → s ≤ seq) :
    Returns (stagedBytes sys w.inner object) w.fs (.ok (some body)) := by
  obtain ⟨entry, rfl, has⟩ := holds
  obtain ⟨m, newest, mHas, above⟩ := Inner.newest_spec has
  have same : m.seq = entry.seq := le_antisymm (highest m.seq ⟨m, rfl, mHas⟩) (above entry has)
  obtain ⟨_, found', matching, file⟩ := inv.file_of_has mHas
  rw [same, found] at found'
  cases found'
  have len : body.length = m.len := by rw [matching, entryOf]
  have checksum : sys.xxh3 body = m.checksum := by rw [matching, entryOf]
  unfold Returns stagedBytes
  rw [newest]
  constructor
  · refine ⟨w.fs, Runs.bind (a := Except.ok body) (.op (.read _ _ _ file) ?_)
      (.ret (Except.ok (some body)) _)⟩
    simp only [len, ne_eq, not_true_eq_false, ↓reduceIte, checksum]
    exact .ret _ w.fs
  · intro r _ run
    have safe : ((readVerified sys object m).bind fun r => .ret (r.map some)).Safe Alone
        (fun _ => True) (fun r _ => r = .ok (some body)) w.fs :=
      Safe.bind (safe_readVerified file matching trivial (safe_ret.mpr ⟨trivial, rfl⟩))
    exact safe.runs run

/-- In a run that inserts each object's entries in the order of their numbers, every state keeps
the promise. -/
theorem generationOrder_of_orderedRun (run : OrderedRun sys w) : GenerationOrder sys w := by
  have inv := inv_of_orderedRun run
  refine ⟨inv.held, ?_, ?_, inv.queued, inv.files, ?_⟩
  · intro object seq body newest
    have live : w.Live seq object body := inr ⟨newest.found, inv.held _ _ _ newest⟩
    exact ⟨(inv.files.data ..).mpr ⟨object, live, rfl⟩,
      (inv.files.sidecar ..).mpr ⟨object, body, live, rfl, rfl⟩⟩
  · intro _ _ _ newest highest
    exact inv.stagedBytes_returns newest.found (inv.held _ _ _ newest) highest
  · refine inv.taken_sorted.imp fun {a b} sorted same distinct => ?_
    exact lt_of_le_of_ne (sorted same) distinct

/-! ## Two calls that insert in the opposite order -/

section Sample

theorem exists_wrote (sys : Externals) (w : World) (seq : Nat) (object : ObjectId) (body : Bytes)
    (finite : w.fs.FinitelyMany) (running : w.calls seq = some ⟨object, body, none⟩) :
    ∃ fs : Fs Name, fs.FinitelyMany ∧
      Step sys w (.writeFiles seq) (w.wrote seq object body (entryOf sys seq body) fs) := by
  obtain ⟨fs, run, left⟩ := stageFiles_runs sys finite w.counter object seq body
  exact ⟨fs, left, .writeFiles w seq object body _ fs running run⟩

theorem exists_inserted (sys : Externals) (w : World) (seq : Nat) (object : ObjectId) (body : Bytes)
    (entry : Entry) (running : w.calls seq = some ⟨object, body, some entry⟩) :
    ∃ fs, Step sys w (.insert seq) (w.inserted seq object body entry fs) :=
  ⟨_, .insert w seq object body entry _ running (removeAll_runs _)⟩

/-- A generation is taken, a newer one of its object is staged meanwhile, and the first completes.
-/
theorem generationOrder_after_two_stages :
    ∃ w, OrderedRun Externals.sample w ∧ w.returned 1 = some (sampleObject, [7]) ∧
      w.returned 2 = some (sampleObject, [8]) ∧ w.taken = [⟨sampleObject, 1, [7]⟩] ∧
      w.completed = [(sampleObject, 1)] ∧ GenerationOrder Externals.sample w := by
  let one := World.opened.allocated sampleObject [7]
  obtain ⟨fs₁, finite, wrote⟩ := exists_wrote sample one 1 sampleObject [7]
    finitelyMany_empty rfl
  let written := one.wrote 1 sampleObject [7] (entryOf sample 1 [7]) fs₁
  let staged := written.inserted 1 sampleObject [7] (entryOf sample 1 [7]) fs₁
  have inserted : Step sample written (.insert 1) staged :=
    .insert written 1 sampleObject [7] _ fs₁ rfl (.ret () fs₁)
  have stagedRun : OrderedRun sample staged :=
    ((ReflTransGen.refl.tail ⟨_, .allocate World.opened sampleObject [7], trivial⟩).tail
      ⟨_, wrote, trivial⟩).tail ⟨_, inserted, fun _ _ _ _ found => by cases found⟩
  have file : staged.fs.contents (dataPath sample sampleObject 1) = some [7] :=
    ((inv_of_orderedRun stagedRun).files.data ..).mpr
      ⟨sampleObject, .inr ⟨rfl, _, rfl, .inl rfl⟩, rfl⟩
  let taken : World :=
    { staged with
      inner := staged.inner.start sampleObject (entryOf sample 1 [7]) []
      taken := [⟨sampleObject, 1, [7]⟩] }
  have takes : Step sample staged .takeNext taken :=
    .takeNext staged _ (some ⟨sampleObject, 1, [7]⟩) fs₁ (.op (.read _ _ [7] file) (.ret _ _))
  let two := taken.allocated sampleObject [8]
  obtain ⟨fs₂, -, wrote'⟩ := exists_wrote sample two 2 sampleObject [8] finite rfl
  let written' := two.wrote 2 sampleObject [8] (entryOf sample 2 [8]) fs₂
  obtain ⟨fs₃, inserted'⟩ := exists_inserted sample written' 2 sampleObject [8] _ rfl
  have later : InOrder written' (.insert 2) := by
    rintro _ ⟨⟩ s _ found
    change insert empty 1 (sampleObject, [7]) s = _ at found
    rw [insert_apply] at found
    split at found
    · omega
    · cases found
  have completes : Step sample _ (.complete sampleObject 1) _ :=
    .complete (written'.inserted 2 sampleObject [8] (entryOf sample 2 [8]) fs₃)
      sampleObject 1 _ _ ((removeFiles_runs sampleObject 1).bind (.ret _ _))
  have run := ((((stagedRun.tail ⟨_, takes, trivial⟩).tail
    ⟨_, .allocate taken sampleObject [8], trivial⟩).tail ⟨_, wrote', trivial⟩).tail
    ⟨_, inserted', later⟩).tail ⟨_, completes, trivial⟩
  exact ⟨_, run, rfl, rfl, rfl, rfl, generationOrder_of_orderedRun run⟩

/-- Two calls for one object allocate 1 and 2; the second inserts first.  The first then supersedes
the newer generation and removes its files. -/
theorem generationOrder_fails_out_of_order :
    ∃ w, Run Externals.sample w ∧ w.returned 1 = some (sampleObject, [7]) ∧
      w.returned 2 = some (sampleObject, [8]) ∧ w.completed = [] ∧
      ¬ w.inner.Holds sampleObject 2 ∧ ¬ GenerationOrder Externals.sample w := by
  let two := (World.opened.allocated sampleObject [7]).allocated sampleObject [8]
  obtain ⟨fs₁, finite, wrote₁⟩ := exists_wrote sample two 1 sampleObject [7]
    finitelyMany_empty rfl
  let one := two.wrote 1 sampleObject [7] (entryOf sample 1 [7]) fs₁
  obtain ⟨fs₂, -, wrote₂⟩ := exists_wrote sample one 2 sampleObject [8] finite
    rfl
  let both := one.wrote 2 sampleObject [8] (entryOf sample 2 [8]) fs₂
  obtain ⟨fs₃, inserted₂⟩ := exists_inserted sample both 2 sampleObject [8] _ rfl
  let newer := both.inserted 2 sampleObject [8] (entryOf sample 2 [8]) fs₃
  obtain ⟨fs₄, inserted₁⟩ := exists_inserted sample newer 1 sampleObject [7] _
    rfl
  let last := newer.inserted 1 sampleObject [7] (entryOf sample 1 [7]) fs₄
  have run : Run sample last :=
    (((((ReflTransGen.refl.tail ⟨_, .allocate World.opened sampleObject [7]⟩).tail
      ⟨_, .allocate _ sampleObject [8]⟩).tail ⟨_, wrote₁⟩).tail ⟨_, wrote₂⟩).tail
      ⟨_, inserted₂⟩).tail ⟨_, inserted₁⟩
  have pending : last.inner.pending sampleObject = some (entryOf sample 1 [7]) := rfl
  have lost : ¬ last.inner.Holds sampleObject 2 := by
    rintro ⟨_, number, h | h | h⟩
    · rw [pending] at h
      cases h
      cases number
    · cases h
    · cases h
  refine ⟨last, run, rfl, rfl, rfl, lost, fun order => ?_⟩
  refine lost (order.held sampleObject 2 [8] ⟨rfl, fun s b found => ?_, fun s mem => ?_⟩)
  · by_contra above
    have other : last.returned s = none := by
      simp only [last, newer, both, one, two, World.inserted, World.wrote, World.allocated,
        insert_apply]
      rw [if_neg (by omega), if_neg (by omega)]
      rfl
    rw [other] at found
    cases found
  · cases mem

end Sample

end Talon.WriteCache
