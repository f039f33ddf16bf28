import Talon.WriteCache.Model

/-!
# What the write cache does to its directory

One specification for each program of the model: which names it changes and to what.
-/

set_option autoImplicit false

namespace Talon.WriteCache

open CrashFs Talon.Core PartialMap CrashFs.Prog Function

variable {sys : Externals} {C : Fs Name → Prop} {fs : Fs Name}

variable {id : Nat} {body : Bytes} {fs' : Fs Name}

theorem safe_commit {final : Name} {bytes : Bytes} {Q : Option UInt64 → Fs Name → Prop}
    (target : stagingDir final = false)
    (before : ∀ s, C (update fs (.staged id (sys.xxh3 bytes)) s))
    (after : ∀ s : Slot, s.now = none →
      C (update (update fs final
        ((fs final).rebind (some ⟨bytes, bytes⟩))) (.staged id (sys.xxh3 bytes)) s) ∧
      Q (some (sys.xxh3 bytes)) (update (update fs final
        ((fs final).rebind (some ⟨bytes, bytes⟩))) (.staged id (sys.xxh3 bytes)) s)) :
    (commit sys id final bytes).Safe Alone C Q fs := by
  have distinct : Name.staged id (sys.xxh3 bytes) ≠ final := by
    rintro rfl
    simp [stagingDir] at target
  refine safe_install distinct (avoids_alone _) (avoids_alone _) ?_ ?_
  · intro mid s moved
    rw [reflTransGen_alone moved]
    exact before s
  · intro _ s gone moved
    rw [reflTransGen_alone moved, safe_ret]
    exact after s gone

section Stage

variable (sys fs)

def sidecarBytes (object : ObjectId) (seq : Nat) (body : Bytes) : Bytes :=
  sys.toVec (sidecarOf sys object seq body)

def withData (object : ObjectId) (seq : Nat) (body : Bytes) : Fs Name :=
  Function.update fs (dataPath sys object seq)
    ((fs (dataPath sys object seq)).rebind (some ⟨body, body⟩))

def withSidecar (object : ObjectId) (seq : Nat) (body : Bytes) : Fs Name :=
  Function.update fs (metaPath sys object seq)
    ((fs (metaPath sys object seq)).rebind
      (some ⟨sidecarBytes sys object seq body, sidecarBytes sys object seq body⟩))

def withStaged (id : Nat) (bytes : Bytes) (s : Slot) : Fs Name :=
  Function.update fs (.staged id (sys.xxh3 bytes)) s

end Stage

variable {object : ObjectId} {seq : Nat}

theorem safe_stageFiles {Q : Option Entry → Fs Name → Prop}
    (start : ∀ s, C (withStaged sys fs id body s))
    (data : ∀ s t, C (withStaged sys (withStaged sys (withData sys fs object seq body) id body s)
      (id + 1) (sidecarBytes sys object seq body) t))
    (last : ∀ s t : Slot, s.now = none → t.now = none → ∀ fs', fs' = withStaged sys
        (withSidecar sys (withStaged sys (withData sys fs object seq body) id body s)
          object seq body) (id + 1) (sidecarBytes sys object seq body) t →
      C fs' ∧ C (fs'.syncDir writebackDir) ∧
      Q (some (entryOf sys seq body)) (fs'.syncDir writebackDir)) :
    (stageFiles sys id object seq body).Safe Alone C Q fs := by
  apply Safe.bind
  refine safe_commit rfl start fun s sGone => ⟨?_, ?_⟩
  · have settled := data s (withStaged sys (withData sys fs object seq body) id body s
      (.staged (id + 1) (sys.xxh3 (sidecarBytes sys object seq body))))
    rw [withStaged, update_eq_self] at settled
    exact settled
  · apply Safe.bind
    refine safe_commit rfl (data s) fun t tGone => ?_
    obtain ⟨renamed, synced, result⟩ := last s t sGone tGone _ rfl
    refine ⟨renamed, ?_⟩
    simp only [ensure]
    rw [safe_op]
    refine ⟨renamed, fun r fs' exec => ?_⟩
    cases exec with
    | syncDir =>
      rw [safe_ret]
      exact ⟨synced, result⟩

def removed (sys : Externals) (fs : Fs Name) (object : ObjectId) (seq : Nat) : Fs Name :=
  (fs.unlink (metaPath sys object seq)).unlink (dataPath sys object seq)

theorem safe_removeFiles {Q : Unit → Fs Name → Prop} (before : C fs)
    (middle : C (fs.unlink (metaPath sys object seq))) (after : C (removed sys fs object seq))
    (result : Q () (removed sys fs object seq)) :
    (removeFiles sys object seq).Safe Alone C Q fs := by
  unfold removeFiles
  rw [safe_op]
  refine ⟨before, fun r mid exec => ?_⟩
  rw [exec_remove exec, safe_op]
  refine ⟨middle, fun r' fs' exec' => ?_⟩
  rw [exec_remove exec', safe_ret]
  exact ⟨after, result⟩

def removedAll (sys : Externals) (fs : Fs Name) (gens : List (ObjectId × Nat)) : Fs Name :=
  gens.foldl (fun fs g => removed sys fs g.1 g.2) fs

theorem safe_removeAll_eq (gens : List (ObjectId × Nat)) (fs : Fs Name) :
    (removeAll sys gens).Safe Alone (fun _ => True) (fun _ fs' => fs' = removedAll sys fs gens)
      fs := by
  induction gens generalizing fs with
  | nil =>
    rw [removeAll, safe_ret]
    exact ⟨trivial, rfl⟩
  | cons g _ ih =>
    apply Safe.bind
    exact safe_removeFiles trivial trivial trivial (ih _)

theorem removeFiles_runs (object : ObjectId) (seq : Nat) :
    Runs (removeFiles sys object seq) fs () (removed sys fs object seq) := by
  obtain ⟨r, first⟩ := unlink_runs fs (metaPath sys object seq)
  obtain ⟨_, second⟩ := unlink_runs (fs.unlink (metaPath sys object seq))
    (dataPath sys object seq)
  exact .op first (.op second (.ret () _))

theorem removeAll_runs (gens : List (ObjectId × Nat)) :
    Runs (removeAll sys gens) fs () (removedAll sys fs gens) := by
  induction gens generalizing fs with
  | nil => exact .ret () fs
  | cons g _ ih => exact (removeFiles_runs g.1 g.2).bind ih

theorem contents_removed (object : ObjectId) (seq : Nat) (n : Name) :
    (removed sys fs object seq).contents n =
      if n = metaPath sys object seq ∨ n = dataPath sys object seq then none
      else fs.contents n := by
  unfold removed
  rw [contents_unlink, contents_unlink]
  by_cases data : n = dataPath sys object seq <;>
    by_cases sidecar : n = metaPath sys object seq <;> simp [data, sidecar]

theorem contents_removedAll (gens : List (ObjectId × Nat)) (n : Name) :
    (removedAll sys fs gens).contents n =
      if ∃ g ∈ gens, n = metaPath sys g.1 g.2 ∨ n = dataPath sys g.1 g.2 then none
      else fs.contents n := by
  induction gens generalizing fs with
  | nil => simp [removedAll]
  | cons g rest ih =>
    have step : removedAll sys fs (g :: rest) = removedAll sys (removed sys fs g.1 g.2) rest :=
      rfl
    rw [step, ih, contents_removed]
    by_cases here : n = metaPath sys g.1 g.2 ∨ n = dataPath sys g.1 g.2 <;>
      by_cases later : ∃ g ∈ rest, n = metaPath sys g.1 g.2 ∨ n = dataPath sys g.1 g.2 <;>
      simp [here, later, ↓reduceIte, List.mem_cons, exists_eq_or_imp, or_self, or_true,
        or_false]

structure StagedContents (sys : Externals) (fs fs' : Fs Name) (object : ObjectId) (seq : Nat)
    (body : Bytes) : Prop where
  data : fs'.contents (dataPath sys object seq) = some body
  sidecar : fs'.contents (metaPath sys object seq) = some (sidecarBytes sys object seq body)
  other : ∀ n, stagingDir n = false → n ≠ dataPath sys object seq → n ≠ metaPath sys object seq →
    fs'.contents n = fs.contents n
  staged : ∀ id c, fs.contents (.staged id c) = none → fs'.contents (.staged id c) = none

theorem stagedContents {s t : Slot} (sGone : s.now = none) (tGone : t.now = none) :
    StagedContents sys fs (Fs.syncDir (withStaged sys
      (withSidecar sys (withStaged sys (withData sys fs object seq body) id body s) object seq body)
      (id + 1) (sidecarBytes sys object seq body) t) writebackDir) object seq body := by
  refine ⟨?_, ?_, ?_, ?_⟩
  · simp [Fs.contents, Fs.syncDir, withStaged, withSidecar, withData, dataPath, metaPath,
      writebackDir]
  · simp [Fs.contents, Fs.syncDir, withStaged, withSidecar, metaPath, writebackDir]
  · intro n outside notData notMeta
    have unstaged : ∀ i c, n ≠ .staged i c := by
      intro i c same
      rw [same] at outside
      cases outside
    rw [contents_syncDir]
    unfold Fs.contents withStaged withSidecar withData
    rw [update_of_ne (unstaged _ _), update_of_ne notMeta,
      update_of_ne (unstaged _ _), update_of_ne notData]
  · intro i c before
    rw [contents_syncDir]
    unfold Fs.contents withStaged withSidecar withData
    by_cases second : Name.staged i c =
        .staged (id + 1) (sys.xxh3 (sidecarBytes sys object seq body))
    · simp [second, tGone]
    rw [update_of_ne second, update_of_ne (by simp [metaPath])]
    by_cases first : Name.staged i c = .staged id (sys.xxh3 body)
    · rw [first, update_self, sGone]
      rfl
    · rw [update_of_ne first, update_of_ne (by simp [dataPath])]
      exact before

theorem stageFiles_contents {r : Option Entry}
    (run : Runs (stageFiles sys id object seq body) fs r fs') :
    r = some (entryOf sys seq body) ∧ StagedContents sys fs fs' object seq body := by
  have safe : (stageFiles sys id object seq body).Safe Alone (fun _ => True)
      (fun r fs' => r = some (entryOf sys seq body) ∧
        StagedContents sys fs fs' object seq body) fs := by
    refine safe_stageFiles (fun _ => trivial) (fun _ _ => trivial) ?_
    intro s t sGone tGone _ last
    subst last
    exact ⟨trivial, trivial, rfl, stagedContents sGone tGone⟩
  exact safe.runs run

theorem stageFiles_runs (sys : Externals) (finite : fs.FinitelyMany) (id : Nat) (object : ObjectId)
    (seq : Nat) (body : Bytes) :
    ∃ fs', Runs (stageFiles sys id object seq body) fs (some (entryOf sys seq body)) fs' ∧
      fs'.FinitelyMany := by
  obtain ⟨r, fs', run, left⟩ := exists_runs (stageFiles sys id object seq body) finite
  obtain ⟨rfl, -⟩ := stageFiles_contents run
  exact ⟨fs', run, left⟩

theorem removeFiles_then_runs {α : Type} {a r : α}
    (run : Runs ((removeFiles sys object seq).bind fun _ => .ret a) fs r fs') :
    r = a ∧ fs' = removed sys fs object seq := by
  have safe : ((removeFiles sys object seq).bind fun _ => .ret a).Safe Alone (fun _ => True)
      (fun r fs' => r = a ∧ fs' = removed sys fs object seq) fs :=
    Safe.bind (safe_removeFiles trivial trivial trivial (safe_ret.mpr ⟨trivial, rfl, rfl⟩))
  exact safe.runs run

end Talon.WriteCache
