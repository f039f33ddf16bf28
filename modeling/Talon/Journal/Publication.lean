import Talon.Journal.Recovery

/-!
# Rotation and snapshots

A rotation adds an empty log; a snapshot is written beside the log and then takes the place of the
files before it.  While a snapshot is written or published, appends go on in the last log: the rules
for these programs let the environment do anything to that one file.
-/

set_option autoImplicit false

namespace Talon.Journal

open Wire CrashFs CrashFs.Prog Relation List Function Nat

variable {M : Machine} {j : Terms M}
  {window : Window} {history : List (Entry M)} {base : Nat → Nat} {promised : List Nat}
  {fs fs' : Fs Name} {c : Current}

/-! ## Rotation -/

theorem Current.length_withLog (c : Current) : c.withLog.logs.length = c.logs.length + 1 := by
  simp [Current.withLog]

theorem Current.Valid.withLog (h : c.Valid) (few : c.logs.length + 1 ≤ maxGenerations)
    (generation : c.lastLog + 1 < 2 ^ 64) : c.withLog.Valid := by
  have lastLog := h.lastLog
  have length := c.length_withLog
  refine
    { h with
      logs := ?_, some_log := by omega, few_logs := by omega, generations := ?_, pending := ?_ }
  · change c.logs ++ [c.lastLog + 1] = range' c.snapshot c.withLog.logs.length
    rw [length, range'_concat, ← h.logs, one_mul, ← lastLog]
  · change c.snapshot + c.withLog.logs.length ≤ 2 ^ 64
    omega
  · right
    change c.lastLog + 1 + 1 = c.snapshot + c.withLog.logs.length
    omega

theorem Current.lastLog_withLog (c : Current) : c.withLog.lastLog = c.lastLog + 1 := by
  rw [Current.lastLog, Current.withLog, getLast?_concat, Option.getD_some]

def rotateBase (base : Nat → Nat) (c : Current) (count : Nat) : Nat → Nat :=
  Function.update base (c.lastLog + 1) count

theorem rotateBase_le {g : Nat} (count : Nat) (below : g ≤ c.lastLog) :
    rotateBase base c count g = base g :=
  update_of_ne (by omega) _ _

variable {f : File} {bodies : List Bytes}

variable (ready : Ready j window history base promised fs c f)

include ready in
theorem Ready.backed_withLog (whole : f = ⟨logBytes j.xxh3 history (base c.lastLog) history.length,
      logBytes j.xxh3 history (base c.lastLog) history.length⟩)
    (few : c.logs.length + 1 ≤ maxGenerations) (wide : maxGenerations ≤ window.limit)
    (generation : c.lastLog + 1 < 2 ^ 64) :
    Backed j window history (rotateBase base c history.length) fs c.withLog := by
  have new : rotateBase base c history.length (c.lastLog + 1) = history.length :=
    update_self ..
  have first := ready.backed.valid.snapshot_le
  refine
    { valid := ready.backed.valid.withLog few generation
      admitted := ⟨?_, ready.backed.admitted.2⟩
      pending := fun _ => ?_
      lsn := ?_
      snapshot := ready.backed.snapshot
      order := ?_
      inside := ?_
      logs := ?_ }
  · rw [Current.length_withLog]
    omega
  · change c.snapshot < c.lastLog + 1
    omega
  · rw [Current.withLog, rotateBase_le _ first]
    exact ready.backed.lsn
  · intro g low high
    rw [Current.lastLog_withLog] at high
    by_cases last : g = c.lastLog
    · subst last
      rw [rotateBase_le _ (le_refl _), new]
      exact ready.backed.inside
    · rw [rotateBase_le _ (by omega), rotateBase_le _ (by omega)]
      exact ready.backed.order g low (by omega)
  · rw [Current.lastLog_withLog, new]
  · intro g low high
    rw [Current.lastLog_withLog] at high
    by_cases last : g = c.lastLog
    · subst last
      rw [rotateBase_le _ (le_refl _), new, ready.last.slot, whole]
      rfl
    · rw [rotateBase_le _ (by omega), rotateBase_le _ (by omega)]
      exact ready.backed.logs g low (by omega)

theorem LastLog.rebase {g : Nat} {base' : Nat → Nat}
    (h : LastLog j.xxh3 history base promised fs g f) (agree : base' g = base g) :
    LastLog j.xxh3 history base' promised fs g f := by
  refine ⟨h.slot, ?_, ?_, ?_⟩
  · rw [agree]
    exact h.data
  · rw [agree]
    exact h.disk
  · rw [agree]
    exact h.kept

/-- A rotation ends with the new log in the manifest, or leaves the manifest as it was. -/
def Rotated (j : Terms M) (window : Window)
    (history : List (Entry M)) (base : Nat → Nat) (promised : List Nat) (c : Current)
    (r : Option (Current × Nat)) (fs : Fs Name) : Prop :=
  match r with
  | none => (2 ^ 64 ≤ c.lastLog + 1 ∨ maxGenerations < c.logs.length + 1) ∧
      ∃ f, Ready j window history base promised fs c f ∧
        f.data = logBytes j.xxh3 history (base c.lastLog) history.length ∧ f.disk <+: f.data
  | some (c', g) => c' = c.withLog ∧ g = c.lastLog + 1 ∧
      Ready j window history (rotateBase base c history.length) promised fs c'
        ⟨[], []⟩

theorem safe_rotated (synced : Ready j window history base promised fs c f)
    (whole : f = ⟨logBytes j.xxh3 history (base c.lastLog) history.length,
      logBytes j.xxh3 history (base c.lastLog) history.length⟩)
    (bound : ∀ lsn ∈ promised, lsn ≤ history.length) (wide : maxGenerations ≤ window.limit)
    (generation : c.lastLog + 1 < 2 ^ 64) {s : Slot} (now : s.now = some ⟨[], []⟩) :
    (ensure (.syncDir root) <| publish j.xxh3 c.withLog <|
        .ret (some (c.withLog, c.lastLog + 1))).Safe Alone
      (Recoverable j window history promised)
      (Rotated j window history base promised c)
      (Fs.rename (update fs .journalTmp s) .journalTmp (path false (c.lastLog + 1))) := by
  generalize named : Fs.rename (update fs .journalTmp s) .journalTmp
    (path false (c.lastLog + 1)) = fs₁
  have ready₁ : Ready j window history base promised fs₁ c f := by
    apply synced.congr
    intro n needed
    have notTmp : n ≠ .journalTmp := by
      intro same
      subst same
      cases needed
    have notNew : n ≠ path false (c.lastLog + 1) := by
      intro same
      subst same
      have kept := Needs.journal_le (g := c.lastLog + 1) needed
      omega
    rw [← named, Fs.rename, update_of_ne notTmp, update_of_ne notNew,
      update_of_ne notTmp]
  have new₁ : (fs₁ (.journal (c.lastLog + 1))).now = some ⟨[], []⟩ := by
    have renamed : fs₁ (path false (c.lastLog + 1)) = Slot.rebind
        (update fs .journalTmp s (path false (c.lastLog + 1))) s.now := by
      rw [← named, Fs.rename, update_of_ne (by simp [path]), update_self,
        update_self]
    change (fs₁ (path false (c.lastLog + 1))).now = _
    rw [renamed]
    exact now
  apply safe_syncDir ready₁.recoverable
  have ready₂ := ready₁.syncDir
  have new₂ : (fs₁.syncDir root) (.journal (c.lastLog + 1)) = .settled [] := by
    change (fs₁ _).settle = _
    rw [Slot.settle, new₁]
    rfl
  generalize fs₁.syncDir root = fs₂ at ready₂ new₂ ⊢
  by_cases few : c.logs.length + 1 ≤ maxGenerations
  · have backed := ready₂.backed_withLog whole few wide generation
    have old : Ready j window history (rotateBase base c history.length) promised fs₂ c f :=
      ⟨ready₂.current, ready₂.backed.rebase fun g _ high => rotateBase_le _ high,
        ready₂.last.rebase (rotateBase_le _ (le_refl _))⟩
    have last : LastLog j.xxh3 history (rotateBase base c history.length) promised fs₂
        c.withLog.lastLog ⟨[], []⟩ := by
      rw [Current.lastLog_withLog]
      refine ⟨new₂, nil_prefix, nil_prefix, fun lsn mem => ?_⟩
      -- an empty log keeps every promise about the records before it
      have few := bound lsn mem
      rw [logBytes, rotateBase, update_self, drop_eq_nil_of_le (by rw [length_take]; omega)]
      exact ⟨List.nil_prefix, nil_prefix⟩
    obtain ⟨b, encoded, -, -⟩ := backed.valid.decode_encode j.xxh3
    rw [publish_eq encoded]
    apply safe_republish old backed last
    intro fs₃ ready₃
    exact safe_ret.mpr ⟨ready₃.recoverable, rfl, rfl, ready₃⟩
  · have refused : c.withLog.encode j.xxh3 = .error "too many journal generations" := by
      have length := c.length_withLog
      rw [Current.encode, if_pos (.inl (by omega))]
    rw [publish, refused, ensure, safe_op]
    refine ⟨ready₂.recoverable, fun r fs₃ exec => ?_⟩
    cases exec with
    | create =>
      have ready₃ : Ready j window history base promised (fs₂.create .currentTmp) c f :=
        ready₂.update (fun needed => by cases needed) _
      refine safe_ret.mpr ⟨ready₃.recoverable, .inr (Nat.lt_of_not_le few), f, ready₃, ?_⟩
      rw [whole]
      exact ⟨rfl, prefix_refl _⟩

include ready in
theorem safe_rotate (data : f.data = logBytes j.xxh3 history (base c.lastLog) history.length)
    (bound : ∀ lsn ∈ promised, lsn ≤ history.length) (wide : maxGenerations ≤ window.limit) :
    (rotate j.xxh3 c).Safe Alone (Recoverable j window history promised)
      (Rotated j window history base promised c) fs := by
  have synced : Ready j window history base promised
      (fs.modify (.journal c.lastLog) File.sync) c f.sync :=
    ready.relog ⟨ready.last.modified, ready.last.data, ready.last.data, fun lsn mem =>
      ⟨(ready.last.kept lsn mem).2, (ready.last.kept lsn mem).2⟩⟩
  have whole : f.sync = ⟨logBytes j.xxh3 history (base c.lastLog) history.length,
      logBytes j.xxh3 history (base c.lastLog) history.length⟩ := by
    rw [File.sync, data]
  rw [rotate]
  apply safe_sync ready.recoverable ready.last.present
  generalize fs.modify (.journal c.lastLog) File.sync = fs₁ at synced ⊢
  split
  · rename_i last
    exact safe_ret.mpr ⟨synced.recoverable, .inl last, f.sync, synced, data, prefix_refl _⟩
  · rename_i generation
    have spareTmp := synced.update (n := .journalTmp) fun needed => by cases needed
    apply safe_writeSync_nil fun s => (spareTmp s).recoverable
    intro s now
    rw [ensure, safe_op]
    refine ⟨(spareTmp s).recoverable, fun r fs₂ exec => ?_⟩
    cases exec with
    | renameMissing _ _ _ missing =>
      rw [update_self, now] at missing
      cases missing
    | rename => exact safe_rotated synced whole bound wide (Nat.lt_of_not_le generation) now

/-! ## Writing a snapshot -/

variable (xxh3) in
theorem length_frames_ge (first : Nat) (bodies : List Bytes) :
    headerLen * bodies.length ≤ (frames xxh3 first bodies).length := by
  induction bodies generalizing first with
  | nil => exact zero_le _
  | cons _ _ ih =>
    have rest := ih (first + 1)
    rw [frames, length_append, length_frame, length_cons, mul_succ]
    omega

theorem countFrames_frames (first : Nat) (small : ∀ body ∈ bodies, body.length ≤ maxRecord) :
    countFrames (frames j.xxh3 first bodies) = bodies.length := by
  induction bodies generalizing first with
  | nil =>
    rw [frames, countFrames]
    rfl
  | cons body bodies ih =>
    have length := length_frame j.xxh3 (first + 1) body
    have nonempty : ¬ (frame j.xxh3 (first + 1) body ++
        frames j.xxh3 (first + 1) bodies).isEmpty = true := by
      rw [List.isEmpty_iff, ← List.length_eq_zero_iff, List.length_append, length]
      unfold headerLen
      omega
    rw [frames, countFrames, if_neg nonempty, numberAt_size j.xxh3 _ (small _ mem_cons_self),
      drop_left' length, ih _ fun b mem => small b (mem_cons_of_mem _ mem),
      length_cons, add_comm]

section Chunks

variable {env : Fs Name → Fs Name → Prop} {C : Fs Name → Prop}
  {R : Option (Nat × Nat) → Fs Name → Prop} {start : Slot}

def drafted (start : Slot) (b : Bytes) (mid : Fs Name) : Fs Name :=
  Function.update mid .snapshotTmp (start.modify fun f => { f with data := b })

structure Drafting (env : Fs Name → Fs Name → Prop) (C : Fs Name → Prop)
    (R : Option (Nat × Nat) → Fs Name → Prop) (start : Slot) (fs : Fs Name) : Prop where
  avoid : Avoids env .snapshotTmp
  present : start.now ≠ none
  crash : ∀ mid s, ReflTransGen env fs mid → C (Function.update mid .snapshotTmp s)
  failed : ∀ mid s, ReflTransGen env fs mid → R none (Function.update mid .snapshotTmp s)

section

variable (h : Drafting env C R start fs)
include h

theorem Drafting.later (moved : ReflTransGen env fs fs') : Drafting env C R start fs' where
  avoid := h.avoid
  present := h.present
  crash := fun mid s run => h.crash mid s (moved.trans run)
  failed := fun mid s run => h.failed mid s (moved.trans run)

theorem Drafting.safe_none (b : Bytes) : (Prog.ret none).Safe env C R (drafted start b fs) := by
  intro _ run
  obtain ⟨mid, moved, rfl⟩ := h.avoid.run run
  exact ⟨h.crash mid _ moved, h.failed mid _ moved⟩

end

theorem joined_frames (front held : List Bytes) :
    frames j.xxh3 0 (front ++ held) = frames j.xxh3 0 front ++ frames j.xxh3 front.length held := by
  rw [frames_append, zero_add]

theorem Drafting.safe_flush (h : Drafting env C R start fs) {front held : List Bytes}
    (small : ∀ body ∈ front ++ held, body.length ≤ maxRecord) (rest : List (Result Bytes))
    (some : frames j.xxh3 front.length held ≠ [])
    (after : ∀ mid, ReflTransGen env fs mid → (frames j.xxh3 0 (front ++ held)).length < maxFile →
      (writeChunks (frames j.xxh3 0 (front ++ held)).length (front ++ held).length rest).Safe env C
        R
        (drafted start (frames j.xxh3 0 (front ++ held)) mid)) :
    (writeChunks (frames j.xxh3 0 front).length front.length
        (.ok (frames j.xxh3 front.length held) :: rest)).Safe env C R
      (drafted start (frames j.xxh3 0 front) fs) := by
  rw [writeChunks, if_neg (by rw [List.isEmpty_iff]; exact some)]
  split
  · exact h.safe_none _
  · rename_i room
    rw [← length_append, ← joined_frames, not_le] at room
    apply Safe.bind
    apply safe_writeLoop h.avoid h.present _ (frames j.xxh3 0 front) _ (le_refl _)
    · intro mid k moved
      exact h.crash mid _ moved
    · intro mid moved
      rw [countFrames_frames _ fun body mem => small body (mem_append_right _ mem),
        ← length_append, ← length_append, ← joined_frames]
      exact after mid moved room

theorem Drafting.safe_chunks (h : Drafting env C R start fs) (items : List (Result Bytes))
    (front held : List Bytes) (small : ∀ body ∈ front ++ held, body.length ≤ maxRecord)
    (bounded : (frames j.xxh3 0 front).length < maxFile)
    (done : ∀ mid bodies, ReflTransGen env fs mid → items = bodies.map .ok →
      (∀ body ∈ front ++ held ++ bodies, body.length ≤ maxRecord) →
      (frames j.xxh3 0 (front ++ held ++ bodies)).length < maxFile →
        R (some ((frames j.xxh3 0 (front ++ held ++ bodies)).length,
          (front ++ held ++ bodies).length))
          (drafted start (frames j.xxh3 0 (front ++ held ++ bodies)) mid)) :
    (writeChunks (frames j.xxh3 0 front).length front.length
        (chunks j.xxh3 (frames j.xxh3 front.length held) (front.length + held.length) items)).Safe
          env C R
      (drafted start (frames j.xxh3 0 front) fs) := by
  induction items generalizing front held fs with
  | nil =>
    have finish : ∀ mid, ReflTransGen env fs mid →
        (frames j.xxh3 0 (front ++ held)).length < maxFile →
        (writeChunks (frames j.xxh3 0 (front ++ held)).length (front ++ held).length
          [.ok []]).Safe env C R (drafted start (frames j.xxh3 0 (front ++ held)) mid) := by
      intro mid moved room _ run
      obtain ⟨last, moved', rfl⟩ := h.avoid.run run
      have far := moved.trans moved'
      have result := done last [] far rfl
      rw [append_nil] at result
      exact ⟨h.crash last _ far, result small room⟩
    rw [chunks]
    split
    · rename_i empty
      rw [List.isEmpty_iff] at empty
      have nothing : frames j.xxh3 0 (front ++ held) = frames j.xxh3 0 front := by
        rw [joined_frames, empty, append_nil]
      have none_held : held = [] := by
        have count := length_frames_ge j.xxh3 front.length held
        rw [empty, length_nil] at count
        unfold headerLen at count
        exact eq_nil_of_length_eq_zero (by omega)
      have last := finish fs .refl (by rw [nothing]; exact bounded)
      rw [nothing, none_held, append_nil] at last
      exact last
    · rename_i some
      rw [List.isEmpty_iff] at some
      exact h.safe_flush small _ some finish
  | cons item items ih =>
    cases item with
    | error =>
      rw [chunks]
      exact h.safe_none _
    | ok bytes =>
      by_cases big : bytes.length > maxRecord
      · rw [chunks, encodeFrame, if_pos big]
        exact h.safe_none _
      have more : ∀ body ∈ front ++ held ++ [bytes], body.length ≤ maxRecord := by
        intro body mem
        rcases mem_append.mp mem with old | new
        · exact small body old
        · rw [mem_singleton.mp new]
          omega
      have result : ∀ mid bodies, ReflTransGen env fs mid → items = bodies.map .ok →
          (∀ body ∈ front ++ held ++ [bytes] ++ bodies, body.length ≤ maxRecord) →
          (frames j.xxh3 0 (front ++ held ++ [bytes] ++ bodies)).length < maxFile →
            R (some ((frames j.xxh3 0 (front ++ held ++ [bytes] ++ bodies)).length,
                (front ++ held ++ [bytes] ++ bodies).length))
              (drafted start (frames j.xxh3 0 (front ++ held ++ [bytes] ++ bodies)) mid) := by
        intro mid bodies moved rest
        have whole := done mid (bytes :: bodies) moved (by rw [rest]; rfl)
        rwa [append_cons] at whole
      rw [chunks, encodeFrame, if_neg big]
      dsimp only
      split
      · rename_i full
        have some : frames j.xxh3 front.length held ≠ [] :=
          fun nil => full.1 (isEmpty_iff.mpr nil)
        apply h.safe_flush small _ some
        intro _ moved room
        have next := ih (h.later moved) (front ++ held) [bytes] more room
          fun last bodies run => result last bodies (moved.trans run)
        rw [length_append, frames, frames, append_nil] at next
        rw [length_append]
        exact next
      · have next := ih h front (held ++ [bytes]) (by rwa [← append_assoc]) bounded
          (by rw [← append_assoc]; exact result)
        rw [length_append, frames_append, frames, frames, append_nil] at next
        exact next

end Chunks

/-- The files of a manifest other than its last log, `last`. -/
def Standing (j : Terms M)
    (window : Window) (history : List (Entry M)) (base : Nat → Nat) (last : Nat) (fs : Fs Name)
    (c : Current) : Prop :=
  Backed j window history base fs c ∧ c.lastLog = last

variable {last : Nat}

theorem undisturbed_standing :
    Undisturbed (OnlyAt (.journal last)) (Standing j window history base last) where
  files := by
    intro fs fs' c others here
    exact ⟨here.1.congr (others _ nofun nofun) fun g _ _ => others _ nofun nofun, here.2⟩
  syncs := fun fs c here => ⟨here.1.syncDir, here.2⟩
  stable := by
    intro _ _ c one here
    obtain ⟨s, rfl⟩ := one
    refine ⟨here.1.congr (update_of_ne (by nofun) _ _) fun g _ high => ?_, here.2⟩
    have older : g ≠ last := by
      rw [← here.2]
      omega
    exact update_of_ne (by intro same; cases same; exact older rfl) _ _

section

variable (h : Single j.xxh3 (Standing j window history base last) fs c)
include h

theorem Single.standing_congr (current : fs' .current = fs .current)
    (snapshot : fs' (.snapshot c.snapshot) = fs (.snapshot c.snapshot))
    (logs : ∀ g, g ≠ last → fs' (.journal g) = fs (.journal g)) :
    Single j.xxh3 (Standing j window history base last) fs' c := by
  obtain ⟨named, backed, rfl⟩ := h
  rw [← current] at named
  exact ⟨named, backed.congr snapshot fun g _ high => logs g (by omega), rfl⟩

theorem Single.standing_later (moved : ReflTransGen (OnlyAt (.journal last)) fs fs') :
    Single j.xxh3 (Standing j window history base last) fs' c := by
  have slot := (avoids_onlyAt (n := .journal last) (m := Name.current) (by nofun)).same moved
  refine ⟨?_, undisturbed_standing.later moved h.2⟩
  rw [slot]
  exact h.1

theorem Single.standing_syncDir :
    Single j.xxh3 (Standing j window history base last) (fs.syncDir root) c := by
  obtain ⟨⟨b, encoded, slot⟩, here⟩ := h
  refine ⟨⟨b, encoded, ?_⟩, undisturbed_standing.syncs fs c here⟩
  change (fs _).settle = _
  rw [slot]
  rfl

end

structure Finished (xxh3 : Hash) (items : List (Result Bytes)) (s : Snapshot) (fs : Fs Name)
    (bodies : List Bytes) : Prop where
  items : items = bodies.map .ok
  file : fs (.snapshot s.generation) = .settled (frames xxh3 0 bodies)
  bytes : s.bytes = (frames xxh3 0 bodies).length
  records : s.records = bodies.length
  numbered : Numbered 0 bodies
  small : s.bytes < maxFile

variable {items : List (Result Bytes)}

theorem safe_writeSnapshot {generation lsn : Nat}
    (single : Single j.xxh3 (Standing j window history base last) fs c)
    (newer : generation ≠ c.snapshot) :
    (writeSnapshot j.xxh3 generation lsn items).Safe (OnlyAt (.journal last))
      (fun fs => Single j.xxh3 (Standing j window history base last) fs c)
      (fun r fs => Single j.xxh3 (Standing j window history base last) fs c ∧
        ∀ s, r = some s → s.generation = generation ∧ s.lsn = lsn ∧
          ∃ bodies, Finished j.xxh3 items s fs bodies) fs := by
  have avoid : Avoids (OnlyAt (.journal last)) Name.snapshotTmp := avoids_onlyAt (by simp)
  have avoidDst : Avoids (OnlyAt (.journal last)) (path true generation) :=
    avoids_onlyAt (by simp [path])
  have kept : ∀ mid s, ReflTransGen (OnlyAt (.journal last)) fs mid →
      Single j.xxh3 (Standing j window history base last)
        (update mid .snapshotTmp s) c := by
    intro mid s moved
    exact (single.standing_later moved).standing_congr (update_of_ne (by simp) _ _)
      (update_of_ne (by simp) _ _) fun g _ => update_of_ne (by simp) _ _
  have placed : ∀ mid s t, ReflTransGen (OnlyAt (.journal last)) fs mid →
      Single j.xxh3 (Standing j window history base last)
        (update (update mid (path true generation) t) .snapshotTmp s) c := by
    intro mid s t moved
    refine (single.standing_later moved).standing_congr ?_ ?_ fun g _ => ?_
    · rw [update_of_ne (by simp), update_of_ne (by simp [path])]
    · rw [update_of_ne (by simp), update_of_ne]
      intro same
      cases same
      exact newer rfl
    · rw [update_of_ne (by simp), update_of_ne (by simp [path])]
  intro created run
  refine ⟨single.standing_later run, fun r fs₁ exec => ?_⟩
  cases exec with
  | create =>
    obtain ⟨_, present, opened⟩ := create_eq created .snapshotTmp
    rw [opened]
    apply Safe.bind
    refine Drafting.safe_chunks ⟨avoid, present, ?crash, ?failed⟩ items [] []
      (forall_mem_nil _) (by rw [frames]; decide) ?done
    case crash => exact fun mid s moved => kept mid s (run.trans moved)
    case failed =>
      intro mid s moved fs₂ run₂
      obtain ⟨later, moved₂, rfl⟩ := avoid.run run₂
      have here := kept later s ((run.trans moved).trans moved₂)
      exact ⟨here, here, fun _ absurd => by cases absurd⟩
    case done =>
      intro mid bodies moved whole small bounded
      have count := length_frames_ge j.xxh3 0 bodies
      have numbered : Numbered 0 bodies := by
        refine ⟨small, ?_⟩
        unfold headerLen at count
        unfold maxFile at bounded
        rw [nil_append, nil_append] at bounded
        omega
      have far := run.trans moved
      apply safe_place (by simp [path]) avoid avoidDst present
      · intro later s moved₂
        exact kept later s (far.trans moved₂)
      · intro _ s _ moved₂ _ run₃
        obtain ⟨_, run₄, rfl⟩ := avoid.run run₃
        obtain ⟨two, run₅, rfl⟩ := avoidDst.run run₄
        have here := placed two s ((mid (path true generation)).rebind
          (some ⟨frames j.xxh3 0 bodies, frames j.xxh3 0 bodies⟩)) ((far.trans moved₂).trans run₅)
        refine ⟨here, fun r fs₂ exec => ?_⟩
        cases exec with
        | syncDir =>
          intro fs₃ run₆
          have settled := here.standing_syncDir.standing_later run₆
          refine ⟨settled, settled, fun s' result => ?_⟩
          cases result
          refine ⟨rfl, rfl, bodies, whole, ?_, rfl, rfl, numbered, bounded⟩
          have slot := avoidDst.same run₆
          change fs₃ (path true generation) = _
          rw [slot]
          change Slot.settle (update (update two (path true generation) _)
            .snapshotTmp s (path true generation)) = _
          rw [update_of_ne (by simp [path]), update_self]
          rfl

/-! ## Publishing a snapshot -/

theorem Current.Valid.logs_split (h : c.Valid) :
    c.logs = range' c.snapshot (c.logs.length - 1) ++ [c.lastLog] := by
  have lastLog := h.lastLog
  have positive := h.some_log
  have last : c.lastLog = c.snapshot + (c.logs.length - 1) := by omega
  have joined : range' c.snapshot (c.logs.length - 1 + 1) =
      range' c.snapshot (c.logs.length - 1) ++ [c.snapshot + (c.logs.length - 1)] := by
    rw [range'_concat, one_mul]
  rw [last, ← joined, Nat.sub_add_cancel positive]
  exact h.logs

variable {s : Snapshot}

theorem logs_withSnapshot (h : c.Valid) (generation : s.generation = c.lastLog) :
    (c.withSnapshot s).logs = [c.lastLog] := by
  have lastLog := h.lastLog
  have older : ∀ g ∈ range' c.snapshot (c.logs.length - 1), ¬ g ≥ c.lastLog := by
    intro g mem
    rw [mem_range'_1] at mem
    omega
  change (c.logs.filter fun g => g ≥ s.generation) = _
  rw [h.logs_split, filter_append, generation,
    filter_eq_nil_iff.mpr fun g mem => by simpa using older g mem]
  simp

theorem garbage_withSnapshot (h : c.Valid) (clean : c.garbage = [])
    (generation : s.generation = c.lastLog) (newer : c.snapshot < c.lastLog) :
    (∀ f ∈ (c.withSnapshot s).garbage, f.2 < c.lastLog) ∧
      (c.withSnapshot s).garbage.length ≤ 2 * maxGenerations := by
  have few := h.few_logs
  have shape : (c.withSnapshot s).garbage = (true, c.snapshot) ::
      (c.logs.filter fun g => g < c.lastLog).map fun g => (false, g) := by
    rw [Current.withSnapshot, clean, generation]
    rfl
  rw [shape]
  constructor
  · intro f mem
    rcases mem_cons.mp mem with rfl | old
    · exact newer
    · obtain ⟨g, found, rfl⟩ := mem_map.mp old
      simpa using (mem_filter.mp found).2
  · have part := length_filter_le (fun g => decide (g < c.lastLog)) c.logs
    rw [length_cons, length_map]
    unfold maxGenerations at few ⊢
    omega

section

variable (clean : c.garbage = []) (generation : s.generation = c.lastLog)
  (newer : c.snapshot < c.lastLog) (lsn : s.lsn = base c.lastLog) (short : history.length < 2 ^ 64)
  (finished : Finished j.xxh3 items s fs bodies)
  (rebuilt : Rebuilt j.initial j.same history s.lsn bodies)
include clean generation newer lsn short finished rebuilt

theorem backed_withSnapshot (h : Backed j window history base fs c) :
    Backed j window history base fs (c.withSnapshot s) ∧
      (c.withSnapshot s).lastLog = c.lastLog := by
  have logs := logs_withSnapshot h.valid generation
  have lastLog : (c.withSnapshot s).lastLog = c.lastLog := by
    rw [Current.lastLog, logs]
    rfl
  obtain ⟨old, few⟩ := garbage_withSnapshot h.valid clean generation newer
  have small := finished.small
  have count := finished.numbered.fits
  have inside := h.inside
  have bound := h.valid.lastLog
  have generations := h.valid.generations
  unfold maxFile at small
  have before := h.base_le (le_refl _) h.valid.snapshot_le (le_refl _)
  have admitted := h.admitted
  have some_log := h.valid.some_log
  refine ⟨⟨?valid, ?admitted, ?pending, ?lsn, ?snapshot, ?order, ?inside, ?logs⟩, lastLog⟩
  case valid =>
    refine ⟨?_, ?_, ?_, few, ?_, ?_, ?_, ?_, ?_, .inl rfl, ?_⟩
    · rw [logs]
      change _ = range' s.generation 1
      rw [generation]
      rfl
    · rw [logs]
      exact one_pos
    · rw [logs]
      change 1 ≤ maxGenerations
      decide
    · change 0 < s.generation
      omega
    · rw [logs]
      change s.generation + 1 ≤ 2 ^ 64
      omega
    · change s.lsn < 2 ^ 64
      omega
    · change s.bytes < 2 ^ 64
      omega
    · change s.records < 2 ^ 64
      have records := finished.records
      omega
    · intro f mem
      change f.2 < s.generation
      rw [generation]
      exact old f mem
  case admitted =>
    refine ⟨?_, ?_⟩
    · rw [logs]
      exact le_trans some_log admitted.1
    · change window.floor ≤ s.lsn
      have floor := admitted.2
      rw [h.lsn] at floor
      omega
  case pending => exact fun absurd => (absurd rfl).elim
  case lsn =>
    change s.lsn = base s.generation
    rw [generation, lsn]
  case snapshot =>
    exact ⟨bodies, finished.file, finished.bytes.symm, finished.records.symm, finished.numbered,
      rebuilt⟩
  case order =>
    intro g low high
    change s.generation ≤ g at low
    omega
  case inside =>
    rw [lastLog]
    exact inside
  case logs =>
    intro g low _
    change s.generation ≤ g at low
    omega

theorem safe_publishSnapshot
    (single : Single j.xxh3 (Standing j window history base c.lastLog) fs c) :
    (publishSnapshot j.xxh3 c s).Safe (OnlyAt (.journal c.lastLog))
      (Manifests j.xxh3 (Standing j window history base c.lastLog))
      (fun r fs => r = some { c.withSnapshot s with garbage := [] } ∧
        Single j.xxh3 (Standing j window history base c.lastLog) fs
          { c.withSnapshot s with garbage := [] }) fs := by
  have avoidTmp : Avoids (OnlyAt (.journal c.lastLog)) Name.currentTmp := avoids_onlyAt (by nofun)
  have avoid : Avoids (OnlyAt (.journal c.lastLog)) Name.current := avoids_onlyAt (by nofun)
  have named := backed_withSnapshot clean generation newer lsn short finished rebuilt single.2.1
  obtain ⟨b, encoded, -, -⟩ := named.1.valid.decode_encode j.xxh3
  have spare : ∀ n ∈ (c.withSnapshot s).garbage.map (fun f => path f.1 f.2),
      ¬ Needs (c.withSnapshot s) n := by
    intro n mem needed
    obtain ⟨f, old, rfl⟩ := mem_map.mp mem
    have low := named.1.valid.garbage f old
    unfold path at needed
    split at needed
    · have kept := needed.snapshot_eq
      omega
    · have kept := needed.journal_le
      omega
  rw [publishSnapshot, publish_eq encoded]
  apply safe_swap undisturbed_standing avoidTmp avoid single named named.1.valid
    fun fs found => found
  intro _ _ _ single₁ _
  refine safe_removeAll spare (fun _ h => Single.manifests h)
    (fun _ _ moved h => h.standing_later moved) (fun fs fs' agree h => ?_) single₁ ?_
  · refine ⟨?_, h.2.1.congr (agree _ .snapshot) fun g low high =>
      agree _ (.journal g low (le_of_lt high)), h.2.2⟩
    rw [agree _ .current]
    exact h.1
  intro _ single₂ fs₃ moved
  have single₃ := single₂.standing_later moved
  refine ⟨single₃.manifests, fun r fs₄ exec => ?_⟩
  cases exec with
  | syncDir =>
    have single₄ := single₃.standing_syncDir
    have cleared : Backed j window history base (fs₃.syncDir root)
        { c.withSnapshot s with garbage := [] } := single₄.2.1.cleared
    obtain ⟨_, encoded', -, -⟩ := cleared.valid.decode_encode j.xxh3
    rw [publish_eq encoded']
    apply safe_swap undisturbed_standing avoidTmp avoid single₄ ⟨cleared, single₄.2.2⟩
      cleared.valid fun fs found => found
    intro _ _ _ single₅ _ _ moved₆
    have single₆ := single₅.standing_later moved₆
    exact ⟨single₆.manifests, rfl, single₆⟩

end

/-! ## What these programs leave alone -/

section Spare

variable {α : Type} {g : Nat} {next : Prog Name (Option α)}

theorem spares_removeAll {names : List Name} (other : ∀ m ∈ names, m ≠ .journal g)
    (h : next.Spares (.journal g)) : (removeAll names next).Spares (.journal g) := by
  induction names with
  | nil => exact h
  | cons n _ ih =>
    exact ⟨other n mem_cons_self, fun _ => ih fun m mem => other m (mem_cons_of_mem _ mem)⟩

theorem spares_publish (c : Current) (h : next.Spares (.journal g)) :
    (publish j.xxh3 c next).Spares (.journal g) := by
  apply spares_ensure (by nofun)
  split
  · trivial
  · apply spares_ensureWrite (by nofun)
    apply spares_ensure (by nofun)
    refine spares_ensure ?_ (spares_ensure ?_ h)
    · exact ⟨by nofun, by nofun⟩
    · trivial

theorem spares_publishSnapshot (clean : c.garbage = []) (generation : s.generation = c.lastLog) :
    (publishSnapshot j.xxh3 c s).Spares (.journal c.lastLog) := by
  apply spares_publish
  apply spares_removeAll
  · intro m mem same
    obtain ⟨f, old, rfl⟩ := mem_map.mp mem
    rw [Current.withSnapshot, clean, generation] at old
    rcases mem_cons.mp old with rfl | log
    · cases same
    · obtain ⟨g, found, rfl⟩ := mem_map.mp log
      have lower : g < c.lastLog := by simpa using (mem_filter.mp found).2
      have log : g = c.lastLog := Name.journal.inj same
      omega
  · refine spares_ensure ?_ (spares_publish _ ?_)
    · trivial
    · trivial

theorem spares_writeChunks (offset records : Nat) (l : List (Result Bytes)) :
    (writeChunks offset records l).Spares (.journal g) := by
  induction l generalizing offset records with
  | nil => trivial
  | cons chunk l ih =>
    cases chunk with
    | error => trivial
    | ok =>
      rw [writeChunks]
      split
      · trivial
      · split
        · trivial
        · exact spares_ensureWrite (by nofun) _ _ (ih _ _)

theorem spares_writeSnapshot (generation lsn : Nat) (items : List (Result Bytes)) :
    (writeSnapshot j.xxh3 generation lsn items).Spares (.journal g) := by
  apply spares_ensure (by nofun)
  apply Spares.bind (spares_writeChunks ..)
  intro r
  split
  · trivial
  · apply spares_ensure (by nofun)
    refine spares_ensure ?_ (spares_ensure ?_ ?_)
    · exact ⟨by nofun, by nofun⟩
    · trivial
    · trivial

end Spare

end Talon.Journal
