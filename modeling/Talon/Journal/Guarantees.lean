import Talon.Journal.Progress

/-!
# What a journal guarantees

Recovery after any crash, the manifests that may be found, what a finished checkpoint covers, and
the room for another log when one is rotated.  A process that is killed before it has synced a new
manifest leaves recovery to clean up after a manifest that is not durable.  A checkpoint that is
interrupted between the rotation and the publication of the snapshot leaves a log behind; after
enough of them no rotation succeeds.
-/

set_option autoImplicit false

namespace Talon.Journal

open Wire CrashFs CrashFs.Prog Relation List Function

variable {xxh3 : Hash} {M : Machine} {initial : M.State} {same : M.State → M.State → Prop}
  {options : StreamOptions} {n : Node M}

/-! ## Recovery after a crash -/

/-- Recovery from the files `fs'` comes to an end, with a machine like the one after the records up
to some LSN, which covers every promise. -/
def Survives (xxh3 : Hash) (M : Machine) (initial : M.State) (same : M.State → M.State → Prop)
    (n : Node M) (fs' : Fs Name) : Prop :=
  (∃ r fs'', Runs (recover xxh3 M initial) fs' r fs'') ∧
    ∀ r fs'', Runs (recover xxh3 M initial) fs' r fs'' → ∃ opened s, r = some opened ∧
      M.run initial (n.history.take opened.lsn) = .ok s ∧ same s opened.machine ∧
      opened.lsn ≤ n.history.length ∧ ∀ lsn ∈ n.promised, lsn ≤ opened.lsn

variable {window : Window}

theorem Startable.survives {limit : Nat} {positive : 0 < limit} {fs' : Fs Name}
    (tracked : Tracked ⟨xxh3, initial, same⟩ limit positive n) (finite : fs'.FinitelyMany)
    (start : Startable ⟨xxh3, initial, same⟩ window n.history n.promised fs')
    (good : M.Good initial same n.history) : Survives xxh3 M initial same n fs' := by
  refine ⟨?_, fun r fs'' runs => ?_⟩
  · obtain ⟨r, fs'', runs, -⟩ := exists_runs (recover xxh3 M initial) finite
    exact ⟨r, fs'', runs⟩
  · have ended := (safe_recover tracked.history start).runs runs
    cases r with
    | none => exact absurd good ended.2
    | some opened =>
      obtain ⟨_, f, opened'⟩ := ended
      obtain ⟨s, whole, alike⟩ := opened'.machine (good.take _)
      exact ⟨opened, s, rfl, whole, alike, opened'.high, opened'.promised⟩

/-- The records survive the end of the process and the loss of what was not durable. -/
theorem recover_after_crash (contract : M.Rebuilds initial same)
    (run : ReflTransGen (Guarded xxh3 M initial options) (Node.fresh M) n)
    (accepted : M.Accepts initial n.history) {fs' : Fs Name} (crash : Crash n.fs fs')
    (careful : fs' = n.fs → Resumable xxh3 n.fs) : Survives xxh3 M initial same n fs' := by
  have tracked : Tracked ⟨xxh3, initial, same⟩ maxGenerations (by decide) n := tracked_run run
  obtain ⟨_, recoverable, -⟩ := tracked.recoverable
  have finite := tracked.finite.crash crash
  cases crash with
  | kill => exact (recoverable.kill (careful rfl)).survives tracked finite ⟨contract, accepted⟩
  | loss _ lost => exact (recoverable.crash lost).survives tracked finite ⟨contract, accepted⟩

/-- A machine that keeps the bytes it is given, if it accepts them. -/
def keeper (accepts : UInt8 → Bool) : Machine where
  State := List UInt8
  Record := UInt8
  SnapshotRecord := UInt8
  encodedLen _ := .ok 1
  encode r := .ok [r]
  decode b :=
    match b with
    | [r] => .ok r
    | _ => .error "record"
  apply s _ r := if accepts r then .ok (s ++ [r]) else .error "rejected"
  snapshot s := .ok (s.map fun r => .ok [r])
  decodeSnapshot b :=
    match b with
    | [r] => .ok r
    | _ => .error "record"
  restore s r := .ok (s ++ [r])

theorem keeper_restoreAll (accepts : UInt8 → Bool) (s t : List UInt8) :
    (keeper accepts).restoreAll s (t.map fun r => [r]) = .ok (s ++ t) := by
  induction t generalizing s with
  | nil => exact congrArg Except.ok (append_nil s).symm
  | cons r t ih =>
    have rest := ih (s ++ [r])
    rw [append_assoc] at rest
    exact rest

theorem keeper_rebuilds (accepts : UInt8 → Bool) :
    (keeper accepts).Rebuilds ([] : List UInt8) Eq where
  start := rfl
  apply := by
    intro s t s' _ r alike applied
    subst alike
    exact ⟨s', applied, rfl⟩
  restore := by
    intro _ s t items _ alike snapshot
    subst alike
    have listed := map_map.trans (Except.ok.inj snapshot)
    have kept := map_injective_iff.mpr (fun _ _ => Except.ok.inj) listed
    refine ⟨s, ?_, rfl⟩
    rw [← kept]
    exact keeper_restoreAll accepts [] s

def smallStream : StreamOptions := ⟨4096, 64, by decide, by decide, by decide⟩

/-- A durable append survives a loss of power. -/
theorem recover_after_crash_durable :
    ∃ n : Node (keeper fun _ => true),
      ReflTransGen (Guarded zeroHash (keeper fun _ => true) ([] : List UInt8) smallStream)
        (Node.fresh _) n ∧
      n.history = [⟨(7 : UInt8), [7]⟩] ∧ n.promised = [1] ∧ Crash n.fs n.crashed.fs ∧
      Survives zeroHash (keeper fun _ => true) ([] : List UInt8) Eq n n.crashed.fs := by
  obtain ⟨n, _, lively, -, -, -, -, -, history, promised⟩ := durable_append zeroHash
    (keeper_rebuilds fun _ => true)
    (show appendBytes (keeper fun _ => true) smallStream (7 : UInt8) = .ok [7] from rfl)
    (by decide) (by decide) fun s _ => ⟨List.append (α := UInt8) s [7], rfl⟩
  have run := lively_run lively
  have accepted : (keeper fun _ => true).Accepts ([] : List UInt8) n.history := by
    rw [history]
    exact ⟨fun e mem => by rw [mem_singleton.mp mem]; rfl, ([7] : List UInt8), rfl⟩
  have lost : ∀ name, (n.fs name).Crash (n.crashed.fs name) := fun name => (n.fs name).crash_flush
  exact ⟨n, run, history, promised, .loss _ _ lost,
    recover_after_crash (keeper_rebuilds fun _ => true) run accepted (.loss _ _ lost)
      (resumable_of_crash lost)⟩

/-! ## The manifest -/

structure Current.Sound (xxh3 : Hash) (fs : Fs Name) (c : Current) : Prop where
  snapshot : c.snapshot ≠ 0
  logs : c.logs ≠ [] ∧ c.logs = List.range' c.snapshot c.logs.length
  pending : c.pending = 0 ∨ c.logs.getLast? = some c.pending
  garbage : ∀ f ∈ c.garbage, ¬ (f.1 = true ∧ f.2 = c.snapshot) ∧ ¬ (f.1 = false ∧ f.2 ∈ c.logs)
  snapshotFile : ∃ items : List Bytes, fs (.snapshot c.snapshot) = .settled (frames xxh3 0 items) ∧
    (frames xxh3 0 items).length = c.bytes ∧ items.length = c.records
  logFiles : ∀ g ∈ c.logs, ∃ f, fs (.journal g) = ⟨some f, []⟩

variable {fs : Fs Name} {c : Current}

theorem Backed.sound {history : List (Entry M)} {promised : List Nat} {base : Nat → Nat} {f : File}
    (h : Backed ⟨xxh3, initial, same⟩ window history base fs c)
    (last : LastLog xxh3 history base promised fs c.lastLog f) : c.Sound xxh3 fs := by
  have lastLog := h.valid.lastLog
  have positive := h.valid.some_log
  have inside : ∀ g, g ∈ c.logs ↔ c.snapshot ≤ g ∧ g ≤ c.lastLog := by
    intro g
    rw [h.valid.logs, mem_range'_1]
    omega
  refine ⟨Nat.pos_iff_ne_zero.mp h.valid.snapshot, ⟨length_pos_iff.mp positive, h.valid.logs⟩,
    ?_, ?_, ?_, ?_⟩
  · rcases h.valid.pending with zero | _
    · exact .inl zero
    · right
      have pending : c.pending = c.lastLog := by omega
      have end_log := h.valid.logs_split
      rw [pending, end_log, getLast?_concat]
  · intro g mem
    have old := h.valid.garbage g mem
    refine ⟨fun named => by omega, fun named => ?_⟩
    have := ((inside _).mp named.2).1
    omega
  · obtain ⟨items, slot, bytes, records, -⟩ := h.snapshot
    exact ⟨items, slot, bytes, records⟩
  · intro g mem
    obtain ⟨low, _⟩ := (inside g).mp mem
    by_cases latest : g = c.lastLog
    · rw [latest]
      exact ⟨f, last.slot⟩
    · exact ⟨_, h.logs g low (by omega)⟩

/-- In every state of every run, each `CURRENT` that may be found is read back as it was written and
names files that are there; while none is being written, it is the one the process has. -/
theorem current_sound (run : ReflTransGen (Guarded xxh3 M initial options) (Node.fresh M) n) :
    (∀ file, (n.fs .current).Possible (some file) → ∃ c, c.encode xxh3 = .ok file.data ∧
      Current.decode xxh3 file.data = .ok c ∧ c.Sound xxh3 n.fs) ∧
    ∀ w point, n.mode = .running w point → point.quiet = true →
      ∃ b, w.current.encode xxh3 = .ok b ∧ n.fs .current = .settled b ∧
        Current.decode xxh3 b = .ok w.current := by
  have tracked : Tracked ⟨xxh3, initial, fun _ _ => True⟩ maxGenerations (by decide) n :=
    tracked_run run
  constructor
  · intro file possible
    obtain ⟨_, ⟨base, named⟩, -⟩ := tracked.recoverable
    obtain ⟨c, f, -, encoded, backed, last⟩ := named (some file) possible
    exact ⟨c, encoded, backed.decode encoded, backed.sound last⟩
  · intro w _ running quiet
    obtain ⟨_, -, held⟩ := tracked.running running
    obtain ⟨_, f, k, -, settled⟩ := held.stopped quiet
    obtain ⟨⟨b, encoded, slot⟩, backed, -⟩ := settled.single
    exact ⟨b, encoded, slot, backed.decode encoded⟩

def silent : Machine where
  State := Unit
  Record := Unit
  SnapshotRecord := Unit
  encodedLen _ := .ok 0
  encode _ := .ok []
  decode _ := .ok ()
  apply _ _ _ := .ok ()
  snapshot _ := .ok []
  decodeSnapshot _ := .ok ()
  restore _ _ := .ok ()

theorem silent_rebuilds : silent.Rebuilds () Eq where
  start := rfl
  apply := fun _ _ _ _ _ _ _ => ⟨(), rfl, rfl⟩
  restore := by
    intro _ s t items _ _ snapshot
    have empty : items = [] := map_eq_nil_iff.mp (Except.ok.inj snapshot).symm
    subst empty
    exact ⟨(), rfl, rfl⟩

theorem silent_appended :
    ∃ (n : Node silent) (w : Writer silent),
      ReflTransGen (Guarded zeroHash silent () smallStream) (Node.fresh silent) n ∧
      n.mode = .running w .select ∧ w.Resting smallStream ∧ w.current = firstCurrent ∧ w.lsn = 1 ∧
      w.replied = [1] ∧ n.history = [⟨(), []⟩] ∧ n.promised = [1] := by
  obtain ⟨n, w, lively, rest⟩ := durable_append zeroHash silent_rebuilds
    (show appendBytes silent smallStream () = .ok [] from rfl) (by decide) (by decide)
    fun _ _ => ⟨(), rfl⟩
  exact ⟨n, w, lively_run lively, rest⟩

theorem silent_checkpointed :
    ∃ (n : Node silent) (w : Writer silent),
      ReflTransGen (Guarded zeroHash silent () smallStream) (Node.fresh silent) n ∧
      n.mode = .running w .head ∧ [1] ∈ w.completed := by
  obtain ⟨_, _, run, running, resting, current, -, replied, -⟩ := silent_appended
  have completes := checkpoint_completes run running resting rfl
    (by rw [current]; decide) (by rw [current]; decide)
  rwa [replied] at completes

/-- The manifest after an append and a checkpoint. -/
theorem current_sound_published :
    ∃ (n : Node silent) (w : Writer silent),
      ReflTransGen (Guarded zeroHash silent () smallStream) (Node.fresh silent) n ∧
      n.mode = .running w .head ∧ [1] ∈ w.completed ∧
      (∀ file, (n.fs .current).Possible (some file) → ∃ c, c.encode zeroHash = .ok file.data ∧
        Current.decode zeroHash file.data = .ok c ∧ c.Sound zeroHash n.fs) ∧
      ∀ w point, n.mode = .running w point → point.quiet = true →
        ∃ b, w.current.encode zeroHash = .ok b ∧ n.fs .current = .settled b ∧
          Current.decode zeroHash b = .ok w.current := by
  obtain ⟨n, w, run, running, told⟩ := silent_checkpointed
  exact ⟨n, w, run, running, told, current_sound run⟩

/-! ## A killed publication -/

theorem read_nil {T σ : Type} (tailOk : Bool) (decode : Bytes → Result T)
    (visit : σ → Nat → T → Result σ) (s : σ) :
    read zeroHash tailOk decode visit [] s = .ok (0, s) := by
  have numbered : Numbered 0 [] := ⟨forall_mem_nil _, by decide⟩
  exact read_frames (.inr rfl) visit numbered .nil s

/-- Recovery of an empty snapshot and log comes to the removal of the first left over file. -/
theorem recover_removes {b : Bytes} {name : Name} {rest : List Name}
    (current : fs.contents .current = some b) (short : b.length ≤ 65536)
    (decoded : Current.decode zeroHash b = .ok c)
    (snapshot : fs.contents (.snapshot c.snapshot) = some []) (empty : c.bytes = 0 ∧ c.records = 0)
    (logs : c.logs = [c.lastLog]) (log : fs.contents (.journal c.lastLog) = some [])
    (listed : leftovers c = name :: rest) (present : (fs name).now ≠ none) :
    ∃ p, Reaches (recover zeroHash silent ()) fs p (fs.remove name) := by
  have restored : restoreSnapshot zeroHash silent () c [] = .ok () := by
    simp [restoreSnapshot, read_nil, empty]
    rfl
  have replayed : Runs (replayLogs zeroHash silent c.logs 0 (c.lsn, ())) fs
      (some (0, c.lsn, ())) fs := by
    rw [logs]
    refine .op (.read _ _ [] log) ?_
    dsimp only
    rw [read_nil]
    exact .ret _ _
  refine ⟨removeAll rest <| ensure (.syncDir root) <|
    publishSync zeroHash { c with garbage := [], pending := 0 } <|
      .ret (some ⟨{ c with garbage := [], pending := 0 }, 0, c.lsn, ()⟩),
    .op (.read _ _ b current) ?_⟩
  dsimp only
  rw [if_neg (by omega), decoded]
  refine .op (.read _ _ [] snapshot) ?_
  dsimp only
  rw [restored]
  refine replayed.reaches (.op (.read _ _ [] log) ?_)
  dsimp only
  rw [if_neg (by simp), listed]
  exact .op (.remove _ _ present) .refl

def secondCurrent : Current := firstCurrent.withLog.withSnapshot ⟨2, 1, 0, 0⟩

theorem silent_renamed :
    ∃ (n : Node silent) (old new : Bytes),
      ReflTransGen (Guarded zeroHash silent () smallStream) (Node.fresh silent) n ∧ n.mode ≠ .down ∧
      n.history = [⟨(), []⟩] ∧ n.promised = [1] ∧ firstCurrent.withLog.encode zeroHash = .ok old ∧
      Current.decode zeroHash new = .ok secondCurrent ∧ new.length ≤ 65536 ∧
      n.fs .current = (Slot.settled old).rebind (some ⟨new, new⟩) := by
  obtain ⟨_, w, run, running, resting, current, lsn, -, history, promised⟩ := silent_appended
  obtain ⟨n, w', old, run', publishing, -, history', promised', encoded, slot⟩ :=
    checkpoint_publishes run running resting rfl (by rw [current]; decide) (by rw [current]; decide)
  rw [current] at encoded publishing
  rw [lsn] at publishing
  have valid : secondCurrent.Valid := by constructor <;> decide
  obtain ⟨new, encoded', decoded, short⟩ := valid.decode_encode zeroHash
  obtain ⟨fs, reaches, renamed⟩ := publish_renames encoded' _ n.fs
  have steps := lively_reaches zeroHash () smallStream (fun p => .running w' (.publish p)) nofun
    (fun p fs p' fs' step => .publish _ w' p p' fs' rfl step) publishing reaches
  rw [slot] at renamed
  exact ⟨_, old, new, run'.trans (lively_run steps), nofun, history'.trans history,
    promised'.trans promised, encoded, decoded, short, renamed⟩

/-- The process is killed before the new manifest is synced, recovery removes the snapshot of the
old one, and the power fails before recovery has synced the directory: the old manifest is back and
its snapshot is not. -/
theorem killed_publication :
    ∃ (n : Node silent) (fs' : Fs Name),
      ReflTransGen (Step zeroHash silent () smallStream) (Node.fresh silent) n ∧
      n.history = [⟨(), []⟩] ∧ n.promised = [1] ∧ (∀ name, (n.fs name).Crash (fs' name)) ∧
      (∃ b, firstCurrent.withLog.encode zeroHash = .ok b ∧ fs' .current = .settled b) ∧
      fs' (.snapshot 1) = .empty := by
  obtain ⟨n, old, new, run, up, history, promised, encoded, decoded, short, slot⟩ := silent_renamed
  have tracked : Tracked (M := silent) ⟨zeroHash, (), Eq⟩ maxGenerations (by decide) n :=
    tracked_run run
  obtain ⟨_, ⟨base, named⟩, -⟩ := tracked.recoverable
  rw [slot] at named
  -- the new manifest names an empty snapshot and an empty log
  obtain ⟨_, f, -, encoding, backed, last⟩ := named (some ⟨new, new⟩) (.inl rfl)
  cases decoded.symm.trans (backed.decode encoding)
  obtain ⟨items, snapshot, length, -⟩ := backed.snapshot
  rw [length_eq_zero_iff.mp length] at snapshot
  have unwritten : f.data = [] := by
    have data := last.data
    have here : base secondCurrent.lastLog = 1 := backed.lsn.symm
    rw [here, history] at data
    exact prefix_nil.mp data
  -- the old one names the snapshot that recovery removes
  obtain ⟨_, _, -, encoding', backed', -⟩ := named (some ⟨old, old⟩) (.inr mem_cons_self)
  have first : firstCurrent.withLog.Valid := by constructor <;> decide
  obtain ⟨_, again, decoded', -⟩ := first.decode_encode zeroHash
  cases encoded.symm.trans again
  cases decoded'.symm.trans (backed'.decode encoding')
  obtain ⟨items', present, -⟩ := backed'.snapshot
  change n.fs (.snapshot 1) = _ at present
  obtain ⟨p, reaches⟩ := recover_removes (b := new) (by rw [Fs.contents, slot]; rfl) short decoded
    (by rw [Fs.contents, snapshot]; rfl) ⟨rfl, rfl⟩ rfl
    (last.contents.trans (congrArg some unwritten))
    (show leftovers secondCurrent = .snapshot 1 :: _ from rfl) (by simp [present, Slot.settled])
  have kill : Step zeroHash silent () smallStream n { n with mode := .down } := .kill n up
  have killed := ((guarded_run run).tail kill).tail (.reopen _ rfl)
  have removed := guarded_run (lively_run (lively_reaches zeroHash () smallStream
    (n := { n with mode := .opening (recover zeroHash silent ()) }) .opening (by simp)
    (fun p fs p' fs' step => .recover _ p p' fs' rfl step) rfl reaches))
  have manifest : n.fs.remove (.snapshot 1) .current = (Slot.settled old).rebind
    (some ⟨new, new⟩) :=
    (update_of_ne (by decide) _ _).trans slot
  refine ⟨_, update (fun name => (n.fs.remove (.snapshot 1) name).flush) .current
    (.settled old), killed.trans removed, history, promised, ?_,
    ⟨old, encoded, update_self ..⟩, ?_⟩
  · change ∀ name, (n.fs.remove (.snapshot 1) name).Crash _
    intro name
    by_cases current : name = .current
    · rw [current, update_self, manifest]
      exact .inr ⟨⟨old, old⟩, old, .inr mem_cons_self, (File.survives_synced rfl).mpr rfl, rfl⟩
    · rw [update_of_ne current]
      exact Slot.crash_flush _
  · rw [update_of_ne (by decide), Fs.remove, update_self]
    rfl

/-- No recovery gets past a manifest whose snapshot is gone, although a durable append was
acknowledged. -/
theorem recover_fails_killed :
    ∃ (n : Node silent) (fs' : Fs Name), silent.Rebuilds () Eq ∧
      ReflTransGen (Step zeroHash silent () smallStream) (Node.fresh silent) n ∧
      silent.Accepts () n.history ∧ n.promised = [1] ∧ Crash n.fs fs' ∧
      (∃ r fs'', Runs (recover zeroHash silent ()) fs' r fs'') ∧
      ∀ r fs'', Runs (recover zeroHash silent ()) fs' r fs'' → r = none := by
  obtain ⟨n, fs', run, history, promised, lost, ⟨b, encoded, slot⟩, gone⟩ := killed_publication
  have valid : firstCurrent.withLog.Valid := by constructor <;> decide
  obtain ⟨_, again, decoded, short⟩ := valid.decode_encode zeroHash
  cases encoded.symm.trans again
  have accepted : silent.Accepts () n.history := by
    rw [history]
    exact ⟨fun e mem => by rw [mem_singleton.mp mem]; rfl, (), rfl⟩
  have current : fs'.contents .current = some b := by
    rw [Fs.contents, slot]
    rfl
  have missing : (fs' (.snapshot 1)).now = none := by
    rw [gone]
    rfl
  refine ⟨n, fs', silent_rebuilds, run, accepted, promised, .loss _ _ lost,
    ⟨none, fs', .op (.read _ _ b current) ?_⟩, fun r fs'' runs => ?_⟩
  · dsimp only
    rw [if_neg (by omega), decoded]
    exact .op (.readMissing _ _ missing) (.ret _ _)
  · have safe : (recover zeroHash silent ()).Safe Alone (fun _ => True)
        (fun r _ => r = none) fs' := by
      refine safe_read trivial current ?_
      dsimp only
      rw [if_neg (by omega), decoded]
      refine safe_op.mpr ⟨trivial, fun r fs exec => ?_⟩
      cases exec with
      | read _ _ _ present =>
        rw [Fs.contents] at present
        change (fs' (.snapshot 1)).now.map _ = _ at present
        rw [missing] at present
        cases present
      | readMissing => exact safe_ret.mpr ⟨trivial, rfl⟩
    exact safe.runs runs

/-- The manifest on the disk names a snapshot that is gone. -/
theorem current_unsound_killed :
    ∃ (n : Node silent) (b : Bytes) (c : Current),
      ReflTransGen (Step zeroHash silent () smallStream) (Node.fresh silent) n ∧
      n.fs .current = .settled b ∧ c.encode zeroHash = .ok b ∧
      n.fs (.snapshot c.snapshot) = .empty := by
  obtain ⟨n, fs', run, -, -, lost, ⟨b, encoded, slot⟩, gone⟩ := killed_publication
  exact ⟨_, b, firstCurrent.withLog, run.tail (.crash n fs' lost), slot, encoded, gone⟩

/-! ## Checkpoints -/

/-- When a caller of `Handle::checkpoint` has been told, every `CURRENT` that may be found covers
the records it had seen. -/
theorem checkpoint_covers (run : ReflTransGen (Guarded xxh3 M initial options) (Node.fresh M) n)
    {w : Writer M} {point : Point} (running : n.mode = .running w point) {seen : List Nat}
    (told : seen ∈ w.completed) {b : Option File} (possible : (n.fs .current).Possible b) :
    ∃ file c, b = some file ∧ Current.decode xxh3 file.data = .ok c ∧ ∀ lsn ∈ seen,
      lsn ≤ c.lsn := by
  have tracked : Tracked ⟨xxh3, initial, fun _ _ => True⟩ maxGenerations (by decide) n :=
    tracked_run run
  obtain ⟨_, completed, held⟩ := tracked.running running
  obtain ⟨_, named⟩ := held.recoverable
  have found := named b possible
  cases b with
  | none => cases found.2
  | some file =>
    obtain ⟨c, f, -, encoded, backed, -⟩ := found
    exact ⟨file, c, rfl, backed.decode encoded, fun lsn mem =>
      Nat.le_trans (completed seen told lsn mem) backed.admitted.2⟩

/-- A checkpoint after an append. -/
theorem checkpoint_covers_append :
    ∃ (n : Node silent) (w : Writer silent) (point : Point) (b : Option File),
      ReflTransGen (Guarded zeroHash silent () smallStream) (Node.fresh silent) n ∧
      n.mode = .running w point ∧ [1] ∈ w.completed ∧ (n.fs .current).Possible b ∧
      ∃ file c, b = some file ∧ Current.decode zeroHash file.data = .ok c ∧
        ∀ lsn ∈ [1], lsn ≤ c.lsn := by
  obtain ⟨n, w, run, running, told⟩ := silent_checkpointed
  exact ⟨n, w, .head, _, run, running, told, Slot.possible_now _,
    checkpoint_covers run running told (Slot.possible_now _)⟩

/-! ## Generations -/

theorem silent_interrupted (limit : Nat) (most : limit ≤ maxGenerations) (count : Nat)
    (few : count < limit) :
    ∃ (n : Node silent) (w : Writer silent) (items : List (Result Bytes)),
      ReflTransGen (Orderly zeroHash silent () smallStream limit) (Node.fresh silent) n ∧
      n.mode = .running w (.rotate items (rotate zeroHash w.current)) ∧
      w.current.logs.length = count + 1 := by
  obtain ⟨n, r, run, blank, logs, -⟩ := interrupted_checkpoints zeroHash smallStream silent_rebuilds
    (fun _ => ⟨[], rfl⟩) most count few
  exact ⟨_, _, _, run.trans (lively_orderly
    ((ReflTransGen.single (start_waits blank.offset blank.running)).trans
      (checkpoint_starts rfl (resting_start blank.offset) rfl)) limit), rfl, logs⟩

/-- When a rotation starts the manifest has room for one more log, if no process ends while it is
full. -/
theorem rotation_has_room
    (run : ReflTransGen (Orderly xxh3 M initial options (maxGenerations - 1)) (Node.fresh M) n)
    {w : Writer M} {items : List (Result Bytes)} {p : Prog Name (Option (Current × Nat))}
    (rotating : n.mode = .running w (.rotate items p)) :
    w.current.logs.length < maxGenerations ∧
      w.current.withLog.encode xxh3 ≠ .error "too many journal generations" := by
  have tracked : Tracked ⟨xxh3, initial, fun _ _ => True⟩ (maxGenerations - 1) (by decide) n :=
    Transition.kept_by_run (fun _ _ last tracked => tracked.step last.1.1 last.1.2 last.2)
      tracked_fresh run
  obtain ⟨_, -, _, held, idle⟩ := tracked.running rotating
  have few := idle held.idle.2.2.2
  have room : w.current.logs.length < maxGenerations := by
    unfold maxGenerations at few ⊢
    omega
  refine ⟨room, fun full => ?_⟩
  have clean : w.current.withLog.garbage = [] := held.clean
  rw [Current.encode, if_neg] at full
  · cases full
  · rw [Current.length_withLog, clean, length_nil]
    omega

/-- A checkpoint after one that was interrupted by a crash. -/
theorem rotation_has_room_again :
    ∃ (n : Node silent) (w : Writer silent) (items : List (Result Bytes))
      (p : Prog Name (Option (Current × Nat))),
      ReflTransGen (Orderly zeroHash silent () smallStream (maxGenerations - 1))
        (Node.fresh silent) n ∧
      n.mode = .running w (.rotate items p) ∧ w.current.logs.length = 2 ∧
      w.current.logs.length < maxGenerations ∧
      w.current.withLog.encode zeroHash ≠ .error "too many journal generations" := by
  obtain ⟨n, w, items, run, rotating, logs⟩ := silent_interrupted (maxGenerations - 1) (by decide) 1
    (by decide)
  exact ⟨n, w, items, _, run, rotating, logs, rotation_has_room run rotating⟩

/-- Interrupted checkpoints fill the manifest, and then no rotation succeeds. -/
theorem rotation_fails_full :
    ∃ (n : Node silent) (w : Writer silent) (items : List (Result Bytes)),
      ReflTransGen (Guarded zeroHash silent () smallStream) (Node.fresh silent) n ∧
      n.mode = .running w (.rotate items (rotate zeroHash w.current)) ∧
      w.current.logs.length = maxGenerations ∧
      w.current.withLog.encode zeroHash = .error "too many journal generations" ∧
      ∀ r fs', Runs (rotate zeroHash w.current) n.fs r fs' → r = none := by
  obtain ⟨n, w, items, orderly, rotating, logs⟩ := silent_interrupted maxGenerations le_rfl 63
    (by decide)
  have run := orderly_run orderly
  have tracked : Tracked (M := silent) ⟨zeroHash, (), Eq⟩ maxGenerations (by decide) n :=
    tracked_run run
  obtain ⟨_, -, _, held, -⟩ := tracked.running rotating
  have length : w.current.withLog.logs.length = maxGenerations + 1 := by
    rw [Current.length_withLog, logs]
    rfl
  refine ⟨n, w, items, run, rotating, logs, ?_, fun result fs' runs => ?_⟩
  · rw [Current.encode, if_pos (.inl (by rw [length]; exact Nat.lt_succ_self _))]
  · have ended := held.safe.runs runs
    cases result with
    | none => rfl
    | some named =>
      obtain ⟨c, g⟩ := named
      obtain ⟨rfl, -, ready⟩ := ended
      have few := ready.backed.valid.few_logs
      omega

end Talon.Journal
