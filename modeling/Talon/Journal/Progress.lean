import Talon.Journal.Runs

/-!
# What a stream can do

Runs that exist: a stream can be opened, take an append, and rotate its log for a checkpoint.
Programs always come to an end, and the invariant says with which result.
-/

set_option autoImplicit false

namespace Talon.Journal

open Wire CrashFs CrashFs.Prog Relation List Nat Writer Function
open ReflTransGen (mono single)

variable {xxh3 : Hash} {M : Machine} {initial : M.State} {same : M.State → M.State → Prop}
  {options : StreamOptions} {limit : Nat} {positive : 0 < limit} {n n' : Node M}

def Lively (xxh3 : Hash) (M : Machine) (initial : M.State) (options : StreamOptions)
    (n n' : Node M) : Prop :=
  Step xxh3 M initial options n n' ∧ n'.mode ≠ .down

variable (run : ReflTransGen (Lively xxh3 M initial options) n n')
include run

theorem lively_run : ReflTransGen (Guarded xxh3 M initial options) n n' := by
  have weaker : Lively xxh3 M initial options ≤ Guarded xxh3 M initial options :=
    fun _ _ step => ⟨step.1, fun down => absurd down step.2⟩
  exact mono weaker _ _ run

theorem lively_orderly (limit : Nat) :
    ReflTransGen (Orderly xxh3 M initial options limit) n n' := by
  have weaker : Lively xxh3 M initial options ≤ Orderly xxh3 M initial options limit :=
    fun _ _ step => ⟨⟨step.1, fun down => absurd down step.2⟩, fun down => absurd down step.2⟩
  exact mono weaker _ _ run

omit run

variable {fs : Fs Name}

variable (xxh3 initial options) in
theorem lively_reaches {α : Type} {p p' : Prog Name α} (mode : Prog Name α → Mode M)
    (up : ∀ q, mode q ≠ .down) (steps : ∀ p fs p' fs', Prog.Step p fs p' fs' →
      Step xxh3 M initial options { n with fs, mode := mode p }
      { n with fs := fs', mode := mode p' })
    (running : n.mode = mode p) (reaches : Reaches p n.fs p' fs) :
    ReflTransGen (Lively xxh3 M initial options) n { n with fs, mode := mode p' } := by
  have lifted := reaches.lift (R := Lively xxh3 M initial options)
    (fun p fs => { n with fs, mode := mode p })
    fun p fs p' fs' step => ⟨steps p fs p' fs' step, up p'⟩
  rwa [← running] at lifted

/-! ## Opening -/

def Node.opened (n : Node M) (fs : Fs Name) (r : Recovered M) : Node M :=
  { n with
    fs, mode := .running (.start r) .head, history := n.history.take r.lsn, calls := [] }

variable {window : Window}

theorem opens {X : Recovered M → Prop} (down : n.mode = .down)
    (finite : n.fs.FinitelyMany) (good : M.Good initial same n.history)
    (safe : (recover xxh3 M initial).Safe Alone
      (Recoverable ⟨xxh3, initial, same⟩ window n.history n.promised)
      (fun r fs => Ended ⟨xxh3, initial, same⟩ window n.history n.promised r fs ∧
        ∀ opened, r = some opened → X opened) n.fs) :
    ∃ r fs base f, X r ∧ Opened ⟨xxh3, initial, same⟩ window n.history n.promised r base f fs ∧
      ReflTransGen (Lively xxh3 M initial options) n (n.opened fs r) := by
  obtain ⟨result, fs, runs, -⟩ := exists_runs (recover xxh3 M initial) finite
  obtain ⟨ended, extra⟩ := safe.runs runs
  cases result with
  | none => exact absurd good ended.2
  | some r =>
    obtain ⟨base, f, opened⟩ := ended
    refine ⟨r, fs, base, f, extra r rfl, opened, ?_⟩
    have steps := lively_reaches xxh3 initial options
      (n := { n with mode := .opening (recover xxh3 M initial) }) .opening nofun
      (fun p fs p' fs' step => .recover _ p p' fs' rfl step) rfl runs.ends
    exact ((single ⟨.reopen n down, nofun⟩).trans steps).tail
      ⟨.opened _ r rfl, nofun⟩

variable (xxh3 options) in
theorem opens_fresh (contract : M.Rebuilds initial same) :
    ∃ r fs, r.current = firstCurrent ∧ r.lsn = 0 ∧ r.offset = 0 ∧ same initial r.machine ∧
      ReflTransGen (Lively xxh3 M initial options) (Node.fresh M) ((Node.fresh M).opened fs r) := by
  have good : M.Good initial same [] := ⟨contract, forall_mem_nil _, initial, rfl⟩
  have tracked : Tracked ⟨xxh3, initial, same⟩ 1 one_pos (Node.fresh M) := tracked_fresh
  have safe : (recover xxh3 M initial).Safe Alone
      (Recoverable ⟨xxh3, initial, same⟩ (.down 1 one_pos) [] [])
      (fun r fs => Ended ⟨xxh3, initial, same⟩ (.down 1 one_pos) [] [] r fs ∧
        ∀ opened, r = some opened → opened.current = firstCurrent) (Node.fresh M).fs :=
    safe_recover_fresh tracked.history ⟨rfl, rfl⟩ rfl
  obtain ⟨r, fs, _, f, first, opened, run⟩ := opens rfl tracked.finite good safe
  have none_yet : r.lsn = 0 := le_zero.mp opened.high
  refine ⟨r, fs, first, none_yet, ?_, ?_, run⟩
  · rw [opened.offset, opened.log, none_yet, logBytes, take_zero, drop_nil]
    rfl
  · obtain ⟨s, started, alike⟩ := opened.machine (good.take _)
    rw [none_yet] at started
    cases started
    exact alike

theorem LastLog.flush {history : List (Entry M)} {base : Nat → Nat} {promised : List Nat} {g : Nat}
    {f : File} (h : LastLog xxh3 history base promised fs g f) :
    LastLog xxh3 history base promised (fun name => (fs name).flush) g ⟨f.data, f.data⟩ := by
  refine ⟨?_, h.data, h.data, fun lsn mem => ⟨(h.kept lsn mem).2, (h.kept lsn mem).2⟩⟩
  rw [Slot.flush, h.slot]
  rfl

def Node.crashed (n : Node M) : Node M :=
  { n with fs := fun name => (n.fs name).flush, mode := .down }

theorem finitelyMany_crashed (h : n.fs.FinitelyMany) : n.crashed.fs.FinitelyMany :=
  finitelyMany_crash h fun name => (n.fs name).crash_flush

variable {w : Writer M} {items : List (Result Bytes)}

theorem Held.recovers (h : History n.history n.promised)
    (held : Held ⟨xxh3, initial, same⟩ limit window n.history n.promised n.calls n.fs w .stopped) :
    ∃ base f, (w.write = none →
        f.data = logBytes xxh3 n.history (base w.current.lastLog) n.history.length) ∧
      (recover xxh3 M initial).Safe Alone
        (Recoverable ⟨xxh3, initial, same⟩ window n.history n.promised)
        (fun r fs => Ended ⟨xxh3, initial, same⟩ window n.history n.promised r fs ∧
          ∀ opened, r = some opened → Found xxh3 n.history base w.current f opened)
            n.crashed.fs := by
  obtain ⟨base, f, k, appends, settled⟩ := held
  obtain ⟨⟨b, encoded, slot⟩, backed, -⟩ := settled.single
  have lost : ∀ name, (n.fs name).Crash (n.crashed.fs name) := fun name => (n.fs name).crash_flush
  refine ⟨base, ⟨f.data, f.data⟩, fun idle => ?_, ?_⟩
  · obtain ⟨whole, data⟩ := appends.idle idle
    rw [whole] at data
    exact data
  · refine safe_recover_resumes h (Ready.resumes ⟨⟨b, encoded, ?_⟩, backed.crash lost,
      appends.last.flush⟩) (prefix_refl _)
    have left := lost .current
    rw [slot] at left
    exact left.of_settled

variable {point : Point}

variable (options) in
theorem reopens (tracked : Tracked ⟨xxh3, initial, same⟩ limit positive n)
    (running : n.mode = .running w point) (quiet : point.quiet = true)
    (good : M.Good initial same n.history) {k : Nat} (few : w.current.logs.length ≤ k) :
    ∃ r fs first, r.current = { w.current with garbage := [], pending := 0 } ∧
      r.lsn ≤ n.history.length ∧ r.offset = (logBytes xxh3 n.history first r.lsn).length ∧
      ReflTransGen (Orderly xxh3 M initial options k) n (n.crashed.opened fs r) := by
  obtain ⟨_, -, held⟩ := tracked.running running
  obtain ⟨_, f, -, safe⟩ := (held.stopped quiet).recovers tracked.history
  have crash : Guarded xxh3 M initial options n n.crashed :=
    guarded_crash fun name => (n.fs name).crash_flush
  obtain ⟨r, fs, base', _, found, opened, run⟩ :=
    opens (n := n.crashed) rfl (finitelyMany_crashed tracked.finite) good safe
  refine ⟨r, fs, base' r.current.lastLog, found.current, opened.high, ?_,
    .head ⟨crash, fun _ => tracked.fewLogs running quiet few⟩ (lively_orderly run k)⟩
  rw [opened.offset, opened.log]
  rfl

/-! ## A checkpoint -/

theorem head_runs {w' : Writer M} (running : n.mode = .running w .head)
    (head : w.head xxh3 options = (w', point)) :
    Lively xxh3 M initial options n { n with mode := .running w' point } := by
  have step : Step xxh3 M initial options n
      { n with mode := .running (w.head xxh3 options).1 (w.head xxh3 options).2 } :=
    .head n w running
  rw [head] at step
  exact ⟨step, nofun⟩

structure Writer.Resting (options : StreamOptions) (w : Writer M) : Prop where
  write : w.write = none
  sync : w.sync = none
  durable : w.durable = []
  barrier : w.barrier = none
  checkpoint : w.checkpoint = none
  closed : w.closed = false
  room : w.offset < options.checkpointBytes

theorem Writer.Resting.receives (h : w.Resting options) : w.receives options = true := by
  simp [Writer.receives, h.write, h.barrier, h.closed, h.room]

theorem Writer.Resting.head (h : w.Resting options) (none_wanted : w.pendingCheckpoint = none) :
    w.head xxh3 options = (w, .select) := by
  have kept : w.takeCheckpoint.startSync = w := by
    simp [takeCheckpoint, startSync, h.barrier, h.durable]
  have waits := not_le.mpr h.room
  simp [Writer.head, kept, h.write, h.sync, h.barrier, h.checkpoint, none_wanted, waits,
    isQuery, settle, h.closed]

def Writer.wanted (w : Writer M) : Writer M :=
  { w with pendingCheckpoint := some (w.replied :: w.pendingCheckpoint.getD []) }

theorem Writer.Resting.head_checkpoint (h : w.Resting options)
    (snapshot : M.snapshot w.machine = .ok items) :
    Writer.head xxh3 options { w with barrier := some (.checkpoint w.replied) } =
      (w.wanted, .rotate items (rotate xxh3 w.current)) := by
  have kept : (Writer.takeCheckpoint { w with barrier := some (.checkpoint w.replied) }).startSync =
      w.wanted := by
    simp [Writer.takeCheckpoint, Writer.startSync, Writer.wanted, h.durable, h.barrier]
  have idle : w.wanted.write.isNone ∧ w.wanted.sync.isNone := by
    simp [Writer.wanted, h.write, h.sync]
  have no_query : ¬ Writer.isQuery w.wanted.barrier = true := by
    simp [Writer.wanted, h.barrier, Writer.isQuery]
  have asked : w.wanted.checkpoint.isNone ∧
      (w.wanted.pendingCheckpoint.isSome ∨ w.wanted.offset ≥ options.checkpointBytes) := by
    simp [Writer.wanted, h.checkpoint]
  have machine : M.snapshot w.wanted.machine = .ok items := snapshot
  unfold Writer.head
  rw [kept]
  rw [if_pos idle, if_neg no_query, if_pos asked, machine]
  rfl

theorem checkpoint_starts (running : n.mode = .running w .select) (resting : w.Resting options)
    (snapshot : M.snapshot w.machine = .ok items) :
    ReflTransGen (Lively xxh3 M initial options) n
      { n with
        mode := .running w.wanted (.rotate items (rotate xxh3 w.current))
        calls := w.replied :: n.calls } := by
  have called : Lively xxh3 M initial options n { n with calls := w.replied :: n.calls } := by
    refine ⟨.call n w .select running, ?_⟩
    rw [running]
    nofun
  have asked : Lively xxh3 M initial options { n with calls := w.replied :: n.calls }
      { n with
        mode := .running { w with barrier := some (.checkpoint w.replied) } .head
        calls := w.replied :: n.calls } :=
    ⟨.barrier _ w (.checkpoint w.replied) running resting.receives nofun mem_cons_self, nofun⟩
  exact ((single called).tail asked).tail
    (head_runs rfl (resting.head_checkpoint snapshot))

variable (options) in
theorem rotation_ends {p : Prog Name (Option (Current × Nat))}
    (tracked : Tracked ⟨xxh3, initial, same⟩ limit positive n)
    (rotating : n.mode = .running w (.rotate items p))
    (room : w.current.logs.length < maxGenerations) (generation : w.current.lastLog + 1 < 2 ^ 64) :
    ∃ fs, ReflTransGen (Lively xxh3 M initial options) n
      { n with
        fs
        mode := .running (w.rotated xxh3 items w.current.withLog (w.current.lastLog + 1))
          (w.rotated xxh3 items w.current.withLog (w.current.lastLog + 1)).settle } := by
  obtain ⟨_, -, _, held, -⟩ := tracked.running rotating
  obtain ⟨result, fs, runs, -⟩ := exists_runs p tracked.finite
  have ended := held.safe.runs runs
  cases result with
  | none =>
    obtain ⟨_, -⟩ := ended
    omega
  | some named =>
    obtain ⟨c, g⟩ := named
    obtain ⟨rfl, rfl, -⟩ := ended
    have steps := lively_reaches xxh3 initial options (fun p => .running w (.rotate items p)) nofun
      (fun p fs p' fs' step => .rotate _ w items p p' fs' rfl step) rotating runs.ends
    exact ⟨fs, steps.tail ⟨.rotated _ w items _ _ rfl, nofun⟩⟩

/-! ## An append -/

def Writer.appending (xxh3 : Hash) (w : Writer M) (p : Pending M) (done : Nat) : Writer M :=
  { w with
    nextLsn := p.lsn
    offset := w.offset + (frame xxh3 p.lsn p.bytes).length
    write := some ⟨[p], w.offset, frame xxh3 p.lsn p.bytes, done⟩
    barrier := none }

def Writer.after (xxh3 : Hash) (w : Writer M) (p : Pending M) : Writer M :=
  { w.appending xxh3 p (frame xxh3 p.lsn p.bytes).length with write := none }

variable {record : M.Record} {bytes : Bytes} {r : Recovered M}

theorem head_appending (resting : w.Resting options) (p : Pending M) (done : Nat) :
    (w.appending xxh3 p done).head xxh3 options = (w.appending xxh3 p done, .select) := by
  have kept : (w.appending xxh3 p done).takeCheckpoint.startSync = w.appending xxh3 p done := by
    simp [takeCheckpoint, startSync, appending, resting.durable]
  have busy : ¬ ((w.appending xxh3 p done).write.isNone ∧
      (w.appending xxh3 p done).sync.isNone) := by
    simp [appending]
  unfold Writer.head
  rw [kept]
  rw [if_neg busy]
  simp [settle, appending]

variable (initial) in
theorem append_runs (ack : Ack) (running : n.mode = .running w .select)
    (resting : w.Resting options) (encoded : appendBytes M options record = .ok bytes)
    (fits : w.nextLsn + 1 < 2 ^ 64) (small : bytes.length ≤ maxRecord)
    (room : w.offset + (frame xxh3 (w.nextLsn + 1) bytes).length < 2 ^ 64) :
    ∃ fs, ReflTransGen (Lively xxh3 M initial options) n
      { n with
        fs
        mode := .running
          ((w.after xxh3 ⟨record, bytes, ack, w.nextLsn + 1⟩).applyAll
            [⟨record, bytes, ack, w.nextLsn + 1⟩]).1
          (if ((w.after xxh3 ⟨record, bytes, ack, w.nextLsn + 1⟩).applyAll
            [⟨record, bytes, ack, w.nextLsn + 1⟩]).2 then .head else .stopped)
        history := n.history ++ [⟨record, bytes⟩] } := by
  generalize pending : Pending.mk record bytes ack (w.nextLsn + 1) = p
  have body : p.bytes = bytes ∧ p.lsn = w.nextLsn + 1 ∧ p.entry = ⟨record, bytes⟩ := by
    rw [← pending]
    exact ⟨rfl, rfl, rfl⟩
  have sent : ∀ request ∈ [Command.append record bytes ack], request.Sent options n.calls := by
    intro _ mem
    rw [mem_singleton.mp mem]
    exact encoded
  have length := length_frame xxh3 p.lsn p.bytes
  have received : Lively xxh3 M initial options n
      { n with
        mode := .running (w.appending xxh3 p 0) .head
        history := n.history ++ [⟨record, bytes⟩] } := by
    have collected : collect xxh3 w.nextLsn [] [] [Command.append record bytes ack] =
        .ok ⟨w.nextLsn + 1, frame xxh3 (w.nextLsn + 1) bytes, [p], none⟩ := by
      rw [collect, if_neg (by omega), encodeFrame, if_neg (by omega), pending]
      dsimp only
      split <;> rfl
    have reading : w.receive xxh3 [.append record bytes ack] = .ok (w.appending xxh3 p 0, [p]) := by
      rw [receive, collected, ok_bind, startWrite, if_neg (not_le.mpr room), ← pending]
      rfl
    rw [← body.2.2]
    exact ⟨.receive n w _ record bytes ack [] [p] running resting.receives sent reading, by simp⟩
  have waiting := (single received).tail (head_runs rfl (head_appending resting p 0))
  refine ⟨_, (waiting.tail ⟨.write _ (w.appending xxh3 p 0) .select
    ⟨[p], w.offset, frame xxh3 p.lsn p.bytes, 0⟩ (frame xxh3 p.lsn p.bytes).length rfl rfl ?_ ?_,
    by simp⟩).tail ⟨.written _ (w.appending xxh3 p (frame xxh3 p.lsn p.bytes).length)
      ⟨[p], w.offset, frame xxh3 p.lsn p.bytes, (frame xxh3 p.lsn p.bytes).length⟩ ?_ rfl rfl, ?_⟩⟩
  · rw [length]
    unfold headerLen
    omega
  · rw [zero_add]
  · simp only [zero_add]
    rfl
  · simp

variable (xxh3 initial options) in
theorem sync_runs (running : n.mode = .running w .head) (idle : w.sync = none)
    (no_request : w.barrier = none) (appended : w.durable ≠ []) :
    ∃ fs, ReflTransGen (Lively xxh3 M initial options) n
      { n with
        fs
        mode := .running
          { w with sync := none, durable := [], replied := w.durable ++ w.replied } .head
        promised := w.durable ++ n.promised } := by
  have started : w.takeCheckpoint.startSync =
      { w with sync := some ⟨w.durable, w.written⟩, durable := [] } := by
    simp [takeCheckpoint, startSync, no_request, idle, appended]
  have head : w.head xxh3 options =
      ({ w with sync := some ⟨w.durable, w.written⟩, durable := [] }, .select) := by
    unfold Writer.head
    rw [started]
    rw [if_neg (by simp)]
    simp [settle]
  exact ⟨n.fs.modify (.journal w.current.lastLog) (File.syncTo w.written),
    (single (head_runs running head)).tail
      ⟨.synced { n with
        mode := .running { w with sync := some ⟨w.durable, w.written⟩, durable := [] } .select }
        { w with sync := some ⟨w.durable, w.written⟩, durable := [] }
        ⟨w.durable, w.written⟩ rfl rfl, nofun⟩⟩

/-! ## A snapshot -/

theorem snapshot_ends {p : Prog Name (Option Snapshot)} {s : Snapshot}
    (running : n.mode = .running w .select) (task : w.checkpoint = some p)
    (runs : Runs p n.fs (some s) fs) :
    ReflTransGen (Lively xxh3 M initial options) n
      { n with fs, mode := .running { w with checkpoint := some (.ret (some s)) } .select } :=
  lively_reaches xxh3 initial options (fun p => .running { w with checkpoint := some p } .select)
    nofun
    (fun p fs p' fs' step => .snapshot _ { w with checkpoint := some p } .select p p' fs'
      rfl rfl step)
    (by rw [running, ← task]) runs.ends

variable (options) in
theorem publication_ends {p : Prog Name (Option Current)}
    (tracked : Tracked ⟨xxh3, initial, same⟩ limit positive n)
    (publishing : n.mode = .running w (.publish p)) :
    ∃ c fs, ReflTransGen (Lively xxh3 M initial options) n
      { n with
        fs
        mode := .running
          { w with
            current := c
            checkpointCompletion := none
            completed := w.checkpointCompletion.getD [] ++ w.completed } .head } := by
  obtain ⟨_, -, _, f, -, held, -⟩ := tracked.running publishing
  obtain ⟨_, fs, runs, -⟩ := exists_runs p tracked.finite
  obtain ⟨c, rfl, -⟩ := held.safe.runs runs
  have steps := lively_reaches xxh3 initial options (fun p => .running w (.publish p)) nofun
    (fun p fs p' fs' step => .publish _ w p p' fs' rfl step) publishing runs.ends
  exact ⟨c, fs, steps.tail ⟨.published _ w c rfl, nofun⟩⟩

variable (xxh3) in
theorem writeSnapshot_nil (generation lsn : Nat) (fs : Fs Name) :
    ∃ fs', Runs (writeSnapshot xxh3 generation lsn []) fs (some ⟨generation, lsn, 0, 0⟩) fs' := by
  obtain ⟨_, present, created⟩ := create_eq fs .snapshotTmp
  have there : (fs.create .snapshotTmp .snapshotTmp).now ≠ none := by
    rw [created, update_self, Slot.modify_now, ne_eq, Option.map_eq_none_iff]
    exact present
  have synced : ((fs.create .snapshotTmp).modify .snapshotTmp File.sync .snapshotTmp).now ≠
      none := by
    rw [Fs.modify, update_self, Slot.modify_now, ne_eq, Option.map_eq_none_iff]
    exact there
  exact ⟨_, .op (.create fs _) <| .op (.sync _ _ there) <| .op (.rename _ _ _ synced) <|
    .op (.syncDir _ _) <| .ret _ _⟩

theorem publish_renames {α : Type} {c : Current} {b : Bytes} (encoded : c.encode xxh3 = .ok b)
    (next : Prog Name (Option α)) (fs : Fs Name) :
    ∃ fs', Reaches (publish xxh3 c next) fs (ensure (.syncDir root) next) fs' ∧
      fs' .current = (fs .current).rebind (some ⟨b, b⟩) := by
  obtain ⟨start, present, created⟩ := create_eq fs .currentTmp
  obtain ⟨f, now⟩ := Option.ne_none_iff_exists'.mp present
  have filled : b ≠ [] := by
    rintro rfl
    unfold Current.encode at encoded
    split at encoded
    · cases encoded
    · have empty := congrArg length (Except.ok.inj encoded)
      simp [leBytes] at empty
  have there : (fs.create .currentTmp .currentTmp).now ≠ none := by simp [created, now]
  have written : ((fs.create .currentTmp).modify .currentTmp (File.writeAt 0 b) .currentTmp).now ≠
      none := by simp [Fs.modify, created, now]
  have synced : (((fs.create .currentTmp).modify .currentTmp (File.writeAt 0 b)).modify .currentTmp
      File.sync .currentTmp).now = some ⟨b, b⟩ := by
    simp [Fs.modify, created, now, File.writeAt, File.overwrite, File.sync]
  refine ⟨Fs.rename (((fs.create .currentTmp).modify .currentTmp (File.writeAt 0 b)).modify
    .currentTmp File.sync) .currentTmp .current, ?_, ?_⟩
  · unfold publish
    rw [encoded]
    refine .op (.create fs _) (Runs.reaches (writeAll_runs there filled 0) ?_)
    exact .op (.sync _ _ written) (.op (.rename _ _ _ (by simp [synced])) .refl)
  · rw [Fs.rename, update_of_ne (by decide), update_self, synced]
    rfl

/-! ## Interrupted checkpoints -/

theorem settle_select (not_closed : w.closed = false) : w.settle = .select := by
  simp [settle, not_closed]

theorem settle_quiet (w : Writer M) : w.settle.quiet = true := by
  unfold settle
  split <;> rfl

theorem checkpoint_rotates (run : ReflTransGen (Guarded xxh3 M initial options) (Node.fresh M) n)
    (running : n.mode = .running w .select) (resting : w.Resting options)
    (snapshot : M.snapshot w.machine = .ok items) (room : w.current.logs.length < maxGenerations)
    (generation : w.current.lastLog + 1 < 2 ^ 64) :
    ∃ fs, ReflTransGen (Guarded xxh3 M initial options) (Node.fresh M)
      { n with
        fs
        mode := .running
          (w.wanted.rotated xxh3 items w.current.withLog (w.current.lastLog + 1)) .select
        calls := w.replied :: n.calls } := by
  have asked := run.trans (lively_run (checkpoint_starts running resting snapshot))
  have tracked : Tracked ⟨xxh3, initial, fun _ _ => True⟩ maxGenerations (by decide) _ :=
    tracked_run asked
  obtain ⟨fs, rotation⟩ := rotation_ends options tracked rfl room generation
  have waits : (w.wanted.rotated xxh3 items w.wanted.current.withLog
      (w.wanted.current.lastLog + 1)).settle = .select := settle_select resting.closed
  rw [waits] at rotation
  exact ⟨fs, asked.trans (lively_run rotation)⟩

/-- A checkpoint comes to the publication of its snapshot, with the manifest of its rotation in
place. -/
theorem checkpoint_publishes (run : ReflTransGen (Guarded xxh3 M initial options) (Node.fresh M) n)
    (running : n.mode = .running w .select) (resting : w.Resting options)
    (snapshot : M.snapshot w.machine = .ok []) (room : w.current.logs.length < maxGenerations)
    (generation : w.current.lastLog + 1 < 2 ^ 64) :
    ∃ n' w' b, ReflTransGen (Guarded xxh3 M initial options) (Node.fresh M) n' ∧
      n'.mode = .running w' (.publish (publishSnapshot xxh3 w.current.withLog
        ⟨w.current.lastLog + 1, w.lsn, 0, 0⟩)) ∧
      w.replied ∈ w'.checkpointCompletion.getD [] ∧ n'.history = n.history ∧
      n'.promised = n.promised ∧ w.current.withLog.encode xxh3 = .ok b ∧
      n'.fs .current = .settled b := by
  obtain ⟨fs, rotated⟩ := checkpoint_rotates run running resting snapshot room generation
  obtain ⟨_, writing⟩ := writeSnapshot_nil xxh3 (w.current.lastLog + 1) w.lsn fs
  have written := rotated.trans (lively_run (snapshot_ends rfl rfl writing))
  have tracked : Tracked ⟨xxh3, initial, fun _ _ => True⟩ maxGenerations (by decide) _ :=
    tracked_run written
  obtain ⟨_, -, _, _, -, ⟨_, task⟩, -⟩ := tracked.process
  obtain ⟨⟨b, encoded, slot⟩, -⟩ := task.safe.result.1
  exact ⟨_, _, b, written.tail ⟨.snapshotDone _ _ _ rfl rfl, nofun⟩, rfl, mem_cons_self, rfl, rfl,
    encoded, slot⟩

theorem checkpoint_completes (run : ReflTransGen (Guarded xxh3 M initial options) (Node.fresh M) n)
    (running : n.mode = .running w .select) (resting : w.Resting options)
    (snapshot : M.snapshot w.machine = .ok []) (room : w.current.logs.length < maxGenerations)
    (generation : w.current.lastLog + 1 < 2 ^ 64) :
    ∃ n' w', ReflTransGen (Guarded xxh3 M initial options) (Node.fresh M) n' ∧
      n'.mode = .running w' .head ∧ w.replied ∈ w'.completed := by
  obtain ⟨n', w', _, run', publishing, asked, -⟩ :=
    checkpoint_publishes run running resting snapshot room generation
  have tracked : Tracked ⟨xxh3, initial, fun _ _ => True⟩ maxGenerations (by decide) n' :=
    tracked_run run'
  obtain ⟨c, _, publication⟩ := publication_ends options tracked publishing
  exact ⟨_, _, run'.trans (lively_run publication), rfl, mem_append_left _ asked⟩

theorem resting_start (empty : r.offset = 0) : (start r).Resting options :=
  ⟨rfl, rfl, rfl, rfl, rfl, rfl, by
    change r.offset < _
    rw [empty]
    exact options.checkpointBytes_pos⟩

theorem start_waits (empty : r.offset = 0) (running : n.mode = .running (.start r) .head) :
    Lively xxh3 M initial options n { n with mode := .running (.start r) .select } :=
  head_runs running ((resting_start empty).head rfl)

variable (xxh3) in
theorem first_append (contract : M.Rebuilds initial same) (ack : Ack)
    (encoded : appendBytes M options record = .ok bytes) (small : bytes.length ≤ maxRecord) :
    ∃ r fs, r.current = firstCurrent ∧ r.lsn = 0 ∧ r.offset = 0 ∧ same initial r.machine ∧
      ReflTransGen (Lively xxh3 M initial options) (Node.fresh M)
        ⟨fs, .running
            (((start r).after xxh3 ⟨record, bytes, ack, 1⟩).applyAll
              [⟨record, bytes, ack, 1⟩]).1
            (if (((start r).after xxh3 ⟨record, bytes, ack, 1⟩).applyAll
              [⟨record, bytes, ack, 1⟩]).2 then .head else .stopped),
          [⟨record, bytes⟩], [], []⟩ := by
  obtain ⟨r, fs, first, lsn, offset, machine, opened⟩ := opens_fresh xxh3 options contract
  have blank : (Node.fresh M).opened fs r = ⟨fs, .running (.start r) .head, [], [], []⟩ :=
    congrArg (fun history => Node.mk fs _ history [] []) take_nil
  rw [blank] at opened
  have waiting := opened.tail (start_waits offset rfl)
  have next : (start r).nextLsn = 0 := lsn
  have fits : (start r).nextLsn + 1 < 2 ^ 64 := by
    rw [next]
    decide
  have room : (start r).offset + (frame xxh3 ((start r).nextLsn + 1) bytes).length <
      2 ^ 64 := by
    change r.offset + _ < _
    rw [offset, length_frame]
    unfold headerLen maxRecord at *
    omega
  obtain ⟨fs₁, appended⟩ :=
    append_runs (n := ⟨fs, .running (.start r) .select, [], [], []⟩) initial ack rfl
      (resting_start offset) encoded fits small room
  rw [next] at appended
  exact ⟨r, fs₁, first, lsn, offset, machine, waiting.trans appended⟩

variable (xxh3) in
/-- The first record can be appended and made durable. -/
theorem durable_append (contract : M.Rebuilds initial same)
    (encoded : appendBytes M options record = .ok bytes) (small : bytes.length ≤ maxRecord)
    (room : (frame xxh3 1 bytes).length < options.checkpointBytes)
    (accepts : ∀ s, same initial s → ∃ s', M.apply s 1 record = .ok s') :
    ∃ n w, ReflTransGen (Lively xxh3 M initial options) (Node.fresh M) n ∧
      n.mode = .running w .select ∧ w.Resting options ∧ w.current = firstCurrent ∧ w.lsn = 1 ∧
      w.replied = [1] ∧ n.history = [⟨record, bytes⟩] ∧ n.promised = [1] := by
  obtain ⟨r, fs, first, -, offset, machine, appended⟩ :=
    first_append xxh3 contract .durable encoded small
  obtain ⟨s', applied⟩ := accepts r.machine machine
  have taken : ((start r).after xxh3 ⟨record, bytes, .durable, 1⟩).applyAll
      [⟨record, bytes, .durable, 1⟩] =
      ({ (start r).after xxh3 ⟨record, bytes, .durable, 1⟩ with
        machine := s', lsn := 1, durable := [1] }, true) := by
    simp [applyAll, Writer.after, appending, start, applied]
  rw [taken] at appended
  obtain ⟨_, synced⟩ := sync_runs xxh3 initial options (n := ⟨fs, .running
    { (start r).after xxh3 ⟨record, bytes, .durable, 1⟩ with
      machine := s', lsn := 1, durable := [1] } .head, [⟨record, bytes⟩], [], []⟩) rfl rfl rfl
    (cons_ne_nil 1 [])
  have resting : Writer.Resting options
      { (start r).after xxh3 ⟨record, bytes, .durable, 1⟩ with
        machine := s', lsn := 1, sync := none, durable := [], replied := [1] } := by
    refine ⟨rfl, rfl, rfl, rfl, rfl, rfl, ?_⟩
    change r.offset + (frame xxh3 1 bytes).length < _
    rwa [offset, zero_add]
  exact ⟨_, _, (appended.trans synced).tail (head_runs rfl (resting.head rfl)), rfl, resting, first,
    rfl, rfl, rfl, rfl⟩

variable (xxh3) in
/-- The log can be rotated after it. -/
theorem append_rotates (contract : M.Rebuilds initial same)
    (encoded : appendBytes M options record = .ok bytes) (small : bytes.length ≤ maxRecord)
    (room : (frame xxh3 1 bytes).length < options.checkpointBytes)
    (accepts : ∀ s, same initial s → ∃ s', M.apply s 1 record = .ok s')
    (snapshots : ∀ s, ∃ items, M.snapshot s = .ok items) :
    ∃ n w, ReflTransGen (Guarded xxh3 M initial options) (Node.fresh M) n ∧
      n.mode = .running w .select ∧ w.current = firstCurrent.withLog ∧
      n.history = [⟨record, bytes⟩] ∧ n.promised = [1] := by
  obtain ⟨n, w, lively, running, resting, current, -, -, history, promised⟩ :=
    durable_append xxh3 contract encoded small room accepts
  obtain ⟨items, snapshot⟩ := snapshots w.machine
  obtain ⟨_, rotated⟩ := checkpoint_rotates (lively_run lively) running resting snapshot
    (by rw [current]; decide) (by rw [current]; decide)
  exact ⟨_, _, rotated, rfl, congrArg Current.withLog current, history, promised⟩

structure Blank (n : Node M) (r : Recovered M) : Prop where
  running : n.mode = .running (.start r) .head
  history : n.history = []
  lsn : r.lsn = 0
  offset : r.offset = 0

theorem interrupted_checkpoint (contract : M.Rebuilds initial same)
    (snapshots : ∀ s, ∃ items, M.snapshot s = .ok items)
    (run : ReflTransGen (Orderly xxh3 M initial options limit) (Node.fresh M) n) (blank : Blank n r)
    (most : limit ≤ maxGenerations) (room : r.current.logs.length < limit)
    (generation : r.current.lastLog + 1 < 2 ^ 64) :
    ∃ n' r', ReflTransGen (Orderly xxh3 M initial options limit) (Node.fresh M) n' ∧ Blank n' r' ∧
      r'.current.logs.length = r.current.logs.length + 1 ∧
      r'.current.lastLog = r.current.lastLog + 1 := by
  obtain ⟨_, snapshot⟩ := snapshots r.machine
  have waiting :=
    run.trans (lively_orderly (.single (start_waits blank.offset blank.running)) limit)
  have asked := waiting.trans (lively_orderly
    (checkpoint_starts rfl (resting_start blank.offset) snapshot) limit)
  have tracked : Tracked ⟨xxh3, initial, same⟩ maxGenerations (by decide) _ :=
    tracked_run (orderly_run asked)
  obtain ⟨_, ended⟩ := rotation_ends options tracked rfl (lt_of_lt_of_le room most) generation
  have rotated := asked.trans (lively_orderly ended limit)
  have tracked' : Tracked ⟨xxh3, initial, same⟩ maxGenerations (by decide) _ :=
    tracked_run (orderly_run rotated)
  have good : M.Good initial same n.history := by
    rw [blank.history]
    exact ⟨contract, forall_mem_nil _, initial, rfl⟩
  have few : r.current.withLog.logs.length ≤ limit := by
    rw [Current.length_withLog]
    exact room
  obtain ⟨r', _, _, current, low, offset, reopened⟩ :=
    reopens options tracked' rfl (settle_quiet _) good few
  rw [blank.history, length_nil] at low
  have none_yet : r'.lsn = 0 := le_zero.mp low
  refine ⟨_, r', rotated.trans reopened, ⟨rfl, ?_, none_yet, ?_⟩, ?_, ?_⟩
  · change n.history.take r'.lsn = []
    rw [blank.history, take_nil]
  · rw [offset, none_yet, logBytes, take_zero, drop_nil]
    rfl
  · rw [current]
    exact r.current.length_withLog
  · rw [current]
    exact Current.lastLog_withLog r.current

variable (xxh3 options) in
theorem interrupted_checkpoints (contract : M.Rebuilds initial same)
    (snapshots : ∀ s, ∃ items, M.snapshot s = .ok items) (most : limit ≤ maxGenerations)
    (count : Nat) (few : count < limit) :
    ∃ n r, ReflTransGen (Orderly xxh3 M initial options limit) (Node.fresh M) n ∧ Blank n r ∧
      r.current.logs.length = count + 1 ∧ r.current.lastLog = count + 1 := by
  induction count with
  | zero =>
    obtain ⟨r, _, first, lsn, offset, -, run⟩ :=
      opens_fresh xxh3 options contract
    refine ⟨_, r, lively_orderly run limit, ⟨rfl, take_nil, lsn, offset⟩, ?_, ?_⟩
    · rw [first]
      rfl
    · rw [first]
      rfl
  | succ _ ih =>
    obtain ⟨n, r, run, blank, logs, last⟩ := ih (by omega)
    unfold maxGenerations at most
    obtain ⟨n', r', run', blank', _, _⟩ := interrupted_checkpoint contract snapshots run blank most
      (by omega) (by omega)
    exact ⟨n', r', run', blank', by omega, by omega⟩

end Talon.Journal
