import Talon.Journal.Running

/-!
# Runs of a stream

Every step of a stream keeps the invariant `Tracked`, so it holds in every state of every run, with
any number of crashes, if no process is killed at a point that recovery cannot go on from.  The
bound `limit` on the logs of the manifest holds if no process ends while the manifest names more of
them; with `maxGenerations` it always does.
-/

set_option autoImplicit false

namespace Talon.Journal

open Wire CrashFs CrashFs.Prog Relation List

variable {xxh3 : Hash} {M : Machine} {initial : M.State} {j : Terms M}
  {options : StreamOptions} {limit : Nat} {positive : 0 < limit} {n n' : Node M}

variable {batch : WriteBatch M} {promised : List Nat} {fs : Fs Name}

section Held

variable {window : Window} {history : List (Entry M)} {promised : List Nat} {base : Nat → Nat}
  {fs fs' : Fs Name} {f : File} {calls : List (List Nat)} {w : Writer M} {point : Point}

theorem Alive.write {count : Nat} (h : Alive j history promised base fs calls w f)
    (writing : w.write = some batch) (most : batch.done + count ≤ batch.bytes.length) :
    ∃ f', Alive j history promised base
      (fs.modify (.journal w.current.lastLog)
        (File.writeAt (batch.start + batch.done) ((batch.bytes.drop batch.done).take count)))
      calls { w with write := some { batch with done := batch.done + count } } f' := by
  have appends := h.appends
  rw [writing] at appends
  obtain ⟨f', written⟩ := appends.write most
  refine ⟨f', h.clean, written, { h.level with pending := ?_ }⟩
  intro b same
  cases same
  exact h.level.pending batch writing

section Point

variable (held : Held j limit window history promised calls fs w point)
include held

theorem Held.write {count : Nat}
    (writing : w.write = some batch) (most : batch.done + count ≤ batch.bytes.length) :
    Held j limit window history promised calls
      (fs.modify (.journal w.current.lastLog)
        (File.writeAt (batch.start + batch.done) ((batch.bytes.drop batch.done).take count)))
      { w with write := some { batch with done := batch.done + count } } point := by
  cases point with
  | head | select =>
    obtain ⟨base, f, alive, settled, idle⟩ := held
    obtain ⟨f', alive'⟩ := alive.write writing most
    exact ⟨base, f', alive', settled.touch _, idle⟩
  | query =>
    obtain ⟨base, f, -, -, -, none_writing, -⟩ := held
    rw [writing] at none_writing
    cases none_writing
  | rotate =>
    obtain ⟨base, rotating, -⟩ := held
    have none_writing := rotating.idle.1
    rw [writing] at none_writing
    cases none_writing
  | publish =>
    obtain ⟨base, f, alive, publishing, no_task⟩ := held
    obtain ⟨f', alive'⟩ := alive.write writing most
    exact ⟨base, f', alive', publishing.touch _, no_task⟩
  | stopped =>
    obtain ⟨base, f, k, appends, settled⟩ := held
    rw [writing] at appends
    obtain ⟨f', written⟩ := appends.write most
    exact ⟨base, f', k, written, settled.touch _⟩

theorem Held.snapshot {p p' : Prog Name (Option Snapshot)}
    (task : w.checkpoint = some p) (step : Prog.Step p fs p' fs') :
    Held j limit window history promised calls fs'
      { w with checkpoint := some p' } point := by
  have durable : ∀ {base : Nat → Nat} {f : File},
      LastLog j.xxh3 history base promised fs w.current.lastLog f →
        (fs (.journal w.current.lastLog)).old = [] := by
    intro base f last
    rw [last.slot]
  cases point with
  | head | select =>
    obtain ⟨base, f, alive, settled, -⟩ := held
    rw [task] at settled
    obtain ⟨items, snapshotting⟩ := settled
    obtain ⟨next, slot⟩ := snapshotting.step (durable alive.appends.last) step
    exact ⟨base, f, ⟨alive.clean, (alive.congr slot).appends, { alive.level with }⟩,
      ⟨items, next⟩, nofun⟩
  | query =>
    obtain ⟨base, f, alive, settled, -, waits⟩ := held
    rw [task] at settled
    obtain ⟨items, snapshotting⟩ := settled
    obtain ⟨next, slot⟩ := snapshotting.step (durable alive.appends.last) step
    exact ⟨base, f, ⟨alive.clean, (alive.congr slot).appends, { alive.level with }⟩, ⟨items, next⟩,
      nofun, waits⟩
  | rotate =>
    obtain ⟨base, rotating, -⟩ := held
    have no_task := rotating.idle.2.2.2
    rw [task] at no_task
    cases no_task
  | publish =>
    obtain ⟨base, f, -, -, no_task⟩ := held
    rw [task] at no_task
    cases no_task
  | stopped =>
    obtain ⟨base, f, k, appends, settled⟩ := held
    rw [task] at settled
    obtain ⟨items, snapshotting⟩ := settled
    obtain ⟨next, slot⟩ := snapshotting.step (durable appends.last) step
    exact ⟨base, f, k, { appends with last := appends.last.congr slot }, ⟨items, next⟩⟩

theorem Held.call : Held j limit window history promised (w.replied :: calls) fs w point := by
  have more : ∀ {base : Nat → Nat}, Level j history base calls w →
      Level j history base (w.replied :: calls) w := by
    intro base level
    refine { level with called := fun seen mem => ?_ }
    rcases mem_cons.mp mem with rfl | old
    · exact level.replied
    · exact level.called seen old
  cases point with
  | head | select | query | publish =>
    obtain ⟨base, f, alive, rest⟩ := held
    exact ⟨base, f, { alive with level := more alive.level }, rest⟩
  | rotate =>
    obtain ⟨base, rotating, idle⟩ := held
    exact ⟨base, { rotating with level := more rotating.level }, idle⟩
  | stopped => exact held

end Point

theorem Held.publish {p p' : Prog Name (Option Current)}
    (held : Held j limit window history promised calls fs w (.publish p))
    (step : Prog.Step p fs p' fs') :
    Held j limit window history promised calls fs' w (.publish p') := by
  obtain ⟨base, f, alive, publishing, no_task⟩ := held
  have durable : (fs (.journal w.current.lastLog)).old = [] := by
    rw [alive.appends.last.slot]
  obtain ⟨next, slot⟩ := publishing.step durable step
  exact ⟨base, f, alive.congr slot, next, no_task⟩

theorem Held.exit (held : Held j limit window history promised calls fs w .stopped)
    (few : FewLogs j.xxh3 limit fs) : Startable j (.down limit positive) history promised fs := by
  obtain ⟨_, f, k, appends, settled⟩ := held
  obtain ⟨⟨b, encoded, slot⟩, backed, -⟩ := settled.single
  have found : (fs .current).Possible (some ⟨b, b⟩) := by
    rw [slot]
    exact .inl rfl
  have bound := few _ found w.current (backed.decode encoded)
  have ready : Ready j (.down limit positive) history _ promised fs w.current f :=
    ⟨⟨b, encoded, slot⟩, backed.widen ⟨bound, Nat.zero_le _⟩, appends.last⟩
  exact .inr ⟨_, w.current, f, ready.resumes, appends.grows⟩

theorem Held.queried (held : Held j limit window history promised calls fs w .query) :
    Held j limit window history (w.lsn :: promised) calls
      (fs.modify (.journal w.current.lastLog) File.sync) { w with barrier := none }
      (Writer.settle { w with barrier := none }) ∧ w.lsn ≤ history.length := by
  obtain ⟨base, f, alive, settled, idle, none_writing, -⟩ := held
  have appends := alive.appends
  rw [none_writing] at appends
  have synced := appends.sync
  rw [← none_writing] at synced
  have alive' : Alive j history (w.lsn :: promised) base
      (fs.modify (.journal w.current.lastLog) File.sync) calls { w with barrier := none } f.sync :=
    ⟨alive.clean, synced, { alive.level with barrier := nofun }⟩
  exact ⟨held_settle alive' (settled.touch _) idle, alive.appends.high⟩

section Select

variable (held : Held j limit window history promised calls fs w .select)
include held

theorem Held.synced {batch : SyncBatch} (syncing : w.sync = some batch) :
    Held j limit window history (batch.lsns ++ promised) calls
      (fs.modify (.journal w.current.lastLog) (File.syncTo batch.covers))
      { w with sync := none, replied := batch.lsns ++ w.replied } .head ∧
      Below history.length batch.lsns := by
  obtain ⟨base, f, alive, settled, idle⟩ := held
  obtain ⟨m, order, covers, below⟩ := alive.level.sync batch syncing
  obtain ⟨f', synced⟩ := alive.appends.syncTo order covers below
  refine ⟨⟨base, f', ⟨alive.clean, synced, { alive.level with sync := nofun, replied := ?_ }⟩,
    settled.touch _, idle⟩, below.mono (Nat.le_trans order alive.appends.high)⟩
  intro lsn mem
  rcases mem_append.mp mem with new | old
  · exact Nat.le_trans (below lsn new) order
  · exact alive.level.replied lsn old

theorem Held.written (writing : w.write = some batch) (whole : batch.done = batch.bytes.length) :
    Held j limit window history promised calls fs
      (Writer.applyAll { w with write := none } batch.pending).1
      (if (Writer.applyAll { w with write := none } batch.pending).2 then .head else .stopped) := by
  obtain ⟨base, f, alive, settled, idle⟩ := held
  have frame := applied_applyAll { w with write := none } batch.pending
  have current := frame.current
  have checkpoint := frame.checkpoint
  split
  · rename_i ok
    refine ⟨base, f, alive.written writing whole ok, ?_, fun no_task => ?_⟩
    · rw [current, checkpoint]
      exact settled
    · rw [current]
      exact idle (checkpoint.symm.trans no_task)
  · obtain ⟨-, all, data⟩ := alive.appends.busy batch writing
    refine ⟨base, f, history.length, ?_, ?_⟩
    · rw [current, frame.write]
      refine ⟨alive.appends.last, alive.appends.grows,
        Nat.le_trans alive.appends.low alive.appends.high, Nat.le_refl _, fun _ => ⟨rfl, ?_⟩, nofun⟩
      rw [data, whole, take_length, ← all]
    · rw [current, checkpoint]
      exact settled

theorem Held.snapshotFailed (task : w.checkpoint = some (.ret none)) :
    Held j limit window history promised calls fs { w with checkpoint := none } .stopped := by
  obtain ⟨base, f, alive, settled, -⟩ := held
  rw [task] at settled
  obtain ⟨items, snapshotting⟩ := settled
  exact ⟨base, f, w.lsn, alive.appends, snapshotting.safe.result.1⟩

theorem Held.snapshotDone {s : Snapshot} (small : history.length < 2 ^ 64)
    (task : w.checkpoint = some (.ret (some s))) :
    Held j limit window history promised calls fs { w with checkpoint := none }
      (.publish (publishSnapshot j.xxh3 w.current s)) := by
  obtain ⟨base, f, alive, settled, -⟩ := held
  rw [task] at settled
  obtain ⟨_, snapshotting⟩ := settled
  exact ⟨base, f, ⟨alive.clean, alive.appends, { alive.level with }⟩, snapshotting.publish
    alive.clean small, rfl⟩

theorem Held.close :
    Held j limit window history promised calls fs { w with closed := true } .head := by
  obtain ⟨base, f, alive, settled, idle⟩ := held
  exact ⟨base, f, ⟨alive.clean, alive.appends, { alive.level with }⟩, settled, idle⟩

theorem Held.barrier {request : Command M} (sent : request.Sent options calls) :
    Held j limit window history promised calls fs { w with barrier := some request } .head := by
  obtain ⟨base, f, alive, settled, idle⟩ := held
  refine ⟨base, f, ⟨alive.clean, alive.appends, { alive.level with barrier := ?_ }⟩, settled, idle⟩
  intro seen same
  cases same
  exact alive.level.called seen sent

theorem Held.receive {w' : Writer M} {queue : List (Command M)} {batch : List (Pending M)}
    (h : History history promised) (receives : w.receives options = true)
    (sent : ∀ request ∈ queue, request.Sent options calls)
    (received : w.receive j.xxh3 queue = .ok (w', batch)) :
    History (history ++ batch.map Pending.entry) promised ∧ w'.completed = w.completed ∧
      Held j limit window (history ++ batch.map Pending.entry) promised calls fs w' .head := by
  obtain ⟨base, f, alive, settled, idle⟩ := held
  simp only [Writer.receives, Bool.and_eq_true, Option.isNone_iff_eq_none] at receives
  obtain ⟨h', alive', current, checkpoint, kept⟩ := alive.receive h receives.1.1.2 sent received
  refine ⟨h', kept, base, f, alive', ?_, fun no_task => ?_⟩
  · rw [current, checkpoint]
    exact settled.extend _
  · rw [current]
    exact idle (checkpoint.symm.trans no_task)

end Select

end Held

/-! ## One step -/

variable {history : List (Entry M)}

theorem History.promise {lsns : List Nat} (h : History history promised)
    (below : Below history.length lsns) : History history (lsns ++ promised) := by
  refine ⟨h.numbered, fun lsn mem => ?_⟩
  rcases mem_append.mp mem with new | old
  · exact below lsn new
  · exact h.promised lsn old

theorem finitelyMany_crash {fs' : Fs Name} (h : fs.FinitelyMany)
    (lost : ∀ name, (fs name).Crash (fs' name)) : fs'.FinitelyMany := by
  refine h.subset fun name changed empty => changed ?_
  have left := lost name
  rw [empty] at left
  rcases left with ⟨-, slot⟩ | ⟨f, _, possible, -⟩
  · exact slot
  · simp [Slot.empty, Slot.Possible] at possible

theorem finitelyMany_step {α : Type} {p p' : Prog Name α} {fs' : Fs Name} (h : fs.FinitelyMany)
    (step : Prog.Step p fs p' fs') : fs'.FinitelyMany := by
  cases step with
  | op exec => exact h.exec exec

variable (tracked : Tracked j limit positive n)
include tracked

theorem Tracked.running {w : Writer M} {point : Point} (mode : n.mode = .running w point) :
    ∃ floor, (∀ seen ∈ w.completed, Below floor seen) ∧
      Held j limit (.running floor) n.history n.promised n.calls n.fs w point := by
  have process := tracked.process
  rwa [mode] at process

/-- A step that changes only the variables of `run`. -/
theorem Tracked.turn {w w' : Writer M} {point point' : Point} (mode : n.mode = .running w point)
    (completed : w'.completed = w.completed)
    (held : ∀ {floor}, Held j limit (.running floor) n.history n.promised n.calls n.fs w point →
      Held j limit (.running floor) n.history n.promised n.calls n.fs w' point') :
    Tracked j limit positive { n with mode := .running w' point' } := by
  obtain ⟨floor, below, here⟩ := tracked.running mode
  exact ⟨tracked.history, tracked.finite, floor, by rwa [completed], held here⟩

theorem Tracked.recoverable :
    ∃ window, Recoverable j window n.history n.promised n.fs ∧
      (FewLogs j.xxh3 limit n.fs →
        Recoverable j (.down limit positive) n.history n.promised n.fs) := by
  have process := tracked.process
  cases mode : n.mode with
  | down =>
    rw [mode] at process
    have here := Startable.recoverable process
    exact ⟨_, here, fun _ => here⟩
  | opening =>
    rw [mode] at process
    have here := Safe.crash process
    exact ⟨_, here, fun _ => here⟩
  | running =>
    obtain ⟨_, -, held⟩ := tracked.running mode
    exact ⟨_, held.recoverable, held.recoverable.down⟩

/-- A process that ends and leaves its files as they are does so where recovery can go on. -/
def Careful (xxh3 : Hash) (n n' : Node M) : Prop :=
  n'.mode = .down → n'.fs = n.fs → Resumable xxh3 n.fs

/-- Every step of a stream keeps the invariant: those of recovery and of the writer by what their
programs guarantee, the end of a process by what it leaves behind. -/
theorem Tracked.step (step : Step j.xxh3 M j.initial options n n') (careful : Careful j.xxh3 n n')
    (few : n'.mode = .down → FewLogs j.xxh3 limit n.fs) :
    Tracked j limit positive n' := by
  have history := tracked.history
  have finite := tracked.finite
  have process := tracked.process
  cases step with
  | reopen down =>
    rw [down] at process
    exact ⟨history, finite, safe_recover history process⟩
  | recover p _ _ opening step =>
    rw [opening] at process
    exact ⟨history, finitelyMany_step finite step, Safe.step process step⟩
  | opened r opening =>
    rw [opening] at process
    obtain ⟨base, f, opened⟩ := Safe.result process
    exact ⟨history.take opened.promised opened.high, finite, 0, forall_mem_nil _, opened.held⟩
  | refused opening =>
    rw [opening] at process
    exact ⟨history, finite, (Safe.result process).1⟩
  | crash _ lost =>
    obtain ⟨-, -, recoverable⟩ := tracked.recoverable
    exact ⟨history, finitelyMany_crash finite lost, (recoverable (few rfl)).crash lost⟩
  | kill =>
    obtain ⟨-, -, recoverable⟩ := tracked.recoverable
    exact ⟨history, finite, (recoverable (few rfl)).kill (careful rfl rfl)⟩
  | poison w running | receiveFailed w _ _ _ _ e running =>
    exact tracked.turn running rfl fun ⟨_, _, alive, settled, _⟩ => held_stopped alive settled
  | head w running =>
    obtain ⟨floor, completed, held⟩ := tracked.running running
    obtain ⟨held', kept⟩ := held.head history
    refine ⟨history, finite, floor, ?_, held'⟩
    rw [kept]
    exact completed
  | queried w running =>
    obtain ⟨floor, completed, held⟩ := tracked.running running
    obtain ⟨held', bound⟩ := held.queried
    have below : Below n.history.length [w.lsn] := by
      intro lsn mem
      rw [mem_singleton.mp mem]
      exact bound
    exact ⟨history.promise below, finite.update _ _, floor, completed, held'⟩
  | rotate w _ p _ _ running step =>
    obtain ⟨floor, completed, base, rotating, idle⟩ := tracked.running running
    exact ⟨history, finitelyMany_step finite step, floor, completed, base,
      { rotating with safe := rotating.safe.step step }, idle⟩
  | rotateFailed w _ running => exact tracked.turn running rfl fun ⟨_, rotating, _⟩ =>
      rotating.failed
  | rotated w _ c _ running => exact tracked.turn running rfl fun ⟨_, rotating, _⟩ =>
      rotating.rotated
  | write w _ _ k running writing _ most =>
    obtain ⟨floor, completed, held⟩ := tracked.running running
    exact ⟨history, finite.update _ _, floor, completed, held.write writing most⟩
  | written w batch running writing whole =>
    exact tracked.turn running (applied_applyAll { w with write := none } batch.pending).completed
      fun held => held.written writing whole
  | synced w _ running syncing =>
    obtain ⟨floor, completed, held⟩ := tracked.running running
    obtain ⟨held', below⟩ := held.synced syncing
    exact ⟨history.promise below, finite.update _ _, floor, completed, held'⟩
  | snapshot w _ p _ _ running task step =>
    obtain ⟨floor, completed, held⟩ := tracked.running running
    exact ⟨history, finitelyMany_step finite step, floor, completed, held.snapshot task step⟩
  | snapshotFailed w running task =>
    exact tracked.turn running rfl fun held => held.snapshotFailed task
  | snapshotDone w s running task =>
    exact tracked.turn running rfl fun held => held.snapshotDone history.small task
  | publish w p _ _ running step =>
    obtain ⟨floor, completed, held⟩ := tracked.running running
    exact ⟨history, finitelyMany_step finite step, floor, completed, held.publish step⟩
  | publishFailed w running =>
    obtain ⟨floor, completed, base, f, alive, publishing, -⟩ := tracked.running running
    obtain ⟨c, absurd, -⟩ := publishing.safe.result
    cases absurd
  | published w c running =>
    obtain ⟨floor, completed, base, f, alive, publishing, no_task⟩ := tracked.running running
    obtain ⟨higher, covered, held⟩ := alive.published publishing no_task positive
    refine ⟨history, finite, c.lsn, fun seen mem => ?_, held⟩
    rcases mem_append.mp mem with new | old
    · exact covered seen new
    · exact (completed seen old).mono higher
  | call w _ running =>
    refine ⟨history, finite, ?_⟩
    rw [running] at process ⊢
    obtain ⟨floor, completed, held⟩ := process
    exact ⟨floor, completed, held.call⟩
  | close w running => exact tracked.turn running rfl fun held => held.close
  | barrier w _ running _ _ sent => exact tracked.turn running rfl fun held => held.barrier sent
  | receive w _ _ _ _ _ _ running receives sent received =>
    obtain ⟨floor, completed, held⟩ := tracked.running running
    obtain ⟨history', kept, held'⟩ := held.receive history receives sent received
    refine ⟨history', finite, floor, ?_, held'⟩
    rw [kept]
    exact completed
  | exit w running =>
    obtain ⟨_, -, held⟩ := tracked.running running
    exact ⟨history, finite, held.exit (few rfl)⟩

omit tracked

/-! ## Whole runs -/

theorem tracked_fresh : Tracked j limit positive (Node.fresh M) where
  history := ⟨⟨forall_mem_nil _, Nat.two_pow_pos 64⟩, forall_mem_nil _⟩
  finite := finitelyMany_empty
  process := .inl ⟨rfl, rfl, rfl⟩

theorem Recoverable.few {window : Window} (h : Recoverable j window history promised fs) :
    FewLogs j.xxh3 maxGenerations fs := by
  obtain ⟨_, named⟩ := h
  intro file possible c decoded
  obtain ⟨_, f, -, encoded, backed, -⟩ := named (some file) possible
  rw [backed.decode encoded] at decoded
  cases decoded
  exact backed.valid.few_logs

def Guarded (xxh3 : Hash) (M : Machine) (initial : M.State) (options : StreamOptions)
    (n n' : Node M) : Prop :=
  Step xxh3 M initial options n n' ∧ Careful xxh3 n n'

theorem guarded_run (run : ReflTransGen (Guarded xxh3 M initial options) n n') :
    ReflTransGen (Step xxh3 M initial options) n n' :=
  ReflTransGen.mono (fun _ _ step => step.1) _ _ run

theorem resumable_of_crash {fs' : Fs Name} (lost : ∀ name, (fs name).Crash (fs' name))
    (kept : fs' = fs) : Resumable xxh3 fs := by
  subst kept
  have settled (name : Name) : (fs' name).old = [] ∧
      ∀ f, (fs' name).now = some f → f.disk <+: f.data := by
    rcases lost name with ⟨-, slot⟩ | ⟨_, _, -, -, slot⟩
    · rw [slot]
      exact ⟨rfl, nofun⟩
    · rw [slot]
      refine ⟨rfl, ?_⟩
      rintro _ ⟨⟩
      exact prefix_refl _
  refine ⟨fun _ _ f _ _ log => (settled _).2 f log, ?_⟩
  rw [(settled .current).1]
  exact forall_mem_nil _

theorem guarded_crash {fs' : Fs Name} (lost : ∀ name, (n.fs name).Crash (fs' name)) :
    Guarded xxh3 M initial options n { n with fs := fs', mode := .down } :=
  ⟨.crash n fs' lost, fun _ => resumable_of_crash lost⟩

/-- A process ends only while the manifest names at most `limit` logs. -/
def Orderly (xxh3 : Hash) (M : Machine) (initial : M.State) (options : StreamOptions) (limit : Nat)
    (n n' : Node M) : Prop :=
  Guarded xxh3 M initial options n n' ∧ (n'.mode = .down → FewLogs xxh3 limit n.fs)

theorem orderly_run (run : ReflTransGen (Orderly xxh3 M initial options limit) n n') :
    ReflTransGen (Guarded xxh3 M initial options) n n' :=
  ReflTransGen.mono (fun _ _ step => step.1) _ _ run

/-- Whatever a fresh node does, the invariant holds. -/
theorem tracked_run (run : ReflTransGen (Guarded j.xxh3 M j.initial options) (Node.fresh M) n) :
    Tracked j maxGenerations (by decide) n := by
  induction run with
  | refl => exact tracked_fresh
  | tail _ last tracked =>
    obtain ⟨_, recoverable, -⟩ := tracked.recoverable
    exact tracked.step last.1 last.2 fun _ => recoverable.few

def Point.quiet : Point → Bool
  | .rotate .. | .publish _ => false
  | _ => true

theorem Held.stopped {window : Window} {calls : List (List Nat)} {w : Writer M} {point : Point}
    (held : Held j limit window history promised calls fs w point) (quiet : point.quiet = true) :
    Held j limit window history promised calls fs w .stopped := by
  cases point with
  | head | select | query =>
    obtain ⟨_, f, alive, settled, -⟩ := held
    exact held_stopped alive settled
  | rotate | publish => cases quiet
  | stopped => exact held

theorem Tracked.fewLogs (tracked : Tracked j limit positive n) {w : Writer M}
    {point : Point} (running : n.mode = .running w point) (quiet : point.quiet = true) {k : Nat}
    (few : w.current.logs.length ≤ k) : FewLogs j.xxh3 k n.fs := by
  obtain ⟨_, -, held⟩ := tracked.running running
  obtain ⟨_, f, _, -, settled⟩ := held.stopped quiet
  obtain ⟨⟨b, encoded, slot⟩, backed, -⟩ := settled.single
  intro file possible c decoded
  rw [slot] at possible
  simp only [Slot.settled, Slot.Possible, Option.some.injEq, not_mem_nil, or_false] at possible
  subst possible
  rw [backed.decode encoded] at decoded
  cases decoded
  exact few

end Talon.Journal
