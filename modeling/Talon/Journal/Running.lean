import Talon.Journal.Publication

/-!
# The invariant of a running stream

What holds at each point where `run` waits.  `Appends` is about the last log: the records that are
whole in it and the batch in flight.  `Level` is about the variables of `run`: how far the machine,
the syncs and the callers are.  `Snapshotting` and `Publishing` are about the two tasks that change
the manifest while appends go on.  `Tracked` puts them together for a stream in any mode.
-/

set_option autoImplicit false

namespace Talon.Journal

open Wire CrashFs CrashFs.Prog Relation List Nat Writer Option

def Window.down (limit : Nat) (positive : 0 < limit) : Window where
  limit := limit
  floor := 0
  fresh := true
  start := fun _ => ⟨positive, rfl⟩

def Window.running (floor : Nat) : Window where
  limit := maxGenerations
  floor := floor
  fresh := false
  start := nofun

def Below (bound : Nat) (lsns : List Nat) : Prop := ∀ lsn ∈ lsns, lsn ≤ bound

theorem Below.mono {a b : Nat} {lsns : List Nat} (h : Below a lsns) (order : a ≤ b) :
    Below b lsns :=
  fun lsn mem => le_trans (h lsn mem) order

section Invariant

variable {M : Machine} (j : Terms M)
  (window : Window) (history : List (Entry M)) (promised : List Nat) (base : Nat → Nat)
  (fs : Fs Name)

/-- The last log `g` holds the first `k` records and what has been written of the batch after them.
-/
structure Appends (g : Nat) (write : Option (WriteBatch M)) (k : Nat) (f : File) : Prop where
  last : LastLog j.xxh3 history base promised fs g f
  grows : f.disk <+: f.data
  low : base g ≤ k
  high : k ≤ history.length
  idle : write = none → k = history.length ∧ f.data = logBytes j.xxh3 history (base g) k
  busy : ∀ batch, write = some batch →
    batch.start = (logBytes j.xxh3 history (base g) k).length ∧
    logBytes j.xxh3 history (base g) history.length =
      logBytes j.xxh3 history (base g) k ++ batch.bytes ∧
    f.data = logBytes j.xxh3 history (base g) k ++ batch.bytes.take batch.done

/-- How far the variables of `run` are, with the calls that handles have made. -/
structure Level (calls : List (List Nat)) (w : Writer M) : Prop where
  next : w.nextLsn = history.length
  offset : w.offset = (logBytes j.xxh3 history (base w.current.lastLog) history.length).length
  machine : M.Reflects j.initial j.same history w.lsn w.machine
  pending : ∀ batch, w.write = some batch → batch.pending.map Pending.entry = history.drop w.lsn ∧
    batch.pending.map Pending.lsn = List.range' (w.lsn + 1) batch.pending.length
  durable : Below w.lsn w.durable
  sync : ∀ batch, w.sync = some batch → ∃ m, m ≤ w.lsn ∧
    batch.covers = (logBytes j.xxh3 history (base w.current.lastLog) m).length ∧ Below m batch.lsns
  replied : Below w.lsn w.replied
  called : ∀ seen ∈ calls, Below w.lsn seen
  barrier : ∀ seen, w.barrier = some (.checkpoint seen) → Below w.lsn seen
  waiting : ∀ seen ∈ w.pendingCheckpoint.getD [], Below w.lsn seen
  covered : ∀ seen ∈ w.checkpointCompletion.getD [], Below (base w.current.lastLog) seen

structure Snapshotting (c : Current) (items : List (Result Bytes))
    (p : Prog Name (Option Snapshot)) :
    Prop where
  newer : c.snapshot < c.lastLog
  inside : base c.lastLog ≤ history.length
  rebuilt : ∀ bodies, items = bodies.map .ok →
    Rebuilt j.initial j.same history (base c.lastLog) bodies
  safe : p.Safe (OnlyAt (.journal c.lastLog))
    (fun fs => Single j.xxh3 (Standing j window history base c.lastLog) fs c)
    (fun r fs => Single j.xxh3 (Standing j window history base c.lastLog) fs c ∧
      ∀ s, r = some s → s.generation = c.lastLog ∧ s.lsn = base c.lastLog ∧
        ∃ bodies, Finished j.xxh3 items s fs bodies) fs
  spares : p.Spares (.journal c.lastLog)

structure Publishing (c : Current) (p : Prog Name (Option Current)) : Prop where
  safe : p.Safe (OnlyAt (.journal c.lastLog))
    (Manifests j.xxh3 (Standing j window history base c.lastLog))
    (fun r fs => ∃ c', r = some c' ∧ c'.garbage = [] ∧ c'.logs.length = 1 ∧
      c'.lsn = base c.lastLog ∧
      Single j.xxh3 (Standing j window history base c.lastLog) fs c') fs
  spares : p.Spares (.journal c.lastLog)

/-- The manifest is the writer's, or its snapshot task is at work beside it. -/
def Settled (c : Current) : Option (Prog Name (Option Snapshot)) → Prop
  | none => Single j.xxh3 (Standing j window history base c.lastLog) fs c
  | some p => ∃ items, Snapshotting j window history base fs c items p

/-- The writer and its last log, at any point but in a rotation. -/
structure Alive (calls : List (List Nat)) (w : Writer M) (f : File) : Prop where
  clean : w.current.garbage = []
  appends : Appends j history promised base fs w.current.lastLog w.write w.lsn f
  level : Level j history base calls w

structure Rotating (calls : List (List Nat)) (w : Writer M) (items : List (Result Bytes))
    (p : Prog Name (Option (Current × Nat))) : Prop where
  clean : w.current.garbage = []
  level : Level j history base calls w
  whole : w.lsn = history.length
  idle : w.write = none ∧ w.sync = none ∧ w.durable = [] ∧ w.checkpoint = none
  items : M.snapshot w.machine = .ok items
  safe : p.Safe Alone (Recoverable j window history promised)
    (fun r fs => match r with
      | none =>
        (2 ^ 64 ≤ w.current.lastLog + 1 ∨ maxGenerations < w.current.logs.length + 1) ∧
        ∃ f, Ready j window history base promised fs w.current f ∧
          f.data = logBytes j.xxh3 history (base w.current.lastLog) history.length ∧
          f.disk <+: f.data
      | some (c, g) => c = w.current.withLog ∧ g = w.current.lastLog + 1 ∧
          Ready j window history (rotateBase base w.current history.length) promised
            fs c ⟨[], []⟩) fs

end Invariant

section Tracked

variable {M : Machine} (j : Terms M)

/-- Without a snapshot in progress the manifest names at most `limit` logs. -/
def Idle (limit : Nat) (w : Writer M) : Prop := w.checkpoint = none → w.current.logs.length ≤ limit

def Held (limit : Nat) (window : Window) (history : List (Entry M)) (promised : List Nat)
    (calls : List (List Nat)) (fs : Fs Name) (w : Writer M) : Point → Prop
  | .head | .select => ∃ base f, Alive j history promised base fs calls w f ∧
      Settled j window history base fs w.current w.checkpoint ∧ Idle limit w
  | .query => ∃ base f, Alive j history promised base fs calls w f ∧
      Settled j window history base fs w.current w.checkpoint ∧ Idle limit w ∧
      w.write = none ∧ w.sync = none
  | .rotate items p => ∃ base,
      Rotating j window history promised base fs calls w items p ∧ Idle limit w
  | .publish p => ∃ base f, Alive j history promised base fs calls w f ∧
      Publishing j window history base fs w.current p ∧ w.checkpoint = none
  | .stopped => ∃ base f k,
      Appends j history promised base fs w.current.lastLog w.write k f ∧
      Settled j window history base fs w.current w.checkpoint

def Process (limit : Nat) (positive : 0 < limit) (history : List (Entry M)) (promised : List Nat)
    (calls : List (List Nat)) (fs : Fs Name) : Mode M → Prop
  | .down => Startable j (.down limit positive) history promised fs
  | .opening p => p.Safe Alone (Recoverable j (.down limit positive) history promised)
      (Ended j (.down limit positive) history promised) fs
  | .running w point => ∃ floor, (∀ seen ∈ w.completed, Below floor seen) ∧
      Held j limit (.running floor) history promised calls fs w point

structure Tracked (limit : Nat) (positive : 0 < limit) (n : Node M) : Prop where
  history : History n.history n.promised
  finite : n.fs.FinitelyMany
  process : Process j limit positive n.history n.promised n.calls n.fs n.mode

end Tracked

variable {xxh3 : Hash} {M : Machine} {initial : M.State} {same : M.State → M.State → Prop}
  {j : Terms M}
  {window window' : Window} {history : List (Entry M)} {promised : List Nat} {base : Nat → Nat}
  {fs fs' : Fs Name} {c : Current} {f : File} {limit : Nat} {calls : List (List Nat)} {w : Writer M}

/-! ## What may be found after a crash -/

theorem Backed.widen (h : Backed j window history base fs c)
    (admitted : window'.Admits c) : Backed j window' history base fs c :=
  { h with admitted := admitted }

def FewLogs (xxh3 : Hash) (limit : Nat) (fs : Fs Name) : Prop :=
  ∀ file, (fs .current).Possible (some file) → ∀ c, Current.decode xxh3 file.data = .ok c →
    c.logs.length ≤ limit

theorem Recoverable.down (h : Recoverable j window history promised fs) {positive : 0 < limit}
    (few : FewLogs j.xxh3 limit fs) : Recoverable j (.down limit positive) history promised fs := by
  obtain ⟨base, named⟩ := h
  refine ⟨base, fun b possible => ?_⟩
  have found := named b possible
  cases b with
  | none => exact ⟨found.1, rfl⟩
  | some file =>
    obtain ⟨c, f, synced, encoded, backed, last⟩ := found
    refine ⟨c, f, synced, encoded, backed.widen ⟨?_, zero_le _⟩, last⟩
    exact few file possible c (backed.decode encoded)

theorem recoverable_standing {last : Nat}
    (h : Manifests j.xxh3 (Standing j window history base last) fs)
    (log : LastLog j.xxh3 history base promised fs last f) :
    Recoverable j window history promised fs := by
  refine ⟨base, fun b possible => ?_⟩
  obtain ⟨_, c, rfl, synced, encoded, backed, rfl⟩ := h b possible
  exact ⟨c, f, synced, encoded, backed, log⟩

theorem Settled.single {task : Option (Prog Name (Option Snapshot))}
    (h : Settled j window history base fs c task) :
    Single j.xxh3 (Standing j window history base c.lastLog) fs c := by
  cases task with
  | none => exact h
  | some =>
    obtain ⟨_, snapshotting⟩ := h
    exact snapshotting.safe.crash

theorem Held.recoverable {point : Point}
    (h : Held j limit window history promised calls fs w point) :
    Recoverable j window history promised fs := by
  cases point with
  | head | select | query =>
    obtain ⟨base, f, alive, settled, -⟩ := h
    exact recoverable_standing settled.single.manifests alive.appends.last
  | rotate =>
    obtain ⟨base, rotating, -⟩ := h
    exact rotating.safe.crash
  | publish =>
    obtain ⟨base, f, alive, publishing, -⟩ := h
    exact recoverable_standing publishing.safe.crash alive.appends.last
  | stopped =>
    obtain ⟨_, f, k, appends, settled⟩ := h
    exact recoverable_standing settled.single.manifests appends.last

/-! ## Steps that change only the last log -/

theorem Settled.touch {task : Option (Prog Name (Option Snapshot))}
    (h : Settled j window history base fs c task) (g : File → File) :
    Settled j window history base (fs.modify (.journal c.lastLog) g) c task := by
  have moved : ReflTransGen (OnlyAt (.journal c.lastLog)) fs (fs.modify (.journal c.lastLog) g) :=
    .single ⟨_, rfl⟩
  cases task with
  | none => exact Single.standing_later h moved
  | some =>
    obtain ⟨items, snapshotting⟩ := h
    exact ⟨items, { snapshotting with safe := snapshotting.safe.later moved }⟩

theorem Publishing.touch {p : Prog Name (Option Current)}
    (h : Publishing j window history base fs c p) (g : File → File) :
    Publishing j window history base (fs.modify (.journal c.lastLog) g) c p :=
  { h with safe := h.safe.later (.single ⟨_, rfl⟩) }

theorem LastLog.modify {g : Nat} {f' : File} {promised' : List Nat} {change : File → File}
    (h : LastLog xxh3 history base promised fs g f) (changed : change f = f')
    (data : f'.data <+: logBytes xxh3 history (base g) history.length)
    (disk : f'.disk <+: logBytes xxh3 history (base g) history.length)
    (kept : ∀ lsn ∈ promised', logBytes xxh3 history (base g) lsn <+: f'.disk ∧
      logBytes xxh3 history (base g) lsn <+: f'.data) :
    LastLog xxh3 history base promised' (fs.modify (.journal g) change) g f' := by
  refine ⟨?_, data, disk, kept⟩
  rw [Fs.modify, Function.update_self, h.slot, ← changed]
  rfl

theorem Appends.covers {g k m : Nat} {write : Option (WriteBatch M)}
    (h : Appends j history promised base fs g write k f) (order : m ≤ k) :
    logBytes j.xxh3 history (base g) m <+: f.data := by
  have part := logBytes_prefix j.xxh3 history (base g) order
  cases write with
  | none =>
    rw [(h.idle rfl).2]
    exact part
  | some batch =>
    rw [(h.busy batch rfl).2.2]
    exact part.trans (prefix_append _ _)

theorem Appends.write {g k count : Nat} {batch : WriteBatch M}
    (h : Appends j history promised base fs g (some batch) k f)
    (most : batch.done + count ≤ batch.bytes.length) :
    ∃ f', Appends j history promised base
      (fs.modify (.journal g)
        (File.writeAt (batch.start + batch.done) ((batch.bytes.drop batch.done).take count)))
      g (some { batch with done := batch.done + count }) k f' := by
  obtain ⟨start, whole, data⟩ := h.busy batch rfl
  have length : f.data.length = batch.start + batch.done := by
    rw [data, length_append, length_take, start]
    omega
  have more : f.data ++ (batch.bytes.drop batch.done).take count =
      logBytes j.xxh3 history (base g) k ++ batch.bytes.take (batch.done + count) := by
    rw [data, append_assoc, ← take_add]
  have written : f.writeAt (batch.start + batch.done) ((batch.bytes.drop batch.done).take count) =
      ⟨f.data ++ (batch.bytes.drop batch.done).take count, f.disk⟩ := by
    rw [← length, File.writeAt_end]
  have longer : f.data <+: f.data ++ (batch.bytes.drop batch.done).take count :=
    prefix_append _ _
  refine ⟨_, ⟨h.last.modify written ?_ h.last.disk fun lsn mem => ?_, h.grows.trans longer, h.low,
    h.high, nofun, ?_⟩⟩
  · rw [more, whole]
    exact (prefix_append_right_inj _).mpr ( take_prefix _ _)
  · exact ⟨(h.last.kept lsn mem).1, (h.last.kept lsn mem).2.trans longer⟩
  · intro b some
    cases some
    exact ⟨start, whole, more⟩

theorem Appends.syncTo {g k m covers : Nat} {write : Option (WriteBatch M)} {lsns : List Nat}
    (h : Appends j history promised base fs g write k f) (order : m ≤ k)
    (bytes : covers = (logBytes j.xxh3 history (base g) m).length) (below : Below m lsns) :
    ∃ f', Appends j history (lsns ++ promised) base
      (fs.modify (.journal g) (File.syncTo covers)) g write k f' := by
  have there := h.covers order
  have cut : logBytes j.xxh3 history (base g) m <+: f.data.take (max covers f.disk.length) := by
    rw [bytes]
    exact prefix_take_iff.mpr ⟨there, le_max_left _ _⟩
  have old : f.disk <+: f.data.take (max covers f.disk.length) :=
    prefix_take_iff.mpr ⟨h.grows, le_max_right _ _⟩
  have part : f.data.take (max covers f.disk.length) <+: f.data := take_prefix _ _
  refine ⟨f.syncTo covers, ⟨h.last.modify rfl h.last.data (part.trans h.last.data) ?_, part, h.low,
    h.high, h.idle, h.busy⟩⟩
  intro lsn mem
  rcases mem_append.mp mem with new | kept
  · have early := logBytes_prefix j.xxh3 history (base g) (below lsn new)
    exact ⟨early.trans cut, early.trans there⟩
  · exact ⟨(h.last.kept lsn kept).1.trans old, (h.last.kept lsn kept).2⟩

theorem Appends.sync {g k : Nat} (h : Appends j history promised base fs g none k f) :
    Appends j history (k :: promised) base (fs.modify (.journal g) File.sync) g none k f.sync := by
  have there := h.covers (le_refl k)
  refine ⟨h.last.modify rfl h.last.data h.last.data ?_, prefix_refl _, h.low, h.high, h.idle,
    h.busy⟩
  intro lsn mem
  rcases mem_cons.mp mem with rfl | kept
  · exact ⟨there, there⟩
  · exact ⟨(h.last.kept lsn kept).2, (h.last.kept lsn kept).2⟩

/-! ## Receiving a batch -/

/-- What a batch has collected: frames of consecutive LSNs from `nextLsn + 1` on. -/
structure Gathered (xxh3 : Hash) (nextLsn : Nat) (new : List (Pending M)) (c : Collected M) :
    Prop where
  next : c.nextLsn = nextLsn + new.length
  fits : c.nextLsn < 2 ^ 64
  lsns : new.map Pending.lsn = List.range' (nextLsn + 1) new.length
  small : ∀ p ∈ new, p.bytes.length ≤ maxRecord

theorem collect_ok {nextLsn : Nat} {bytes : Bytes} {pending : List (Pending M)}
    {queue : List (Command M)} {c : Collected M} (before : nextLsn < 2 ^ 64)
    (ok : collect xxh3 nextLsn bytes pending queue = .ok c) :
    ∃ new, Gathered xxh3 nextLsn new c ∧ c.pending = pending ++ new ∧
      c.bytes = bytes ++ frames xxh3 nextLsn (new.map Pending.bytes) ∧
      ∀ request, c.barrier = some request → request ∈ queue := by
  induction queue generalizing nextLsn bytes pending with
  | nil =>
    cases ok
    exact ⟨[], ⟨rfl, before, rfl, forall_mem_nil _⟩, (append_nil _).symm,
      (append_nil _).symm, fun _ absurd => by cases absurd⟩
  | cons request _ ih =>
    cases request with
    | query | checkpoint =>
      cases ok
      refine ⟨[], ⟨rfl, before, rfl, forall_mem_nil _⟩, (append_nil _).symm,
        (append_nil _).symm, fun request same => ?_⟩
      cases same
      exact mem_cons_self
    | append record body ack =>
      rw [collect] at ok
      split at ok
      · cases ok
      · rename_i fits
        by_cases big : body.length > maxRecord
        · rw [encodeFrame, if_pos big] at ok
          cases ok
        rw [encodeFrame, if_neg big] at ok
        dsimp only at ok
        split at ok
        · cases ok
          refine ⟨[⟨record, body, ack, nextLsn + 1⟩], ⟨rfl, Nat.lt_of_not_le fits, rfl, ?_⟩, rfl,
            ?_, fun _ absurd => by cases absurd⟩
          · intro p mem
            rw [mem_singleton.mp mem]
            exact Nat.le_of_not_lt big
          · rw [map_singleton, frames, frames, append_nil]
        · obtain ⟨new, gathered, pending', bytes', barrier⟩ := ih (Nat.lt_of_not_le fits) ok
          refine ⟨⟨record, body, ack, nextLsn + 1⟩ :: new, ⟨?_, gathered.fits, ?_, ?_⟩, ?_, ?_,
            fun request same => mem_cons_of_mem _ (barrier request same)⟩
          · rw [gathered.next, length_cons]
            omega
          · rw [map_cons, gathered.lsns, length_cons, range'_succ]
          · intro p mem
            rcases mem_cons.mp mem with rfl | later
            · exact Nat.le_of_not_lt big
            · exact gathered.small p later
          · rw [pending', append_assoc]
            rfl
          · rw [bytes', append_assoc, map_cons, frames]

variable (xxh3) in
theorem logBytes_append (more : List (Entry M)) {first : Nat} (order : first ≤ history.length) :
    logBytes xxh3 (history ++ more) first (history ++ more).length =
      logBytes xxh3 history first history.length ++
        frames xxh3 history.length (more.map Entry.bytes) := by
  have length : ((history.drop first).map Entry.bytes).length = history.length - first := by
    rw [length_map, length_drop]
  rw [logBytes, logBytes, take_length, take_length, drop_append_of_le_length order,
    map_append, frames_append, length, Nat.add_sub_cancel' order]

theorem logBytes_extend (more : List (Entry M)) {first stop : Nat}
    (inside : stop ≤ history.length) :
    logBytes xxh3 (history ++ more) first stop = logBytes xxh3 history first stop :=
  logBytes_congr (take_append_of_le_length inside) (le_refl _)

theorem Standing.extend {last : Nat} (more : List (Entry M))
    (h : Standing j window history base last fs c) :
    Standing j window (history ++ more) base last fs c := by
  have inside := h.1.inside
  refine ⟨h.1.extend (take_append_of_le_length inside) ?_, h.2⟩
  rw [length_append]
  omega

theorem Single.extend {last : Nat} (more : List (Entry M))
    (h : Single j.xxh3 (Standing j window history base last) fs c) :
    Single j.xxh3 (Standing j window (history ++ more) base last) fs c :=
  ⟨h.1, h.2.extend more⟩

theorem Settled.extend {task : Option (Prog Name (Option Snapshot))} (more : List (Entry M))
    (h : Settled j window history base fs c task) :
    Settled j window (history ++ more) base fs c task := by
  cases task with
  | none => exact Single.extend more h
  | some =>
    obtain ⟨items, snapshotting⟩ := h
    refine ⟨items, snapshotting.newer, ?_, ?_, ?_, snapshotting.spares⟩
    · have inside := snapshotting.inside
      rw [length_append]
      omega
    · intro bodies all
      rw [Rebuilt, take_append_of_le_length snapshotting.inside]
      exact snapshotting.rebuilt bodies all
    · exact snapshotting.safe.mono (fun fs single => single.extend more)
        fun r fs result => ⟨result.1.extend more, result.2⟩

theorem LastLog.extend {g : Nat} (h : LastLog xxh3 history base promised fs g f)
    (more : List (Entry M)) (inside : base g ≤ history.length)
    (bound : ∀ lsn ∈ promised, lsn ≤ history.length) :
    LastLog xxh3 (history ++ more) base promised fs g f := by
  have longer : logBytes xxh3 history (base g) history.length <+:
      logBytes xxh3 (history ++ more) (base g) (history ++ more).length := by
    rw [logBytes_append xxh3 more inside]
    exact prefix_append _ _
  refine ⟨h.slot, h.data.trans longer, h.disk.trans longer, fun lsn mem => ?_⟩
  rw [logBytes_extend more (bound lsn mem)]
  exact h.kept lsn mem

theorem History.extend (h : History history promised) {new : List (Pending M)} {c : Collected M}
    (gathered : Gathered xxh3 history.length new c) :
    History (history ++ new.map Pending.entry) promised where
  numbered := by
    have next := gathered.next
    have fits := gathered.fits
    refine ⟨fun body mem => ?_, ?_⟩
    · rw [List.map_append, List.mem_append, List.map_map] at mem
      rcases mem with old | received
      · exact h.numbered.small body old
      · obtain ⟨p, there, rfl⟩ := mem_map.mp received
        exact gathered.small p there
    · rw [length_map, length_append, length_map]
      omega
  promised := by
    intro lsn mem
    have bound := h.promised lsn mem
    rw [length_append]
    omega

theorem Alive.receive {queue : List (Command M)} {w' : Writer M} {batch : List (Pending M)}
    {options : StreamOptions} (h : History history promised)
    (alive : Alive j history promised base fs calls w f) (idle : w.write = none)
    (sent : ∀ request ∈ queue, request.Sent options calls)
    (received : w.receive j.xxh3 queue = .ok (w', batch)) :
    History (history ++ batch.map Pending.entry) promised ∧
      Alive j (history ++ batch.map Pending.entry) promised base fs calls w' f ∧
      w'.current = w.current ∧ w'.checkpoint = w.checkpoint ∧ w'.completed = w.completed := by
  obtain ⟨whole, data⟩ := alive.appends.idle idle
  have next := alive.level.next
  have inside : base w.current.lastLog ≤ history.length := by
    have low := alive.appends.low
    omega
  obtain ⟨c, collected, rest⟩ := Fallible.bind_ok received
  obtain ⟨_, writing, result⟩ := Fallible.bind_ok rest
  cases result
  rw [startWrite] at writing
  split at writing
  · cases writing
  cases writing
  rw [next] at collected
  obtain ⟨new, gathered, pending, bytes, barrier⟩ := collect_ok h.small collected
  rw [nil_append] at pending bytes
  rw [pending]
  have entries : (new.map Pending.entry).map Entry.bytes = new.map Pending.bytes := by
    rw [List.map_map]
    rfl
  have longer := logBytes_append j.xxh3 (new.map Pending.entry) inside
  rw [entries, ← bytes] at longer
  refine ⟨h.extend gathered, ⟨alive.clean, ?_, ?_⟩, rfl, rfl, rfl⟩
  · refine ⟨alive.appends.last.extend _ inside h.promised, alive.appends.grows,
      alive.appends.low, ?_, nofun, fun b same => ?_⟩
    · change w.lsn ≤ _
      rw [length_append]
      omega
    · cases same
      rw [whole, logBytes_extend _ (le_refl _), alive.level.offset, take_zero,
        append_nil, data, whole]
      exact ⟨rfl, longer, rfl⟩
  · exact
      { alive.level with
        next := by
          rw [gathered.next, length_append, length_map]
        offset := by
          rw [longer, length_append, alive.level.offset]
        machine := Machine.reflects_congr
          (take_append_of_le_length (le_of_eq whole)) alive.level.machine
        pending := by
          intro b same
          cases same
          rw [whole, drop_left, gathered.lsns]
          exact ⟨rfl, rfl⟩
        sync := by
          intro b same
          obtain ⟨m, order, covers, below⟩ := alive.level.sync b same
          refine ⟨m, order, ?_, below⟩
          rw [covers, logBytes_extend _ (by omega)]
        barrier := by
          intro seen same
          exact alive.level.called seen (sent _ (barrier _ same)) }

/-! ## Applying a batch -/

theorem Machine.Reflects.apply {n : Nat} {u u' : M.State} {e : Entry M} {rest : List (Entry M)}
    (h : M.Reflects initial same history n u) (next : history.drop n = e :: rest)
    (applied : M.apply u (n + 1) e.record = .ok u') :
    M.Reflects initial same history (n + 1) u' := by
  intro good
  obtain ⟨s, run, alike⟩ := h (good.shorter (Nat.le_succ n))
  obtain ⟨_, whole⟩ := good.accepted.runs
  have inside : n < history.length := by
    apply Nat.lt_of_not_le
    intro beyond
    rw [drop_eq_nil_of_le beyond] at next
    cases next
  have here : history[n]? = some e := by
    rw [← head?_drop, next]
    rfl
  have longer : history.take (n + 1) = history.take n ++ [e] := by
    rw [take_add_one, here]
    rfl
  have length : ((history.take n).map Entry.record).length = n := by
    rw [length_map, length_take]
    omega
  rw [longer] at whole ⊢
  have split := whole
  rw [Machine.run, map_append, Machine.replay_append, length, Nat.zero_add] at split
  change (M.run initial (history.take n) >>= fun s => M.replay n s [e.record]) = _ at split
  rw [run, ok_bind] at split
  obtain ⟨_, applied₁, final⟩ := Fallible.bind_ok split
  cases final
  obtain ⟨t, again, alike'⟩ := good.rebuilds.apply _ _ _ _ _ alike applied₁
  rw [applied] at again
  cases again
  exact ⟨_, whole, alike'⟩

structure Applied (w w' : Writer M) : Prop where
  current : w'.current = w.current
  offset : w'.offset = w.offset
  nextLsn : w'.nextLsn = w.nextLsn
  write : w'.write = w.write
  sync : w'.sync = w.sync
  barrier : w'.barrier = w.barrier
  checkpoint : w'.checkpoint = w.checkpoint
  checkpointCompletion : w'.checkpointCompletion = w.checkpointCompletion
  pendingCheckpoint : w'.pendingCheckpoint = w.pendingCheckpoint
  completed : w'.completed = w.completed

theorem applied_applyAll (w : Writer M) (batch : List (Pending M)) :
    Applied w (w.applyAll batch).1 := by
  induction batch generalizing w with
  | nil => exact ⟨rfl, rfl, rfl, rfl, rfl, rfl, rfl, rfl, rfl, rfl⟩
  | cons p _ ih =>
    rw [applyAll]
    split
    · exact ⟨rfl, rfl, rfl, rfl, rfl, rfl, rfl, rfl, rfl, rfl⟩
    · have rest := ih { w with
        machine := by assumption, lsn := p.lsn
        durable := if p.ack = .durable then w.durable ++ [p.lsn] else w.durable
        replied := if p.ack = .durable then w.replied else p.lsn :: w.replied }
      exact ⟨rest.current, rest.offset, rest.nextLsn, rest.write, rest.sync, rest.barrier,
        rest.checkpoint, rest.checkpointCompletion, rest.pendingCheckpoint, rest.completed⟩

theorem applyAll_ok {w : Writer M} {batch : List (Pending M)}
    (machine : M.Reflects initial same history w.lsn w.machine) (durable : Below w.lsn w.durable)
    (replied : Below w.lsn w.replied) (entries : batch.map Pending.entry = history.drop w.lsn)
    (lsns : batch.map Pending.lsn = range' (w.lsn + 1) batch.length)
    (ok : (w.applyAll batch).2 = true) :
    (w.applyAll batch).1.lsn = w.lsn + batch.length ∧
      M.Reflects initial same history (w.applyAll batch).1.lsn (w.applyAll batch).1.machine ∧
      Below (w.applyAll batch).1.lsn (w.applyAll batch).1.durable ∧
      Below (w.applyAll batch).1.lsn (w.applyAll batch).1.replied := by
  induction batch generalizing w with
  | nil => exact ⟨rfl, machine, durable, replied⟩
  | cons p batch ih =>
    rw [map_cons, length_cons, range'_succ, cons.injEq] at lsns
    rw [map_cons] at entries
    rw [applyAll] at ok ⊢
    cases applied : M.apply w.machine p.lsn p.record with
    | error =>
      rw [applied] at ok
      cases ok
    | ok u =>
      rw [applied] at ok
      have longer : w.lsn ≤ p.lsn := by
        rw [lsns.1]
        omega
      rw [lsns.1] at applied
      have after : M.Reflects initial same history p.lsn u := by
        rw [lsns.1]
        exact machine.apply entries.symm applied
      have durable' : Below p.lsn
          (if p.ack = .durable then w.durable ++ [p.lsn] else w.durable) := by
        intro lsn mem
        split at mem
        · rcases mem_append.mp mem with old | new
          · exact le_trans (durable lsn old) longer
          · rw [mem_singleton.mp new]
        · exact le_trans (durable lsn mem) longer
      have replied' : Below p.lsn
          (if p.ack = .durable then w.replied else p.lsn :: w.replied) := by
        intro lsn mem
        split at mem
        · exact le_trans (replied lsn mem) longer
        · rcases mem_cons.mp mem with rfl | old
          · exact le_refl _
          · exact le_trans (replied lsn old) longer
      have entries' : batch.map Pending.entry = history.drop p.lsn := by
        rw [lsns.1, ← drop_drop, ← entries]
        rfl
      have lsns' : batch.map Pending.lsn = range' (p.lsn + 1) batch.length := by
        rw [lsns.2, lsns.1]
      obtain ⟨lsn, rest⟩ := ih after durable' replied' entries' lsns' ok
      refine ⟨?_, rest⟩
      rw [lsn, length_cons]
      change p.lsn + batch.length = _
      omega

variable (alive : Alive j history promised base fs calls w f)

include alive in
theorem Alive.written {batch : WriteBatch M}
    (writing : w.write = some batch) (whole : batch.done = batch.bytes.length)
    (ok : (applyAll { w with write := none } batch.pending).2 = true) :
    Alive j history promised base fs calls
      (applyAll { w with write := none } batch.pending).1 f := by
  obtain ⟨entries, lsns⟩ := alive.level.pending batch writing
  obtain ⟨-, all, data⟩ := alive.appends.busy batch writing
  have length : batch.pending.length = history.length - w.lsn := by
    rw [← length_map (f := Pending.entry), entries, length_drop]
  obtain ⟨lsn, machine, durable, replied⟩ := applyAll_ok (w := { w with write := none })
    alive.level.machine alive.level.durable alive.level.replied entries lsns ok
  have frame := applied_applyAll { w with write := none } batch.pending
  generalize applyAll { w with write := none } batch.pending = result at *
  obtain ⟨w', _⟩ := result
  dsimp only at frame lsn machine durable replied ⊢
  have high := alive.appends.high
  have reached : w'.lsn = history.length := by omega
  have longer : w.lsn ≤ w'.lsn := by omega
  have current := frame.current
  refine ⟨?_, ?_, ?_⟩
  · rw [current]
    exact alive.clean
  · rw [current, frame.write, reached]
    refine ⟨alive.appends.last, alive.appends.grows, le_trans alive.appends.low high,
      le_refl _, fun _ => ⟨rfl, ?_⟩, nofun⟩
    rw [data, whole, take_length, ← all]
  · exact
      { next := frame.nextLsn.trans alive.level.next
        offset := by
          rw [current, frame.offset]
          exact alive.level.offset
        machine := machine
        pending := by
          rw [frame.write]
          nofun
        durable := durable
        sync := by
          rw [frame.sync, current]
          intro b same
          obtain ⟨m, order, rest⟩ := alive.level.sync b same
          exact ⟨m, le_trans order longer, rest⟩
        replied := replied
        called := fun seen mem => (alive.level.called seen mem).mono longer
        barrier := by
          rw [frame.barrier]
          exact fun seen same => (alive.level.barrier seen same).mono longer
        waiting := by
          rw [frame.pendingCheckpoint]
          exact fun seen mem => (alive.level.waiting seen mem).mono longer
        covered := by
          rw [frame.checkpointCompletion, current]
          exact alive.level.covered }

/-! ## The head of the loop -/

variable (h : Alive j history promised base fs calls w f)
include h

theorem Alive.takeCheckpoint : Alive j history promised base fs calls w.takeCheckpoint f := by
  unfold Writer.takeCheckpoint
  split
  · rename_i seen request
    refine ⟨h.clean, h.appends, { h.level with barrier := nofun, waiting := ?_ }⟩
    intro other mem
    rcases mem_cons.mp mem with rfl | old
    · exact h.level.barrier _ request
    · exact h.level.waiting other old
  · exact h

theorem Alive.startSync : Alive j history promised base fs calls w.startSync f := by
  unfold Writer.startSync
  split
  · refine ⟨h.clean, h.appends, { h.level with durable := forall_mem_nil _, sync := ?_ }⟩
    intro batch started
    cases started
    refine ⟨w.lsn, le_refl _, ?_, h.level.durable⟩
    unfold Writer.written
    split
    · rename_i idle
      rw [h.level.offset, (h.appends.idle idle).1]
    · rename_i batch busy
      exact (h.appends.busy batch busy).1
  · exact h

omit h

theorem head_fields (w : Writer M) :
    w.takeCheckpoint.startSync.current = w.current ∧
      w.takeCheckpoint.startSync.checkpoint = w.checkpoint ∧
      w.takeCheckpoint.startSync.completed = w.completed ∧
      (w.takeCheckpoint.startSync.sync = none → w.takeCheckpoint.startSync.durable = []) := by
  have taken : w.takeCheckpoint.current = w.current ∧ w.takeCheckpoint.checkpoint = w.checkpoint ∧
      w.takeCheckpoint.completed = w.completed := by
    unfold takeCheckpoint
    split <;> exact ⟨rfl, rfl, rfl⟩
  generalize w.takeCheckpoint = v at taken ⊢
  unfold startSync
  split
  · exact ⟨taken.1, taken.2.1, taken.2.2, nofun⟩
  · rename_i none_started
    refine ⟨taken.1, taken.2.1, taken.2.2, fun idle => ?_⟩
    by_contra some
    exact none_started ⟨by rw [idle]; rfl, by rw [List.isEmpty_iff]; exact some⟩

include alive

variable (settled : Settled j window history base fs w.current w.checkpoint)
include settled

theorem held_settle (idle : Idle limit w) :
    Held j limit window history promised calls fs w w.settle := by
  unfold settle
  split
  · exact ⟨base, f, w.lsn, alive.appends, settled⟩
  · exact ⟨base, f, alive, settled, idle⟩

theorem held_stopped : Held j limit window history promised calls fs w .stopped :=
  ⟨base, f, w.lsn, alive.appends, settled⟩

omit settled

omit alive

variable {items : List (Result Bytes)}

variable {floor : Nat}

theorem Alive.rotate (h : History history promised)
    (alive : Alive j history promised base fs calls w f)
    (single : Single j.xxh3 (Standing j (.running floor) history base
      w.current.lastLog) fs w.current)
    (idle : w.write = none ∧ w.sync = none ∧ w.durable = [] ∧ w.checkpoint = none)
    (snapshot : M.snapshot w.machine = .ok items) :
    Rotating j (.running floor) history promised base fs calls w items
      (Journal.rotate j.xxh3 w.current) := by
  obtain ⟨whole, data⟩ := alive.appends.idle idle.1
  rw [whole] at data
  have ready : Ready j (.running floor) history base promised fs w.current f :=
    ⟨single.1, single.2.1, alive.appends.last⟩
  exact ⟨alive.clean, alive.level, whole, idle, snapshot,
    safe_rotate ready data h.promised (le_refl _)⟩

theorem Held.head {options : StreamOptions} (h : History history promised)
    (held : Held j limit (.running floor) history promised calls fs w .head) :
    Held j limit (.running floor) history promised calls fs (w.head j.xxh3 options).1
      (w.head j.xxh3 options).2 ∧ (w.head j.xxh3 options).1.completed = w.completed := by
  obtain ⟨base, f, alive, settled, few⟩ := held
  obtain ⟨current, checkpoint, completed, drained⟩ := head_fields w
  have alive' := alive.takeCheckpoint.startSync
  unfold Writer.head
  generalize w.takeCheckpoint.startSync = v at *
  rw [← current, ← checkpoint] at settled
  have idle : Idle limit v := by
    intro no_task
    rw [current]
    exact few (checkpoint.symm.trans no_task)
  dsimp only
  split
  · rename_i waits
    split
    · exact ⟨⟨base, f, alive', settled, idle, isNone_iff_eq_none.mp waits.1,
        isNone_iff_eq_none.mp waits.2⟩, completed⟩
    · split
      · rename_i wanted
        have no_task := isNone_iff_eq_none.mp wanted.1
        split
        · exact ⟨held_stopped alive' settled, completed⟩
        · rename_i items snapshot
          rw [no_task] at settled
          have no_sync := isNone_iff_eq_none.mp waits.2
          exact ⟨⟨base, alive'.rotate h settled ⟨isNone_iff_eq_none.mp waits.1, no_sync,
            drained no_sync, no_task⟩ snapshot, idle⟩, completed⟩
      · exact ⟨held_settle alive' settled idle, completed⟩
  · exact ⟨held_settle alive' settled idle, completed⟩

/-! ## Opening -/

theorem History.take (h : History history promised) {n : Nat} (covers : Below n promised)
    (inside : n ≤ history.length) : History (history.take n) promised where
  numbered := by
    refine ⟨fun body mem => ?_, ?_⟩
    · rw [map_take] at mem
      exact h.numbered.small body (mem_of_mem_take mem)
    · have small := h.small
      rw [length_map, length_take]
      omega
  promised := by
    intro lsn mem
    have bound := covers lsn mem
    rw [length_take]
    omega

theorem Opened.held {r : Recovered M} {positive : 0 < limit}
    (opened : Opened j (.down limit positive) history promised r base f fs) :
    Held j limit (.running 0) (history.take r.lsn) promised [] fs (.start r)
      .head := by
  have length : (history.take r.lsn).length = r.lsn := by
    rw [length_take, min_eq_left opened.high]
  have agree : (history.take r.lsn).take r.lsn = history.take r.lsn := by
    rw [take_take, min_self]
  have cut : ∀ m ≤ r.lsn, logBytes j.xxh3 (history.take r.lsn) (base r.current.lastLog) m =
      logBytes j.xxh3 history (base r.current.lastLog) m :=
    fun m order => logBytes_congr agree order
  have data : f.data = logBytes j.xxh3 (history.take r.lsn) (base r.current.lastLog)
      (history.take r.lsn).length := by
    rw [length, cut _ (le_refl _)]
    exact opened.log
  have last : LastLog j.xxh3 (history.take r.lsn) base promised fs r.current.lastLog f := by
    refine ⟨opened.ready.last.slot, ?_, ?_, fun lsn mem => ?_⟩
    · rw [← data]
    · rw [← data]
      exact opened.grows
    · rw [cut lsn (opened.promised lsn mem)]
      exact opened.ready.last.kept lsn mem
  have backed := opened.ready.backed
  have low := opened.low
  refine ⟨base, f, ⟨opened.garbage, ?_, ?_⟩, ?_, fun _ => backed.admitted.1⟩
  · refine ⟨last, opened.grows, opened.low, le_of_eq length.symm, fun _ => ⟨length.symm, ?_⟩,
      nofun⟩
    rw [data, length]
    rfl
  · exact
      { next := length.symm
        offset := by
          change r.offset = _
          rw [opened.offset, data]
          rfl
        machine := Machine.reflects_congr agree opened.machine
        pending := nofun
        durable := forall_mem_nil _
        sync := nofun
        replied := forall_mem_nil _
        called := forall_mem_nil _
        barrier := nofun
        waiting := forall_mem_nil _
        covered := forall_mem_nil _ }
  · refine ⟨opened.ready.current, (backed.extend ?_ ?_).widen ⟨backed.valid.few_logs, zero_le _⟩,
      rfl⟩
    · rw [take_take, min_eq_left low]
    · omega

/-! ## Rotation -/

theorem Rotating.failed (h : Rotating j window history promised base fs calls w items (.ret none)) :
    Held j limit window history promised calls fs w .stopped := by
  obtain ⟨-, f, ready, data, grows⟩ := h.safe.result
  refine ⟨base, f, history.length, ⟨ready.last, grows, ready.backed.inside, le_refl _,
    fun _ => ⟨rfl, data⟩, ?_⟩, ?_⟩
  · rw [h.idle.1]
    nofun
  · rw [h.idle.2.2.2]
    exact ⟨ready.current, ready.backed, rfl⟩

theorem Rotating.rotated {g : Nat}
    (h : Rotating j window history promised base fs calls w items (.ret (some (c, g)))) :
    Held j limit window history promised calls fs (w.rotated j.xxh3 items c g)
      (w.rotated j.xxh3 items c g).settle := by
  obtain ⟨rfl, rfl, ready⟩ := h.safe.result
  have last : w.current.withLog.lastLog = w.current.lastLog + 1 := Current.lastLog_withLog _
  have all : rotateBase base w.current history.length w.current.withLog.lastLog =
      history.length := by
    rw [last]
    exact Function.update_self ..
  have older : w.current.withLog.snapshot < w.current.withLog.lastLog := by
    have pending := ready.backed.pending (by rw [Current.withLog]; exact succ_ne_zero _)
    rw [last]
    exact pending
  have empty : logBytes j.xxh3 history history.length history.length = [] := by
    rw [logBytes, drop_eq_nil_of_le (by rw [take_length])]
    rfl
  have single : Single j.xxh3 (Standing j window history
      (rotateBase base w.current history.length) w.current.withLog.lastLog) fs w.current.withLog :=
    ⟨ready.current, ready.backed, rfl⟩
  have rebuilt : ∀ bodies, items = bodies.map .ok →
      Rebuilt j.initial j.same history history.length bodies := by
    intro bodies ok good
    obtain ⟨s, run, alike⟩ := h.level.machine (by rw [h.whole]; exact good)
    rw [h.whole] at run
    have snapshot := h.items
    rw [ok] at snapshot
    obtain ⟨u, restored, alike'⟩ := good.rebuilds.restore _ _ _ _ run alike snapshot
    exact ⟨s, u, run, restored, alike'⟩
  have alive : Alive j history promised (rotateBase base w.current history.length) fs
      calls (w.rotated j.xxh3 items w.current.withLog (w.current.lastLog + 1)) ⟨[], []⟩ := by
    refine ⟨h.clean, ?_, ?_⟩
    · change Appends j history promised _ fs w.current.withLog.lastLog w.write w.lsn _
      rw [h.idle.1, h.whole]
      refine ⟨ready.last, prefix_refl _, le_of_eq all, le_refl _, fun _ => ⟨rfl, ?_⟩,
        fun _ absurd => by cases absurd⟩
      rw [all, empty]
    · exact
        { h.level with
          offset := by
            change 0 = (logBytes j.xxh3 history (rotateBase base w.current history.length
              w.current.withLog.lastLog) history.length).length
            rw [all, empty]
            rfl
          pending := by
            change ∀ batch, w.write = some batch → _
            rw [h.idle.1]
            intro _ absurd
            cases absurd
          sync := by
            change ∀ batch, w.sync = some batch → _
            rw [h.idle.2.1]
            intro _ absurd
            cases absurd
          waiting := forall_mem_nil _
          covered := by
            intro seen mem
            change Below (rotateBase base w.current history.length w.current.withLog.lastLog) seen
            rw [all, ← h.whole]
            exact h.level.waiting seen mem }
  refine held_settle alive ⟨items, older, le_of_eq all, ?_, ?_, spares_writeSnapshot ..⟩
    fun absurd => by cases absurd
  · intro bodies ok
    change Rebuilt j.initial j.same history (rotateBase base w.current history.length
      w.current.withLog.lastLog) bodies
    rw [all]
    exact rebuilt bodies ok
  · refine (safe_writeSnapshot single ?_).mono (fun _ kept => kept) fun r fs result => ?_
    · omega
    · refine ⟨result.1, fun s some => ?_⟩
      obtain ⟨generation, lsn, finished⟩ := result.2 s some
      exact ⟨generation.trans last.symm, (lsn.trans h.whole).trans all.symm, finished⟩

/-! ## Snapshots -/

include h in
theorem Alive.congr (slot : fs' (.journal w.current.lastLog) = fs (.journal w.current.lastLog)) :
    Alive j history promised base fs' calls w f :=
  { h with appends := { h.appends with last := h.appends.last.congr slot } }

/-- A step of the snapshot keeps what it is to hold, and the log it may not touch. -/
theorem Snapshotting.step {p p' : Prog Name (Option Snapshot)}
    (h : Snapshotting j window history base fs c items p)
    (durable : (fs (.journal c.lastLog)).old = []) (step : Prog.Step p fs p' fs') :
    Snapshotting j window history base fs' c items p' ∧
      fs' (.journal c.lastLog) = fs (.journal c.lastLog) := by
  obtain ⟨spares, slot⟩ := h.spares.step step durable
  exact ⟨{ h with safe := h.safe.step step, spares := spares }, slot⟩

theorem Publishing.step {p p' : Prog Name (Option Current)}
    (h : Publishing j window history base fs c p)
    (durable : (fs (.journal c.lastLog)).old = []) (step : Prog.Step p fs p' fs') :
    Publishing j window history base fs' c p' ∧
      fs' (.journal c.lastLog) = fs (.journal c.lastLog) := by
  obtain ⟨spares, slot⟩ := h.spares.step step durable
  exact ⟨⟨h.safe.step step, spares⟩, slot⟩

theorem Snapshotting.publish {s : Snapshot}
    (h : Snapshotting j window history base fs c items (.ret (some s)))
    (clean : c.garbage = []) (short : history.length < 2 ^ 64) :
    Publishing j window history base fs c (publishSnapshot j.xxh3 c s) := by
  obtain ⟨single, result⟩ := h.safe.result
  obtain ⟨generation, lsn, bodies, finished⟩ := result s rfl
  have rebuilt := h.rebuilt bodies finished.items
  rw [← lsn] at rebuilt
  refine ⟨?_, spares_publishSnapshot clean generation⟩
  refine (safe_publishSnapshot clean generation h.newer lsn short finished rebuilt single).mono
    (fun _ kept => kept) fun r fs result => ?_
  refine ⟨_, result.1, rfl, ?_, lsn, result.2⟩
  rw [logs_withSnapshot single.2.1.valid generation]
  rfl

include alive in
theorem Alive.published {c' : Current}
    (publishing : Publishing j (.running floor) history base fs w.current
      (.ret (some c'))) (no_task : w.checkpoint = none) (positive : 0 < limit) :
    floor ≤ c'.lsn ∧ (∀ seen ∈ w.checkpointCompletion.getD [], Below c'.lsn seen) ∧
      Held j limit (.running c'.lsn) history promised calls fs
        { w with
          current := c'
          checkpointCompletion := none
          completed := w.checkpointCompletion.getD [] ++ w.completed } .head := by
  obtain ⟨_, named, clean, _, lsn, current, backed, last⟩ := publishing.safe.result
  cases named
  refine ⟨backed.admitted.2, ?_, base, f, ⟨clean, ?_, ?_⟩, ?_, fun _ => ?_⟩
  · rw [lsn]
    exact alive.level.covered
  · rw [last]
    exact alive.appends
  · refine { alive.level with offset := ?_, sync := ?_, covered := forall_mem_nil _ }
    · rw [last]
      exact alive.level.offset
    · rw [last]
      exact alive.level.sync
  · rw [no_task]
    exact ⟨current, backed.widen ⟨backed.valid.few_logs, le_refl _⟩, rfl⟩
  · change c'.logs.length ≤ limit
    omega

end Talon.Journal
