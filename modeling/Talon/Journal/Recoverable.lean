import Talon.Journal.History

/-!
# Directories a journal can be recovered from

`Backed`: the snapshot of a manifest and all its logs but the last are durable and hold the records
they should.  `LastLog`: the last log holds a prefix of the remaining records that covers what was
promised, and so does its durable part.  `Recoverable`: every manifest that may be found after a
crash has both. `base g` is the number of records before the log of generation `g`, and a `Window`
is what is known of the manifests besides.
-/

set_option autoImplicit false

namespace Talon.Journal

open Wire CrashFs List Nat

/-- How many logs a manifest may name, which records its snapshot covers at least, and whether there
may be none at all. -/
structure Window where
  limit : Nat
  floor : Nat
  fresh : Bool
  start : fresh = true → 1 ≤ limit ∧ floor = 0

def Window.Admits (window : Window) (c : Current) : Prop :=
  c.logs.length ≤ window.limit ∧ window.floor ≤ c.lsn

/-- What a stream is held to: its hash, the state it starts from, and which states pass for the
same. -/
structure Terms (M : Machine) where
  xxh3 : Hash
  initial : M.State
  same : M.State → M.State → Prop

section Predicates

variable (xxh3 : Hash) {M : Machine}

/-- The frames of the records with LSNs above `first` and up to `stop`. -/
def logBytes (history : List (Entry M)) (first stop : Nat) : Bytes :=
  frames xxh3 first (((history.take stop).drop first).map Entry.bytes)

variable (initial : M.State) (same : M.State → M.State → Prop)

/-- A snapshot file from which the first `lsn` records can be rebuilt. -/
def Rebuilt (history : List (Entry M)) (lsn : Nat) (items : List Bytes) : Prop :=
  M.Good initial same (history.take lsn) →
    ∃ s u, M.run initial (history.take lsn) = .ok s ∧ M.restoreAll initial items = .ok u ∧ same s u

variable (j : Terms M) (window : Window)

structure Backed (history : List (Entry M)) (base : Nat → Nat) (fs : Fs Name) (c : Current) :
    Prop where
  valid : c.Valid
  admitted : window.Admits c
  pending : c.pending ≠ 0 → c.snapshot < c.pending
  lsn : c.lsn = base c.snapshot
  snapshot : ∃ items, fs (.snapshot c.snapshot) = .settled (frames j.xxh3 0 items) ∧
    (frames j.xxh3 0 items).length = c.bytes ∧ items.length = c.records ∧ Numbered 0 items ∧
    Rebuilt j.initial j.same history c.lsn items
  order : ∀ g, c.snapshot ≤ g → g < c.lastLog → base g ≤ base (g + 1)
  inside : base c.lastLog ≤ history.length
  logs : ∀ g, c.snapshot ≤ g → g < c.lastLog →
    fs (.journal g) = .settled (logBytes j.xxh3 history (base g) (base (g + 1)))

structure LastLog (history : List (Entry M)) (base : Nat → Nat) (promised : List Nat)
    (fs : Fs Name) (g : Nat) (f : File) : Prop where
  slot : fs (.journal g) = ⟨some f, []⟩
  data : f.data <+: logBytes xxh3 history (base g) history.length
  disk : f.disk <+: logBytes xxh3 history (base g) history.length
  kept : ∀ lsn ∈ promised, logBytes xxh3 history (base g) lsn <+: f.disk ∧
    logBytes xxh3 history (base g) lsn <+: f.data

/-- What a possible binding of `CURRENT` says; without one the stream starts afresh. -/
def Named (history : List (Entry M)) (base : Nat → Nat) (promised : List Nat) (fs : Fs Name) :
    Option File → Prop
  | none => history = [] ∧ window.fresh = true
  | some file => ∃ c f, file.disk = file.data ∧ c.encode j.xxh3 = .ok file.data ∧
      Backed j window history base fs c ∧
      LastLog j.xxh3 history base promised fs c.lastLog f

def Recoverable (history : List (Entry M)) (promised : List Nat) (fs : Fs Name) : Prop :=
  ∃ base, ∀ b, (fs .current).Possible b → Named j window history base promised fs b

end Predicates

variable {g : Nat}

section Lemmas

variable {xxh3 : Hash} {M : Machine} {j : Terms M}
  {window : Window} {history : List (Entry M)} {base : Nat → Nat} {promised : List Nat}
  {fs fs' : Fs Name} {c : Current}

theorem Current.Valid.lastLog (h : c.Valid) : c.lastLog + 1 = c.snapshot + c.logs.length := by
  obtain ⟨count, length⟩ := exists_eq_succ_of_ne_zero (pos_iff_ne_zero.mp h.some_log)
  have logs := h.logs
  rw [length] at logs
  have last : c.logs.getLast? = some (c.snapshot + count) := by
    rw [logs, range'_concat, one_mul, getLast?_concat]
  rw [Current.lastLog, last, Option.getD_some]
  omega

theorem Current.Valid.snapshot_le (h : c.Valid) : c.snapshot ≤ c.lastLog := by
  have last := h.lastLog
  have positive := h.some_log
  omega

theorem valid_first : firstCurrent.Valid where
  logs := rfl
  some_log := one_pos
  few_logs := by decide
  few_garbage := by decide
  snapshot := one_pos
  generations := by decide
  lsn := by decide
  bytes := by decide
  records := by decide
  pending := .inl rfl
  garbage := forall_mem_nil _

theorem logBytes_congr {history' : List (Entry M)} {first stop n : Nat}
    (agree : history'.take n = history.take n) (inside : stop ≤ n) :
    logBytes xxh3 history' first stop = logBytes xxh3 history first stop := by
  have cut : history'.take stop = history.take stop := by
    have := congrArg (take stop) agree
    rwa [take_take, take_take, min_eq_left inside] at this
  rw [logBytes, logBytes, cut]

variable (xxh3) in
theorem logBytes_prefix (history : List (Entry M)) (first : Nat) {stop stop' : Nat}
    (order : stop ≤ stop') :
    logBytes xxh3 history first stop <+: logBytes xxh3 history first stop' := by
  have cut : (history.take stop).drop first = ((history.take stop').drop first).take
      (stop - first) := by
    rw [drop_take, drop_take, take_take, min_eq_left (by omega)]
  obtain ⟨_, whole⟩ := take_prefix (stop - first) ((history.take stop').drop first)
  rw [logBytes, logBytes, cut]
  nth_rewrite 2 [← whole]
  rw [map_append, frames_append]
  exact prefix_append _ _

section

variable (h : Backed j window history base fs c)
include h

theorem Backed.base_le {g' : Nat} (low : c.snapshot ≤ g) (order : g ≤ g') (high : g' ≤ c.lastLog) :
    base g ≤ base g' := by
  induction g', order using le_induction with
  | base => exact le_refl _
  | succ g' _ ih =>
    have step := h.order g' (by omega) (by omega)
    have before := ih (by omega)
    omega

theorem Backed.decode {b : Bytes} (encoded : c.encode j.xxh3 = .ok b) :
    Current.decode j.xxh3 b = .ok c := by
  obtain ⟨_, encoded', decoded, -⟩ := h.valid.decode_encode j.xxh3
  rw [encoded] at encoded'
  cases encoded'
  exact decoded

theorem Backed.congr (snapshot : fs' (.snapshot c.snapshot) = fs (.snapshot c.snapshot))
    (logs : ∀ g, c.snapshot ≤ g → g < c.lastLog → fs' (.journal g) = fs (.journal g)) :
    Backed j window history base fs' c where
  __ := h
  snapshot := by
    rw [snapshot]
    exact h.snapshot
  logs := fun g low high => (logs g low high).trans (h.logs g low high)

theorem Backed.extend {history' : List (Entry M)}
    (agree : history'.take (base c.lastLog) = history.take (base c.lastLog))
    (inside : base c.lastLog ≤ history'.length) : Backed j window history' base fs c where
  __ := h
  snapshot := by
    obtain ⟨items, slot, bytes, records, numbered, rebuilt⟩ := h.snapshot
    have below : c.lsn ≤ base c.lastLog := by
      rw [h.lsn]
      exact h.base_le (le_refl _) h.valid.snapshot_le (le_refl _)
    have cut : history'.take c.lsn = history.take c.lsn := by
      have := congrArg (take c.lsn) agree
      rwa [take_take, take_take, min_eq_left below] at this
    refine ⟨items, slot, bytes, records, numbered, ?_⟩
    rw [Rebuilt, cut]
    exact rebuilt
  inside := inside
  logs := by
    intro g low high
    have next := h.base_le (g := g + 1) (by omega) (by omega) (le_refl _)
    rw [h.logs g low high, logBytes_congr agree next]

theorem Backed.rebase {base' : Nat → Nat}
    (agree : ∀ g, c.snapshot ≤ g → g ≤ c.lastLog → base' g = base g) :
    Backed j window history base' fs c where
  __ := h
  lsn := by
    rw [agree c.snapshot (le_refl _) h.valid.snapshot_le]
    exact h.lsn
  order := by
    intro g low high
    rw [agree g low (by omega), agree (g + 1) (by omega) high]
    exact h.order g low high
  inside := by
    rw [agree c.lastLog h.valid.snapshot_le (le_refl _)]
    exact h.inside
  logs := by
    intro g low high
    rw [agree g low (by omega), agree (g + 1) (by omega) high]
    exact h.logs g low high

theorem Backed.cleared :
    Backed j window history base fs { c with garbage := [], pending := 0 } where
  __ := h
  valid :=
    { h.valid with
      few_garbage := zero_le _
      pending := .inl rfl
      garbage := forall_mem_nil _ }
  pending := fun absurd => (absurd rfl).elim

theorem Backed.syncDir : Backed j window history base (fs.syncDir root) c := by
  apply h.congr
  · obtain ⟨_, slot, -⟩ := h.snapshot
    change (fs _).settle = _
    rw [slot]
    rfl
  · intro g low high
    change (fs _).settle = _
    rw [h.logs g low high]
    rfl

theorem Backed.crash (lost : ∀ name, (fs name).Crash (fs' name)) :
    Backed j window history base fs' c := by
  apply h.congr
  · obtain ⟨_, slot, -⟩ := h.snapshot
    have left := lost (.snapshot c.snapshot)
    rw [slot] at left ⊢
    exact left.of_settled
  · intro g low high
    have left := lost (.journal g)
    rw [h.logs g low high] at left ⊢
    exact left.of_settled

end

theorem LastLog.congr {f : File} (h : LastLog xxh3 history base promised fs g f)
    (slot : fs' (.journal g) = fs (.journal g)) : LastLog xxh3 history base promised fs' g f :=
  { h with slot := slot.trans h.slot }

theorem LastLog.contents {f : File} (h : LastLog xxh3 history base promised fs g f) :
    fs.contents (.journal g) = some f.data := by
  rw [Fs.contents, h.slot]
  rfl

theorem LastLog.present {f : File} (h : LastLog xxh3 history base promised fs g f) :
    (fs (.journal g)).now ≠ none := by
  rw [h.slot]
  exact Option.some_ne_none f

theorem LastLog.syncDir {f : File} (h : LastLog xxh3 history base promised fs g f) :
    LastLog xxh3 history base promised (fs.syncDir root) g f := by
  apply h.congr
  change (fs _).settle = _
  rw [h.slot]
  rfl

theorem LastLog.crash {f : File} (h : LastLog xxh3 history base promised fs g f)
    (lost : ∀ name, (fs name).Crash (fs' name)) :
    ∃ f', LastLog xxh3 history base promised fs' g f' ∧ f'.disk = f'.data := by
  have left := lost (.journal g)
  rw [h.slot] at left
  rcases left with ⟨possible, -⟩ | ⟨file, left, possible, survives, slot⟩
  · simp [Slot.Possible] at possible
  · simp only [Slot.Possible, Option.some.injEq, not_mem_nil, or_false] at possible
    subst possible
    have between : left <+: logBytes xxh3 history (base g) history.length ∧
        ∀ lsn ∈ promised, logBytes xxh3 history (base g) lsn <+: left := by
      unfold File.Survives at survives
      split at survives
      · exact ⟨survives.2.trans h.data, fun lsn mem => (h.kept lsn mem).1.trans survives.1⟩
      · rename_i shorter
        have order := (List.prefix_or_prefix_of_prefix h.data h.disk).resolve_right shorter
        rw [if_pos order] at survives
        exact ⟨survives.2.trans h.disk, fun lsn mem => (h.kept lsn mem).2.trans survives.1⟩
    exact ⟨⟨left, left⟩, ⟨slot, between.1, between.1, fun lsn mem =>
      ⟨between.2 lsn mem, between.2 lsn mem⟩⟩, rfl⟩

structure Ready {M : Machine} (j : Terms M)
    (window : Window) (history : List (Entry M)) (base : Nat → Nat) (promised : List Nat)
    (fs : Fs Name)
    (c : Current) (f : File) : Prop where
  current : ∃ b, c.encode j.xxh3 = .ok b ∧ fs .current = .settled b
  backed : Backed j window history base fs c
  last : LastLog j.xxh3 history base promised fs c.lastLog f

/-- The names of a manifest's recovery set. -/
inductive Needs (c : Current) : Name → Prop
  | current : Needs c .current
  | snapshot : Needs c (.snapshot c.snapshot)
  | journal (g : Nat) (low : c.snapshot ≤ g) (high : g ≤ c.lastLog) : Needs c (.journal g)

theorem Needs.snapshot_eq (h : Needs c (.snapshot g)) : g = c.snapshot := by
  generalize same : Name.snapshot g = n at h
  cases h <;> cases same
  rfl

theorem Needs.journal_le (h : Needs c (.journal g)) : c.snapshot ≤ g ∧ g ≤ c.lastLog := by
  generalize same : Name.journal g = n at h
  cases h <;> cases same
  rename_i low high
  exact ⟨low, high⟩

variable {f : File}

section

variable (h : Ready j window history base promised fs c f)
include h

theorem Ready.recoverable : Recoverable j window history promised fs := by
  obtain ⟨b, encoded, slot⟩ := h.current
  refine ⟨base, fun found possible => ?_⟩
  rw [slot] at possible
  simp only [Slot.settled, Slot.Possible, not_mem_nil, or_false] at possible
  subst possible
  exact ⟨c, f, rfl, encoded, h.backed, h.last⟩

theorem Ready.congr (agree : ∀ n, Needs c n → fs' n = fs n) :
    Ready j window history base promised fs' c f where
  current := by
    rw [agree .current .current]
    exact h.current
  backed := h.backed.congr (agree _ .snapshot) fun g low high =>
    agree _ (.journal g low (le_of_lt high))
  last := h.last.congr (agree _ (.journal c.lastLog h.backed.valid.snapshot_le (le_refl _)))

theorem Ready.update {n : Name} (spare : ¬ Needs c n) (s : Slot) :
    Ready j window history base promised (Function.update fs n s) c f := by
  refine h.congr fun m needed => Function.update_of_ne ?_ _ _
  rintro rfl
  exact spare needed

theorem Ready.syncDir : Ready j window history base promised (fs.syncDir root) c f where
  current := by
    obtain ⟨b, encoded, slot⟩ := h.current
    refine ⟨b, encoded, ?_⟩
    change (fs _).settle = _
    rw [slot]
    rfl
  backed := h.backed.syncDir
  last := h.last.syncDir

end

/-- The files that `c` lists as left over are not needed by a manifest that may come back. -/
def Harmless (xxh3 : Hash) (c : Current) : Option File → Prop
  | none => True
  | some file => ∀ c', Current.decode xxh3 file.data = .ok c' → ∀ n ∈ leftovers c, ¬Needs c' n

/-- `CURRENT` names `c`, which may not be durable: then the earlier manifests are there as well. -/
structure Resumes {M : Machine} (j : Terms M)
    (window : Window) (history : List (Entry M)) (base : Nat → Nat) (promised : List Nat)
    (fs : Fs Name)
    (c : Current) (f : File) : Prop where
  current : ∃ b, c.encode j.xxh3 = .ok b ∧ (fs .current).now = some ⟨b, b⟩
  older : ∀ b ∈ (fs .current).old,
    Named j window history base promised fs b ∧ Harmless j.xxh3 c b
  backed : Backed j window history base fs c
  last : LastLog j.xxh3 history base promised fs c.lastLog f

theorem Ready.resumes (h : Ready j window history base promised fs c f) :
    Resumes j window history base promised fs c f := by
  obtain ⟨b, encoded, slot⟩ := h.current
  refine ⟨⟨b, encoded, by rw [slot]; rfl⟩, ?_, h.backed, h.last⟩
  rw [slot]
  exact forall_mem_nil _

theorem Resumes.recoverable (h : Resumes j window history base promised fs c f) :
    Recoverable j window history promised fs := by
  obtain ⟨b, encoded, now⟩ := h.current
  refine ⟨base, fun found possible => ?_⟩
  rcases possible with rfl | old
  · rw [now]
    exact ⟨c, f, rfl, encoded, h.backed, h.last⟩
  · exact (h.older found old).1

theorem Resumes.syncDir (h : Resumes j window history base promised fs c f) :
    Ready j window history base promised (fs.syncDir root) c f where
  current := by
    obtain ⟨b, encoded, now⟩ := h.current
    refine ⟨b, encoded, ?_⟩
    change (fs _).settle = _
    rw [Slot.settle, now]
    rfl
  backed := h.backed.syncDir
  last := h.last.syncDir

/-- What recovery starts from: no manifest, or one whose last log has only been appended to. -/
def Startable {M : Machine} (j : Terms M)
    (window : Window) (history : List (Entry M)) (promised : List Nat) (fs : Fs Name) : Prop :=
  (fs .current = ⟨none, []⟩ ∧ history = [] ∧ window.fresh = true) ∨
    ∃ base c f, Resumes j window history base promised fs c f ∧ f.disk <+: f.data

/-- A process may end here and leave its files as they are: the log that `CURRENT` names last has no
unsynced truncation, and an earlier manifest that may come back needs none of its left over files.
-/
structure Resumable (xxh3 : Hash) (fs : Fs Name) : Prop where
  log : ∀ file c f, (fs .current).now = some file → Current.decode xxh3 file.data = .ok c →
    (fs (.journal c.lastLog)).now = some f → f.disk <+: f.data
  older : ∀ b ∈ (fs .current).old, ∃ file c, (fs .current).now = some file ∧
    Current.decode xxh3 file.data = .ok c ∧ Harmless xxh3 c b

theorem Startable.recoverable (h : Startable j window history promised fs) :
    Recoverable j window history promised fs := by
  rcases h with ⟨slot, fresh⟩ | ⟨_, c, f, resumes, -⟩
  · refine ⟨fun _ => 0, fun b possible => ?_⟩
    rw [slot] at possible
    simp only [Slot.Possible, not_mem_nil, or_false] at possible
    subst possible
    exact fresh
  · exact resumes.recoverable

theorem Recoverable.crash (h : Recoverable j window history promised fs)
    (lost : ∀ name, (fs name).Crash (fs' name)) : Startable j window history promised fs' := by
  obtain ⟨base, named⟩ := h
  rcases lost .current with ⟨possible, slot⟩ | ⟨file, _, possible, survives, slot⟩
  · exact .inl ⟨slot, named none possible⟩
  · obtain ⟨c, f, synced, encoded, backed, last⟩ := named (some file) possible
    obtain ⟨f', last', settled⟩ := last.crash lost
    rw [(File.survives_synced synced).mp survives] at slot
    have ready : Ready j window history base promised fs' c f' :=
      ⟨⟨file.data, encoded, slot⟩, backed.crash lost, last'⟩
    exact .inr ⟨base, c, f', ready.resumes, by rw [settled]⟩

theorem Recoverable.kill (h : Recoverable j window history promised fs)
    (resumable : Resumable j.xxh3 fs) : Startable j window history promised fs := by
  obtain ⟨base, named⟩ := h
  cases now : (fs .current).now with
  | none =>
    refine .inl ⟨?_, named none (.inl now.symm)⟩
    have none_older : (fs .current).old = [] := by
      rw [eq_nil_iff_forall_not_mem]
      intro b old
      obtain ⟨_, _, some_now, -⟩ := resumable.older b old
      rw [now] at some_now
      cases some_now
    rw [← now, ← none_older]
  | some file =>
    obtain ⟨c, f, synced, encoded, backed, last⟩ := named (some file) (.inl now.symm)
    have decoded := backed.decode encoded
    refine .inr ⟨base, c, f,
      ⟨⟨file.data, encoded, ?_⟩, fun b old => ⟨named b (.inr old), ?_⟩, backed,
      last⟩, ?_⟩
    · rw [now, ← congrArg (File.mk file.data) synced]
    · obtain ⟨_, _, now', decoded', harmless⟩ := resumable.older b old
      rw [now] at now'
      cases now'
      rw [decoded] at decoded'
      cases decoded'
      exact harmless
    · exact resumable.log file c f now decoded (by rw [last.slot])

end Lemmas

end Talon.Journal
