import Talon.Journal.Recoverable

/-!
# Recovery of a journal

`safe_recover`: from a directory that a process or a machine left behind, recovery keeps the
directory recoverable at every point and returns the machine after a prefix of the history that
covers every promise.
-/

set_option autoImplicit false

namespace Talon.Journal

open Wire CrashFs CrashFs.Prog List Function Nat
open Slot (settle)

variable {xxh3 : Hash} {M : Machine} {initial : M.State} {same : M.State → M.State → Prop}
  {j : Terms M}
  {window : Window} {history : List (Entry M)} {base : Nat → Nat} {promised : List Nat}
  {fs fs' : Fs Name} {c : Current}

structure History (history : List (Entry M)) (promised : List Nat) : Prop where
  numbered : Numbered 0 (history.map Entry.bytes)
  promised : ∀ lsn ∈ promised, lsn ≤ history.length

theorem History.small (h : History history promised) : history.length < 2 ^ 64 := by
  have := h.numbered.fits
  rw [length_map] at this
  omega

variable {first stop : Nat} {t : M.State}

theorem History.numbered_log (h : History history promised) (order : first ≤ stop)
    (inside : stop ≤ history.length) :
    Numbered first (((history.take stop).drop first).map Entry.bytes) where
  small := by
    intro _ mem
    apply h.numbered.small
    obtain ⟨e, entry, rfl⟩ := mem_map.mp mem
    exact mem_map_of_mem (mem_of_mem_take (mem_of_mem_drop entry))
  fits := by
    have := h.small
    rw [length_map, length_drop, length_take]
    omega

/-! ## Reading the logs -/

section

variable (h : History history promised)
include h

variable {tailOk : Bool} {torn : Bytes}

theorem read_log_end (order : first ≤ stop) (inside : stop ≤ history.length)
    (tail : (tailOk = true ∧ Torn xxh3 torn) ∨ torn = []) {out : Nat × Nat × M.State}
    (reading : read xxh3 tailOk M.decode (visitLog M) (logBytes xxh3 history first stop ++ torn)
      (first, t) = .ok out) :
    ∃ u, out = ((logBytes xxh3 history first stop).length, stop, u) ∧
      M.Replays history first t stop u := by
  have numbered := h.numbered_log order inside
  have small := h.small
  have count : (((history.take stop).drop first).map Entry.bytes).length = stop - first := by
    rw [length_map, length_drop, length_take]
    omega
  have framed := reading
  rw [read, logBytes, frames_eq] at framed
  obtain ⟨records, each⟩ := readFrom_written_ok tail numbered.framed framed
  have decoded := forall₂_number.mp each
  have length := decoded.length_eq
  rw [count] at length
  rw [logBytes, read_frames tail (visitLog M) numbered decoded,
    foldlM_visitLog _ _ (by omega)] at reading
  cases replayed : M.replay first t records with
  | error =>
    rw [replayed] at reading
    cases reading
  | ok u =>
    rw [replayed, ← length, Nat.add_sub_cancel' order] at reading
    rw [forall₂_map_left_iff] at decoded
    exact ⟨u, (Except.ok.inj reading).symm, records, decoded, replayed⟩

theorem read_log (order : first ≤ stop) (inside : stop ≤ history.length)
    (tail : (tailOk = true ∧ Torn xxh3 torn) ∨ torn = [])
    (good : M.Good initial same (history.take stop))
    (before : M.Reflects initial same history first t) :
    ∃ s u, M.run initial (history.take stop) = .ok s ∧ same s u ∧
      read xxh3 tailOk M.decode (visitLog M) (logBytes xxh3 history first stop ++ torn) (first, t) =
        .ok ((logBytes xxh3 history first stop).length, stop, u) := by
  obtain ⟨s, run, alike⟩ := before (good.shorter order)
  obtain ⟨s', whole⟩ := good.accepted.runs
  have within : first ≤ (history.take stop).length := by
    rw [length_take]
    omega
  obtain ⟨_, front, rest⟩ := Machine.run_split whole within
  rw [take_take, Nat.min_eq_left order, run] at front
  cases front
  obtain ⟨u, replayed, final⟩ := good.rebuilds.replay alike rest
  have count : (((history.take stop).drop first).map Entry.record).length = stop - first := by
    rw [length_map, length_drop, length_take]
    omega
  have decoded : List.Forall₂ (fun body record => M.decode body = .ok record)
      (((history.take stop).drop first).map Entry.bytes)
      (((history.take stop).drop first).map Entry.record) := by
    rw [forall₂_map_left_iff, forall₂_map_right_iff, forall₂_same]
    intro e mem
    exact good.accepted.decodes e (mem_of_mem_drop mem)
  have small := h.small
  refine ⟨s', u, whole, final, ?_⟩
  rw [logBytes, read_frames tail (visitLog M) (h.numbered_log order inside) decoded,
    foldlM_visitLog _ _ (by rw [count]; omega), replayed, count]
  change Except.ok (_, first + (stop - first), u) = _
  rw [Nat.add_sub_cancel' order]

theorem read_log_cases (order : first ≤ stop) (inside : stop ≤ history.length)
    (tail : (tailOk = true ∧ Torn xxh3 torn) ∨ torn = [])
    (before : M.Reflects initial same history first t) :
    (∃ e, read xxh3 tailOk M.decode (visitLog M) (logBytes xxh3 history first stop ++ torn)
        (first, t) = .error e ∧ ¬ M.Good initial same history) ∨
      ∃ u, read xxh3 tailOk M.decode (visitLog M) (logBytes xxh3 history first stop ++ torn)
        (first, t) = .ok ((logBytes xxh3 history first stop).length, stop, u) ∧
        M.Reflects initial same history stop u ∧ M.Replays history first t stop u := by
  cases reading : read xxh3 tailOk M.decode (visitLog M) (logBytes xxh3 history first stop ++ torn)
      (first, t) with
  | error e =>
    refine .inl ⟨e, rfl, fun good => ?_⟩
    obtain ⟨s, u, -, -, whole⟩ := read_log h order inside tail (good.take stop) before
    rw [reading] at whole
    cases whole
  | ok =>
    obtain ⟨u, rfl, replayed⟩ := read_log_end h order inside tail reading
    refine .inr ⟨u, rfl, fun good => ?_, replayed⟩
    obtain ⟨s, _, run, alike, whole⟩ := read_log h order inside tail good before
    rw [reading] at whole
    cases whole
    exact ⟨s, run, alike⟩

theorem LastLog.recovered {g : Nat} {f : File} (last : LastLog xxh3 history base promised fs g f)
    (inside : base g ≤ history.length) :
    ∃ n torn, base g ≤ n ∧ n ≤ history.length ∧
      f.data = logBytes xxh3 history (base g) n ++ torn ∧ Torn xxh3 torn ∧
      (∀ lsn ≤ history.length, logBytes xxh3 history (base g) lsn <+: f.data → lsn ≤ n) ∧
      ∀ lsn ∈ promised, lsn ≤ n := by
  have cut : ∀ n, ((history.take n).drop (base g)).map Entry.bytes =
      (((history.take history.length).drop (base g)).map Entry.bytes).take (n - base g) := by
    intro n
    rw [take_length, drop_take, map_take]
  have length : (((history.take history.length).drop (base g)).map Entry.bytes).length =
      history.length - base g := by
    rw [take_length, length_map, length_drop]
  have numbered := h.numbered_log inside (le_refl history.length)
  have part := last.data
  rw [logBytes, frames_eq] at part
  obtain ⟨k, few, torn, data, cutOff, most⟩ := written_of_prefix numbered.framed part
  rw [length_number, length] at few most
  simp only [take_number, ← frames_eq] at data most
  have whole : ∀ lsn ≤ history.length, logBytes xxh3 history (base g) lsn <+: f.data →
      lsn ≤ base g + k := by
    intro lsn _ kept
    rw [logBytes, cut] at kept
    have covered := most (lsn - base g) (by omega) kept
    omega
  refine ⟨base g + k, torn, le_add_right _ _, by omega, ?_, cutOff, whole, ?_⟩
  · rw [data, logBytes, cut (base g + k), Nat.add_sub_cancel_left]
  · exact fun lsn mem => whole lsn (h.promised lsn mem) (last.kept lsn mem).2

theorem safe_replayLogs (backed : Backed j window history base fs c) {f : File}
    (last : LastLog j.xxh3 history base promised fs c.lastLog f) {n : Nat}
    (low : base c.lastLog ≤ n) (high : n ≤ history.length)
    (data : f.data = logBytes j.xxh3 history (base c.lastLog) n ++ torn) (cut : Torn j.xxh3 torn)
    {C : Fs Name → Prop} {Q : Option (Nat × Nat × M.State) → Fs Name → Prop} (crash : C fs)
    (failed : ¬ M.Good j.initial j.same history → Q none fs) (count g offset : Nat)
    (from_snapshot : c.snapshot ≤ g) (to_last : g + count = c.lastLog)
    (before : M.Reflects j.initial j.same history (base g) t)
    (ended : ∀ u, M.Reflects j.initial j.same history n u → M.Replays history (base g) t n u →
      Q (some ((logBytes j.xxh3 history (base c.lastLog) n).length, n, u)) fs) :
    (replayLogs j.xxh3 M (range' g (count + 1)) offset (base g, t)).Safe Alone C Q fs := by
  induction count generalizing g offset t with
  | zero =>
    have same_log : g = c.lastLog := by omega
    subst same_log
    rw [range'_succ, range'_zero, replayLogs]
    apply safe_read crash last.contents
    rcases read_log_cases h low high (.inl ⟨rfl, cut⟩) before with
      ⟨e, reading, bad⟩ | ⟨u, reading, after, replayed⟩
    · simp only [isEmpty_nil, data, reading]
      exact safe_ret.mpr ⟨crash, failed bad⟩
    · simp only [isEmpty_nil, data, reading, replayLogs]
      exact safe_ret.mpr ⟨crash, ended u after replayed⟩
  | succ count ih =>
    have slot := backed.logs g from_snapshot (by omega)
    have order := backed.order g from_snapshot (by omega)
    have inside : base (g + 1) ≤ history.length :=
      le_trans (backed.base_le (by omega) (by omega) (le_refl _)) backed.inside
    have whole : (false = true ∧ Torn j.xxh3 []) ∨ ([] : Bytes) = [] := .inr rfl
    have contents : fs.contents (.journal g) =
        some (logBytes j.xxh3 history (base g) (base (g + 1)) ++ []) := by
      rw [Fs.contents, slot, append_nil]
      rfl
    have more : (range' (g + 1) (count + 1)).isEmpty = false := rfl
    rw [range'_succ, replayLogs]
    apply safe_read crash contents
    rcases read_log_cases h order inside whole before with
      ⟨e, reading, bad⟩ | ⟨u, reading, after, replayed⟩
    · simp only [more, reading]
      exact safe_ret.mpr ⟨crash, failed bad⟩
    · simp only [more, reading]
      have below : base (g + 1) ≤ n :=
        le_trans (backed.base_le (by omega) (by omega) (le_refl _)) low
      exact ih (g + 1) _ (by omega) (by omega) after fun v last rest =>
        ended v last (replayed.trans rest order below high)

end

/-! ## Publishing a manifest -/

section Publish

variable {α : Type} {env : Fs Name → Fs Name → Prop} {C : Fs Name → Prop}
  {Q : Option α → Fs Name → Prop} {next : Prog Name (Option α)}

def renamed (fs : Fs Name) (b : Bytes) (tmp : Slot) (mid : Fs Name) : Fs Name :=
  Function.update (Function.update mid .current ((fs .current).rebind (some ⟨b, b⟩)))
    .currentTmp tmp

theorem safe_publishSync {b : Bytes} (encoded : c.encode xxh3 = .ok b)
    (avoidTmp : Avoids env .currentTmp) (avoid : Avoids env .current)
    (before : ∀ mid s, Relation.ReflTransGen env fs mid → C (update mid .currentTmp s))
    (between : ∀ mid s, Relation.ReflTransGen env fs mid → C (renamed fs b s mid))
    (after : ∀ mid s, Relation.ReflTransGen env fs mid →
      next.Safe env C Q ((renamed fs b s mid).syncDir root)) :
    (publishSync xxh3 c next).Safe env C Q fs := by
  rw [publishSync, encoded]
  apply safe_install (by decide) avoidTmp avoid before
  intro _ s _ moved _ run
  obtain ⟨_, run₁, rfl⟩ := avoidTmp.run run
  obtain ⟨two, run₂, rfl⟩ := avoid.run run₁
  have far := moved.trans run₂
  refine ⟨between two s far, fun r fs' exec => ?_⟩
  cases exec with
  | syncDir => exact after two s far

theorem publish_eq {b : Bytes} (encoded : c.encode xxh3 = .ok b) :
    publish xxh3 c next = publishSync xxh3 c next := by
  rw [publish, publishSync, encoded]
  rfl

def Manifests (xxh3 : Hash) (P : Fs Name → Current → Prop) (fs : Fs Name) : Prop :=
  ∀ b, (fs .current).Possible b → ∃ file c, b = some file ∧ file.disk = file.data ∧
    c.encode xxh3 = .ok file.data ∧ P fs c

def Single (xxh3 : Hash) (P : Fs Name → Current → Prop) (fs : Fs Name) (c : Current) : Prop :=
  (∃ b, c.encode xxh3 = .ok b ∧ fs .current = .settled b) ∧ P fs c

/-- A property of the files that manifests name, which other tasks do not disturb. -/
structure Undisturbed (env : Fs Name → Fs Name → Prop) (P : Fs Name → Current → Prop) : Prop where
  files : ∀ fs fs' c, (∀ n, n ≠ .current → n ≠ .currentTmp → fs' n = fs n) → P fs c → P fs' c
  syncs : ∀ fs c, P fs c → P (fs.syncDir root) c
  stable : ∀ fs fs' c, env fs fs' → P fs c → P fs' c

variable {P : Fs Name → Current → Prop}

theorem Undisturbed.later (h : Undisturbed env P) (moved : Relation.ReflTransGen env fs fs')
    (here : P fs c) : P fs' c := by
  induction moved with
  | refl => exact here
  | tail _ one ih => exact h.stable _ _ c one ih

theorem Single.manifests (h : Single xxh3 P fs c) : Manifests xxh3 P fs := by
  obtain ⟨⟨b, encoded, slot⟩, here⟩ := h
  intro _ possible
  rw [slot] at possible
  simp only [Slot.settled, Slot.Possible, not_mem_nil, or_false] at possible
  exact ⟨⟨b, b⟩, c, possible, rfl, encoded, here⟩

variable {c' : Current}

/-- Publishing a manifest whose files are there already: until the directory is synced a crash may
find the old or the new one. -/
theorem safe_swap (kept : Undisturbed env P) (avoidTmp : Avoids env .currentTmp)
    (avoid : Avoids env .current) (single : Single xxh3 P fs c) (here : P fs c') (valid : c'.Valid)
    (weaken : ∀ fs, Manifests xxh3 P fs → C fs)
    (after : ∀ mid fs', Relation.ReflTransGen env fs mid → Single xxh3 P fs' c' →
      (∀ n, n ≠ .current → n ≠ .currentTmp → fs' n = (mid.syncDir root) n) →
        next.Safe env C Q fs') : (publishSync xxh3 c' next).Safe env C Q fs := by
  obtain ⟨⟨b, encoded, slot⟩, old⟩ := single
  obtain ⟨b', encoded', -, -⟩ := valid.decode_encode xxh3
  have others : ∀ mid s n, n ≠ .current → n ≠ .currentTmp → renamed fs b' s mid n = mid n := by
    intro mid s n notCurrent notTmp
    rw [renamed, update_of_ne notTmp, update_of_ne notCurrent]
  have current : ∀ mid s, renamed fs b' s mid .current = (fs .current).rebind (some ⟨b', b'⟩) := by
    intro mid s
    rw [renamed, update_of_ne (by decide), update_self]
  apply safe_publishSync encoded' avoidTmp avoid
  · intro mid s moved
    apply weaken
    apply Single.manifests (c := c)
    refine ⟨⟨b, encoded, ?_⟩, kept.files mid _ c (fun n _ notTmp => ?_) (kept.later moved old)⟩
    · rw [update_of_ne (by decide), avoid.same moved]
      exact slot
    · exact update_of_ne notTmp _ _
  · intro mid s moved
    apply weaken
    intro _ possible
    rw [current mid s, Slot.possible_rebind, slot] at possible
    simp only [Slot.settled, Slot.Possible, not_mem_nil, or_false] at possible
    rcases possible with rfl | rfl
    · exact ⟨_, c', rfl, rfl, encoded', kept.files mid _ c' (others mid s) (kept.later moved here)⟩
    · exact ⟨_, c, rfl, rfl, encoded, kept.files mid _ c (others mid s) (kept.later moved old)⟩
  · intro mid s moved
    apply after mid _ moved
    · refine ⟨⟨b', encoded', ?_⟩, kept.syncs _ c' ?_⟩
      · change (renamed fs b' s mid .current).settle = _
        rw [current]
        rfl
      · exact kept.files mid _ c' (others mid s) (kept.later moved here)
    · intro n notCurrent notTmp
      change (renamed fs b' s mid n).settle = (mid n).settle
      rw [others mid s n notCurrent notTmp]

def Restorable (j : Terms M)
    (window : Window) (history : List (Entry M)) (base : Nat → Nat) (promised : List Nat)
    (fs : Fs Name)
    (c : Current) : Prop :=
  Backed j window history base fs c ∧
    ∃ f, LastLog j.xxh3 history base promised fs c.lastLog f

theorem undisturbed_restorable : Undisturbed Alone (Restorable j window history base promised) where
  files := by
    intro fs _ c others here
    obtain ⟨backed, f, last⟩ := here
    exact ⟨backed.congr (others _ nofun nofun) fun g _ _ => others _ nofun nofun, f,
      last.congr (others _ nofun nofun)⟩
  syncs := by
    intro _ c here
    obtain ⟨backed, f, last⟩ := here
    exact ⟨backed.syncDir, f, last.syncDir⟩
  stable := fun _ _ _ one => one.elim

theorem safe_republish {f f' : File} (ready : Ready j window history base promised fs c f)
    (backed : Backed j window history base fs c')
    (last : LastLog j.xxh3 history base promised fs c'.lastLog f')
    (after : ∀ fs', Ready j window history base promised fs' c' f' →
      next.Safe Alone (Recoverable j window history promised) Q fs') :
    (publishSync j.xxh3 c' next).Safe Alone (Recoverable j window history promised) Q fs := by
  apply safe_swap undisturbed_restorable (avoids_alone _) (avoids_alone _)
    ⟨ready.current, ready.backed, f, ready.last⟩ ⟨backed, f', last⟩ backed.valid
    (fun fs found => ⟨base, fun b possible => by
      obtain ⟨_, c, rfl, synced, encoded, backed, f, last⟩ := found b possible
      exact ⟨c, f, synced, encoded, backed, last⟩⟩)
  intro _ fs' moved single others
  rw [reflTransGen_alone moved] at others
  exact after fs' ⟨single.1, single.2.1, last.syncDir.congr (others _ nofun nofun)⟩

end Publish

/-! ## Recovery -/

structure Opened (j : Terms M)
    (window : Window) (history : List (Entry M)) (promised : List Nat) (r : Recovered M)
    (base : Nat → Nat)
    (f : File) (fs : Fs Name) : Prop where
  ready : Ready j window history base promised fs r.current f
  garbage : r.current.garbage = []
  log : f.data = logBytes j.xxh3 history (base r.current.lastLog) r.lsn
  grows : f.disk <+: f.data
  offset : r.offset = f.data.length
  low : base r.current.lastLog ≤ r.lsn
  high : r.lsn ≤ history.length
  promised : ∀ lsn ∈ promised, lsn ≤ r.lsn
  machine : M.Reflects j.initial j.same history r.lsn r.machine
  replayed : ∃ s, M.Replays history r.current.lsn s r.lsn r.machine

/-- What recovery ends with.  It fails only if the machine or one of its records is at fault, and
before it has changed anything. -/
def Ended (j : Terms M) (window : Window)
    (history : List (Entry M)) (promised : List Nat) : Option (Recovered M) → Fs Name → Prop
  | none, fs => Startable j window history promised fs ∧
      ¬ M.Good j.initial j.same history
  | some r, fs => ∃ base f, Opened j window history promised r base f fs

/-- Recovery keeps the manifest `c` but for what it cleans up, and every whole record of the last
log `f`. -/
structure Found (xxh3 : Hash) (history : List (Entry M)) (base : Nat → Nat) (c : Current) (f : File)
    (r : Recovered M) : Prop where
  current : r.current = { c with garbage := [], pending := 0 }
  most : ∀ lsn ≤ history.length, logBytes xxh3 history (base c.lastLog) lsn <+: f.data → lsn ≤ r.lsn

theorem leftovers_spare (h : Backed j window history base fs c) {n : Name}
    (mem : n ∈ leftovers c) : ¬ Needs c n := by
  intro needed
  unfold leftovers at mem
  rw [mem_append, mem_append, mem_map] at mem
  rcases mem with (⟨file, garbage, rfl⟩ | pending) | tmp
  · have old := h.valid.garbage file garbage
    unfold path at needed
    split at needed
    · have same := needed.snapshot_eq
      omega
    · have kept := needed.journal_le
      omega
  · split at pending
    · rename_i some
      have later := h.pending some
      rw [mem_singleton] at pending
      subst pending
      have same := Needs.snapshot_eq (g := c.pending) needed
      omega
    · cases pending
  · simp only [mem_cons, not_mem_nil, or_false] at tmp
    rcases tmp with rfl | rfl | rfl <;> cases needed

theorem safe_removeAll {α : Type} {env : Fs Name → Fs Name → Prop} {C P : Fs Name → Prop}
    {Q : Option α → Fs Name → Prop} {next : Prog Name (Option α)} {names : List Name}
    {K : Name → Prop} (spare : ∀ n ∈ names, ¬ K n) (crash : ∀ fs, P fs → C fs)
    (later : ∀ fs fs', Relation.ReflTransGen env fs fs' → P fs → P fs')
    (congr : ∀ fs fs', (∀ n, K n → fs' n = fs n) → P fs → P fs') (start : P fs)
    (after : ∀ fs', P fs' → next.Safe env C Q fs') : (removeAll names next).Safe env C Q fs := by
  induction names generalizing fs with
  | nil => exact after fs start
  | cons n _ ih =>
    intro mid moved
    have here := later fs mid moved start
    refine ⟨crash mid here, fun r fs' exec => ?_⟩
    rw [exec_remove exec]
    apply ih fun m mem => spare m (mem_cons_of_mem _ mem)
    refine congr mid _ (fun m needed => unlink_of_ne mid ?_) here
    rintro rfl
    exact spare m mem_cons_self needed

theorem Named.congr {b : Option File} (h : Named j window history base promised fs b)
    (agree : ∀ file c', b = some file → Current.decode j.xxh3 file.data = .ok c' →
      ∀ n, Needs c' n → fs' n = fs n) : Named j window history base promised fs' b := by
  cases b with
  | none => exact h
  | some file =>
    obtain ⟨c', f, synced, encoded, backed, last⟩ := h
    have same := agree file c' rfl (backed.decode encoded)
    exact ⟨c', f, synced, encoded, backed.congr (same _ .snapshot) fun g low high =>
      same _ (.journal g low (le_of_lt high)), last.congr (same _ (.journal c'.lastLog
        backed.valid.snapshot_le (le_refl _)))⟩

variable {f : File}

/-- Cleaning up after a manifest leaves it and those that may come back as they are. -/
theorem Resumes.congr (h : Resumes j window history base promised fs c f)
    (agree : ∀ n, n ∉ leftovers c → fs' n = fs n) :
    Resumes j window history base promised fs' c f := by
  have kept : ∀ n, Needs c n → fs' n = fs n := fun n needed =>
    agree n fun mem => leftovers_spare h.backed mem needed
  have current := kept .current .current
  refine ⟨current ▸ h.current, ?_, h.backed.congr (kept _ .snapshot) fun g low high =>
    kept _ (.journal g low (le_of_lt high)), h.last.congr (kept _ (.journal c.lastLog
      h.backed.valid.snapshot_le (le_refl _)))⟩
  rw [current]
  intro b old
  obtain ⟨named, harmless⟩ := h.older b old
  refine ⟨named.congr fun file c' same decoded n needed => agree n fun mem => ?_, harmless⟩
  subst same
  exact harmless c' decoded n mem needed

theorem safe_cleanup (resumes : Resumes j window history base promised fs c f)
    {r : Recovered M} {Q : Option (Recovered M) → Fs Name → Prop}
    (done : ∀ fs', Ready j window history base promised fs'
      { c with garbage := [], pending := 0 } f → Q (some r) fs') :
    (removeAll (leftovers c) <| ensure (.syncDir root) <|
      publishSync j.xxh3 { c with garbage := [], pending := 0 } <| .ret (some r)).Safe Alone
        (Recoverable j window history promised) Q fs := by
  refine safe_removeAll (fun n mem => not_not.mpr mem)
    (fun _ resumes => Resumes.recoverable resumes) (fun fs fs' moved resumes => ?_)
    (fun _ _ agree resumes => resumes.congr agree) resumes fun fs₁ resumes₁ => ?_
  · rwa [reflTransGen_alone moved]
  · apply safe_syncDir resumes₁.recoverable
    have ready₂ := resumes₁.syncDir
    apply safe_republish ready₂ ready₂.backed.cleared ready₂.last
    intro fs₃ ready₃
    exact safe_ret.mpr ⟨ready₃.recoverable, done fs₃ ready₃⟩

variable {g : File → File} {f' : File}

theorem LastLog.modified {n : Nat} (last : LastLog xxh3 history base promised fs n f) :
    fs.modify (.journal n) g (.journal n) = ⟨some (g f), []⟩ := by
  rw [Fs.modify, update_self, last.slot]
  rfl

/-- The last log may change, where no earlier manifest that may come back has a log after it. -/
theorem Resumes.relog (resumes : Resumes j window history base promised fs c f)
    (last : LastLog j.xxh3 history base promised (fs.modify (.journal c.lastLog) g) c.lastLog f')
    (apart : ∀ file c', some file ∈ (fs .current).old → Current.decode j.xxh3 file.data = .ok c' →
      ¬(c'.snapshot ≤ c.lastLog ∧ c.lastLog < c'.lastLog)) :
    Resumes j window history base promised (fs.modify (.journal c.lastLog) g) c f' := by
  have current : fs.modify (.journal c.lastLog) g .current = fs .current :=
    update_of_ne (by nofun) _ _
  have backed {c'} (here : Backed j window history base fs c')
      (apart : ¬(c'.snapshot ≤ c.lastLog ∧ c.lastLog < c'.lastLog)) :
      Backed j window history base (fs.modify (.journal c.lastLog) g) c' :=
    here.congr (update_of_ne (by nofun) _ _) fun h low high =>
      update_of_ne (by intro same; cases same; exact apart ⟨low, high⟩) _ _
  refine ⟨current ▸ resumes.current, ?_, backed resumes.backed (by omega), last⟩
  rw [current]
  intro b old
  obtain ⟨named, harmless⟩ := resumes.older b old
  refine ⟨?_, harmless⟩
  cases b with
  | none => exact named
  | some file =>
    obtain ⟨c', f₀, synced, encoded, backed', last'⟩ := named
    have kept := backed backed' (apart file c' old (backed'.decode encoded))
    by_cases same : c'.lastLog = c.lastLog
    · exact ⟨c', f', synced, encoded, kept, same ▸ last⟩
    · exact ⟨c', f₀, synced, encoded, kept, last'.congr (update_of_ne (by simp [same]) _ _)⟩

theorem Ready.relog (ready : Ready j window history base promised fs c f)
    (last : LastLog j.xxh3 history base promised (fs.modify (.journal c.lastLog) g) c.lastLog f') :
    Ready j window history base promised (fs.modify (.journal c.lastLog) g) c f' := by
  obtain ⟨b, encoded, slot⟩ := ready.current
  have resumes := ready.resumes.relog last (by rw [slot]; exact nofun)
  refine ⟨⟨b, encoded, ?_⟩, resumes.backed, resumes.last⟩
  rw [Fs.modify, update_of_ne (by simp)]
  exact slot

theorem safe_truncateLog {α : Type} {Q : Option α → Fs Name → Prop} {next : Prog Name (Option α)}
    (resumes : Resumes j window history base promised fs c f) {n : Nat} {torn : Bytes}
    (data : f.data = logBytes j.xxh3 history (base c.lastLog) n ++ torn) (high : n ≤ history.length)
    (covers : ∀ lsn ∈ promised, lsn ≤ n) (grows : f.disk <+: f.data)
    (whole : ∀ lsn ≤ history.length, logBytes j.xxh3 history (base c.lastLog) lsn <+: f.data →
      lsn ≤ n)
    (after : ∀ fs' f', Resumes j window history base promised fs' c f' →
      f'.data = logBytes j.xxh3 history (base c.lastLog) n → f'.disk <+: f'.data →
        next.Safe Alone (Recoverable j window history promised) Q fs') :
    (truncateLog c.lastLog (logBytes j.xxh3 history (base c.lastLog) n).length next).Safe Alone
      (Recoverable j window history promised) Q fs := by
  have part := logBytes_prefix j.xxh3 history (base c.lastLog) high
  have promise : ∀ lsn ∈ promised, logBytes j.xxh3 history (base c.lastLog) lsn <+:
      logBytes j.xxh3 history (base c.lastLog) n :=
    fun lsn mem => logBytes_prefix j.xxh3 history (base c.lastLog) (covers lsn mem)
  rw [truncateLog]
  apply safe_read resumes.recoverable resumes.last.contents
  dsimp only
  split
  · rename_i torn_off
    have cut : f.setLen (logBytes j.xxh3 history (base c.lastLog) n).length =
        ⟨logBytes j.xxh3 history (base c.lastLog) n, f.disk⟩ := by
      have short : (logBytes j.xxh3 history (base c.lastLog) n).length ≤ f.data.length := by
        rw [data, length_append]
        omega
      rw [File.setLen, Nat.sub_eq_zero_of_le short, data, take_left]
      exact congrArg (File.mk · f.disk) (append_nil _)
    -- a manifest with a log after this one has it whole, and then there is nothing to cut off
    have apart : ∀ file c', some file ∈ (fs .current).old →
      Current.decode j.xxh3 file.data = .ok c' →
        ¬(c'.snapshot ≤ c.lastLog ∧ c.lastLog < c'.lastLog) := by
      rintro file c' old decoded ⟨from_snapshot, before_last⟩
      obtain ⟨⟨c'', _, -, encoded, backed, -⟩, -⟩ := resumes.older (some file) old
      rw [backed.decode encoded] at decoded
      cases decoded
      have slot := resumes.last.slot.symm.trans (backed.logs _ from_snapshot before_last)
      have full : f.data = logBytes j.xxh3 history (base c.lastLog) (base (c.lastLog + 1)) :=
        congrArg File.data (Option.some.inj (congrArg Slot.now slot))
      have below := whole (base (c.lastLog + 1))
        (le_trans (backed.base_le (by omega) (by omega) (le_refl _)) backed.inside)
        (by rw [full])
      have longer := ( logBytes_prefix j.xxh3 history (base c.lastLog) below).length_le
      rw [← full, data, length_append] at longer
      rw [data, length_append] at torn_off
      omega
    have slot := resumes.last.modified
      (g := File.setLen (logBytes j.xxh3 history (base c.lastLog) n).length)
    rw [cut] at slot
    have resumes₁ := resumes.relog ⟨slot, part, resumes.last.disk, fun lsn mem =>
      ⟨(resumes.last.kept lsn mem).1, promise lsn mem⟩⟩ apart
    rw [ensure, safe_op]
    refine ⟨resumes.recoverable, fun r fs₁ exec => ?_⟩
    cases exec with
    | setLenMissing _ _ _ missing => exact absurd missing resumes.last.present
    | setLen =>
      have resumes₂ := resumes₁.relog (g := File.sync) ⟨resumes₁.last.modified, part, part,
        fun lsn mem => ⟨promise lsn mem, promise lsn mem⟩⟩ apart
      exact safe_sync resumes₁.recoverable resumes₁.last.present
        (after _ _ resumes₂ rfl (prefix_refl _))
  · rename_i equal
    rw [not_not, data, length_append, add_eq_left,
      length_eq_zero_iff] at equal
    rw [equal, append_nil] at data
    exact after fs f resumes data grows

theorem Backed.restore (h : Backed j window history base fs c) :
    ∃ file, fs.contents (.snapshot c.snapshot) = some file ∧
    ((∃ e, restoreSnapshot j.xxh3 M j.initial c file = .error e ∧
      ¬ M.Good j.initial j.same history) ∨ ∃ t, restoreSnapshot j.xxh3 M j.initial c file = .ok t ∧
        M.Reflects j.initial j.same history (base c.snapshot) t) := by
  obtain ⟨items, slot, bytes, records, numbered, rebuilt⟩ := h.snapshot
  refine ⟨frames j.xxh3 0 items, by rw [Fs.contents, slot]; rfl, ?_⟩
  rw [Rebuilt, h.lsn] at rebuilt
  cases restoring : restoreSnapshot j.xxh3 M j.initial c (frames j.xxh3 0 items) with
  | error e =>
    refine .inl ⟨e, rfl, fun good => ?_⟩
    obtain ⟨s, u, -, restored, -⟩ := rebuilt (good.take _)
    rw [restoreSnapshot_frames j.xxh3 numbered bytes records restored] at restoring
    cases restoring
  | ok t =>
    refine .inr ⟨t, rfl, fun good => ?_⟩
    obtain ⟨s, u, run, restored, alike⟩ := rebuilt good
    rw [restoreSnapshot_frames j.xxh3 numbered bytes records restored] at restoring
    cases restoring
    exact ⟨s, run, alike⟩

theorem safe_recoverFrom (h : History history promised)
    (resumes : Resumes j window history base promised fs c f) (grows : f.disk <+: f.data) :
    (recoverFrom j.xxh3 M j.initial c).Safe Alone
      (Recoverable j window history promised)
      (fun r fs => Ended j window history promised r fs ∧
        ∀ opened, r = some opened → Found j.xxh3 history base c f opened) fs := by
  obtain ⟨n, _, low, high, data, cut, most, covers⟩ :=
    resumes.last.recovered h resumes.backed.inside
  have valid := resumes.backed.valid
  have lastLog := valid.lastLog
  have positive := valid.some_log
  have failed : ¬ M.Good j.initial j.same history →
      Ended j window history promised none fs ∧ ∀ opened : Recovered M,
        none = some opened → Found j.xxh3 history base c f opened :=
    fun bad => ⟨⟨.inr ⟨base, c, f, resumes, grows⟩, bad⟩, nofun⟩
  obtain ⟨_, present, restored⟩ := resumes.backed.restore
  rw [recoverFrom]
  apply safe_read resumes.recoverable present
  dsimp only
  rcases restored with ⟨e, restoring, bad⟩ | ⟨t, restoring, before⟩
  · rw [restoring]
    exact safe_ret.mpr ⟨resumes.recoverable, failed bad⟩
  · rw [restoring]
    apply Safe.bind
    have start : replayLogs j.xxh3 M c.logs 0 (c.lsn, t) =
        replayLogs j.xxh3 M (range' c.snapshot (c.logs.length - 1 + 1)) 0
          (base c.snapshot, t) := by
      rw [Nat.sub_add_cancel positive, ← valid.logs, resumes.backed.lsn]
    rw [start]
    refine safe_replayLogs h resumes.backed resumes.last low high data cut resumes.recoverable
      (fun bad => ?_) (c.logs.length - 1) c.snapshot 0 (le_refl _) (by omega) before
      fun u after replayed => ?_
    · exact safe_ret.mpr ⟨resumes.recoverable, failed bad⟩
    · apply safe_truncateLog resumes data high covers grows most
      intro _ f₁ resumes₁ data₁ grows₁
      apply safe_cleanup resumes₁
      intro _ ready₂
      refine ⟨⟨base, f₁, ready₂, rfl, data₁, grows₁, by rw [data₁], low, high, covers,
        after, t, ?_⟩, ?_⟩
      · rw [← resumes.backed.lsn] at replayed
        exact replayed
      · intro _ result
        cases result
        exact ⟨rfl, most⟩

theorem safe_writeSync_nil {α : Type} {C : Fs Name → Prop} {Q : Option α → Fs Name → Prop}
    {next : Prog Name (Option α)} {n : Name} (crash : ∀ s, C (update fs n s))
    (after : ∀ s : Slot, s.now = some ⟨[], []⟩ → next.Safe Alone C Q (update fs n s)) :
    (writeSync n [] next).Safe Alone C Q fs := by
  have here : C fs := by
    have := crash (fs n)
    rwa [update_eq_self] at this
  rw [writeSync, ensure, safe_op]
  refine ⟨here, fun r fs₁ exec => ?_⟩
  cases exec with
  | create =>
    obtain ⟨_, present, opened⟩ := create_eq fs n
    obtain ⟨f, file⟩ := Option.ne_none_iff_exists'.mp present
    rw [opened]
    apply safe_sync (crash _)
    · simp [file]
    · rw [Fs.modify, update_self, update_idem]
      apply after
      simp [file, File.sync]

theorem ready_first {b : Bytes} (fresh : window.fresh = true)
    (encoded : firstCurrent.encode j.xxh3 = .ok b) (current : fs .current = .settled b)
    (snapshot : fs (.snapshot 1) = .settled []) (journal : fs (.journal 1) = .settled [])
    (none_promised : ∀ lsn ∈ promised, lsn ≤ 0) :
    Ready j window [] (fun _ => 0) promised fs firstCurrent ⟨[], []⟩ where
  current := ⟨b, encoded, current⟩
  backed :=
    { valid := valid_first
      admitted := ⟨(window.start fresh).1, le_of_eq (window.start fresh).2⟩
      pending := fun absurd => (absurd rfl).elim
      lsn := rfl
      snapshot := ⟨[], snapshot, rfl, rfl, ⟨forall_mem_nil _, by decide⟩, fun good =>
        ⟨j.initial, j.initial, rfl, rfl, good.rebuilds.start⟩⟩
      order := fun _ _ _ => le_refl _
      inside := le_refl _
      logs := by
        intro g low high
        change 1 ≤ g at low
        change g < 1 at high
        omega }
  last := by
    refine ⟨journal, prefix_refl _, prefix_refl _, fun lsn mem => ?_⟩
    have zero : lsn = 0 := le_zero.mp (none_promised lsn mem)
    subst zero
    exact ⟨prefix_refl _, prefix_refl _⟩

theorem recoverable_none (fresh : history = [] ∧ window.fresh = true)
    (slot : fs .current = ⟨none, []⟩) : Recoverable j window history promised fs :=
  Startable.recoverable (.inl ⟨slot, fresh⟩)

section

variable (h : History history promised)
include h

theorem safe_first (fresh : history = [] ∧ window.fresh = true) (slot : fs .current = ⟨none, []⟩) :
    (writeSync (path true 1) [] <| writeSync (path false 1) [] <| ensure (.syncDir root) <|
      publishSync j.xxh3 firstCurrent <| recoverFrom j.xxh3 M j.initial firstCurrent).Safe Alone
        (Recoverable j window history promised)
        (fun r fs => Ended j window history promised r fs ∧
          ∀ opened, r = some opened → opened.current = firstCurrent) fs := by
  obtain ⟨rfl, allowed⟩ := fresh
  obtain ⟨b, encoded, -, -⟩ := valid_first.decode_encode j.xxh3
  apply safe_writeSync_nil
  · intro s
    exact recoverable_none ⟨rfl, allowed⟩ ((update_of_ne (by decide) _ _).trans slot)
  intro s₁ now₁
  apply safe_writeSync_nil
  · intro s
    apply recoverable_none ⟨rfl, allowed⟩
    rw [update_of_ne (by decide), update_of_ne (by decide)]
    exact slot
  intro s₂ now₂
  have current : update (update fs (path true 1) s₁) (path false 1) s₂ .current =
      ⟨none, []⟩ := by
    rw [update_of_ne (by decide), update_of_ne (by decide)]
    exact slot
  rw [ensure, safe_op]
  refine ⟨recoverable_none ⟨rfl, allowed⟩ current, fun r fs₃ exec => ?_⟩
  cases exec with
  | syncDir =>
    generalize settled : Fs.syncDir (update (update fs (path true 1) s₁)
      (path false 1) s₂) root = fs₄
    have current₄ : fs₄ .current = ⟨none, []⟩ := by
      rw [← settled]
      change settle _ = _
      rw [current]
      rfl
    have snapshot₄ : fs₄ (.snapshot 1) = .settled [] := by
      rw [← settled]
      change settle (update (update fs (.snapshot 1) s₁) (.journal 1) s₂
        (.snapshot 1)) = _
      rw [update_of_ne (by decide), update_self, settle, now₁]
      rfl
    have journal₄ : fs₄ (.journal 1) = .settled [] := by
      rw [← settled]
      change settle (update (update fs (.snapshot 1) s₁) (.journal 1) s₂
        (.journal 1)) = _
      rw [update_self, settle, now₂]
      rfl
    apply safe_publishSync encoded (avoids_alone _) (avoids_alone _)
    · intro mid s moved
      rw [reflTransGen_alone moved]
      exact recoverable_none ⟨rfl, allowed⟩ ((update_of_ne (by decide) _ _).trans current₄)
    · intro mid s moved
      rw [reflTransGen_alone moved]
      refine ⟨fun _ => 0, fun found possible => ?_⟩
      rw [renamed, update_of_ne (by decide), update_self, current₄,
        Slot.possible_rebind] at possible
      simp only [Slot.Possible, not_mem_nil, or_false] at possible
      rcases possible with rfl | rfl
      · have whole : Ready j window [] (fun _ => 0) promised (update fs₄ .current (.settled b))
            firstCurrent ⟨[], []⟩ :=
          ready_first allowed encoded
          (update_self ..) ((update_of_ne (by decide) _ _).trans snapshot₄)
            ((update_of_ne (by decide) _ _).trans journal₄) h.promised
        refine ⟨firstCurrent, ⟨[], []⟩, rfl, encoded, whole.backed.congr ?_ fun g low high => ?_,
          whole.last.congr ?_⟩
        · rfl
        · rfl
        · rfl
      · exact ⟨rfl, allowed⟩
    · intro _ s moved
      rw [reflTransGen_alone moved]
      refine Safe.mono (safe_recoverFrom h (ready_first allowed encoded ?_ ?_ ?_ h.promised).resumes
        (prefix_refl _))
        (fun _ kept => kept) fun _ _ ended =>
          ⟨ended.1, fun opened result => (ended.2 opened result).current⟩
      · rfl
      · change settle (fs₄ (.snapshot 1)) = _
        rw [snapshot₄]
        rfl
      · change settle (fs₄ (.journal 1)) = _
        rw [journal₄]
        rfl

theorem safe_recover_resumes {f : File} (resumes : Resumes j window history base promised fs c f)
    (grows : f.disk <+: f.data) :
    (recover j.xxh3 M j.initial).Safe Alone (Recoverable j window history promised)
      (fun r fs => Ended j window history promised r fs ∧
        ∀ opened, r = some opened → Found j.xxh3 history base c f opened) fs := by
  obtain ⟨b, encoded, now⟩ := resumes.current
  obtain ⟨_, encoded', decoded, _⟩ := resumes.backed.valid.decode_encode j.xxh3
  rw [encoded] at encoded'
  cases encoded'
  have present : fs.contents .current = some b := by
    rw [Fs.contents, now]
    rfl
  rw [recover]
  apply safe_read resumes.recoverable present
  dsimp only
  rw [if_neg (by omega), decoded]
  exact safe_recoverFrom h resumes grows

theorem safe_recover_fresh (fresh : history = [] ∧ window.fresh = true)
    (slot : fs .current = ⟨none, []⟩) :
    (recover j.xxh3 M j.initial).Safe Alone (Recoverable j window history promised)
      (fun r fs => Ended j window history promised r fs ∧
        ∀ opened, r = some opened → opened.current = firstCurrent) fs := by
  rw [recover, safe_op]
  refine ⟨recoverable_none fresh slot, fun r fs' exec => ?_⟩
  cases exec with
  | read _ _ b present =>
    rw [Fs.contents, slot] at present
    cases present
  | readMissing => exact safe_first h fresh slot

/-- Recovery keeps the directory recoverable and returns the machine after every promised record. -/
theorem safe_recover (start : Startable j window history promised fs) :
    (recover j.xxh3 M j.initial).Safe Alone (Recoverable j window history promised)
      (Ended j window history promised) fs := by
  rcases start with ⟨slot, fresh⟩ | ⟨_, c, f, resumes, grows⟩
  · exact (safe_recover_fresh h fresh slot).mono (fun _ kept => kept) fun _ _ ended => ended.1
  · exact (safe_recover_resumes h resumes grows).mono (fun _ kept => kept) fun _ _ ended => ended.1

end

end Talon.Journal
