import Talon.Lib.Holders
import Talon.Lib.Transition
import Talon.Worker.BlockPages

/-!
# Readers, page collection, whole-block claims and admissions of one block

Each section under the lock of the block is a step, and so is each atomic operation on a word.
Deletions and admissions hold the block's mutation gate, deletions exclusively; readers hold
nothing but their count in the word of the page.
-/

set_option autoImplicit false

namespace Talon.Worker

open Relation Function Nat BlockPages Option List

inductive ReaderPoint
  | lookup
  | load (h : Nat)
  | cas (h : Nat) (old : PageWord)
  | guard (h : Nat)
  | releaseLoad (h : Nat)
  | releaseCas (h : Nat) (old : PageWord)

inductive GcPoint
  | lock
  | check
  | claimed
  | finished
  | aborted

inductive WholePoint
  | lock
  | check
  | claimed (handles : List Nat)
  /-- The dropped claim has `rest` still to reopen. -/
  | reopening (handles rest : List Nat)
  | reopened (handles : List Nat)
  | finished (handles : List Nat)

inductive FillPoint
  | lock
  | register
  | registered

inductive GateMode
  | shared
  | exclusive
deriving DecidableEq

inductive PageTask
  | read (page : Nat) (point : ReaderPoint)
  | gc (c : GcCandidate) (point : GcPoint)
  | whole (point : WholePoint)
  /-- A fill that owns its page in flight takes the gate shared. -/
  | fill (page : Nat) (access : Option Nat) (dirty : Bool) (mode : GateMode) (point : FillPoint)

namespace PageTask

def mode : PageTask → Option GateMode
  | .read _ _ => none
  | .gc _ .lock => none
  | .gc _ _ => some .exclusive
  | .whole .lock => none
  | .whole _ => some .exclusive
  | .fill _ _ _ _ .lock => none
  | .fill _ _ _ mode _ => some mode

def guards : PageTask → Option Nat
  | .read _ (.guard h) | .read _ (.releaseLoad h) | .read _ (.releaseCas h _) => some h
  | _ => none

/-- The handles that a claim in progress keeps closed. -/
def claims : PageTask → List Nat
  | .gc c .claimed => [c.handle]
  | .whole (.claimed handles) | .whole (.reopening _ handles) => handles
  | _ => []

end PageTask

structure PageRun where
  block : BlockPages
  tasks : Nat → Option PageTask

namespace PageRun

def next (s : PageRun) (b : BlockPages) (id : Nat) (t : Option PageTask) : PageRun :=
  ⟨b, Function.update s.tasks id t⟩

def modeOf (s : PageRun) (id : Nat) : Option GateMode := (s.tasks id).bind PageTask.mode

structure Initial (s : PageRun) : Prop where
  tasks : ∀ id, s.tasks id = none
  pages : ∀ p, s.block.pages p = none
  fresh : s.block.fresh = 0
  words : ∀ h, s.block.word h = 0#64
  removed : s.block.removed = ∅

end PageRun

/-- `track` is the block's access tracking. -/
inductive PageStep (track : Bool) : PageRun → PageRun → Prop
  | beginRead {s id} (page : Nat) (free : s.tasks id = none) :
      PageStep track s (s.next s.block id (some (.read page .lookup)))
  | lookup {s id page e}
      (task : s.tasks id = some (.read page .lookup)) (found : s.block.pages page = some e) :
      PageStep track s (s.next s.block id (some (.read page (.load e.handle))))
  | lookupMiss {s id page} (task : s.tasks id = some (.read page .lookup))
      (absent : s.block.pages page = none) : PageStep track s (s.next s.block id none)
  | load {s id page h} (task : s.tasks id = some (.read page (.load h))) :
      PageStep track s (s.next s.block id (some (.read page (.cas h (s.block.word h)))))
  | refused {s id page h old}
      (task : s.tasks id = some (.read page (.cas h old))) (admits : old.acquire = none) :
      PageStep track s (s.next s.block id none)
  | granted {s id page h old new}
      (task : s.tasks id = some (.read page (.cas h old))) (admits : old.acquire = some new)
      (current : s.block.word h = old) :
      PageStep track s (s.next (s.block.setWord h new) id (some (.read page (.guard h))))
  /-- The exchange lost to another one, or failed spuriously. -/
  | acquireAgain {s id page h old new}
      (task : s.tasks id = some (.read page (.cas h old))) (admits : old.acquire = some new) :
      PageStep track s (s.next s.block id (some (.read page (.cas h (s.block.word h)))))
  | releaseFailed {s id page h} (task : s.tasks id = some (.read page (.guard h))) :
      PageStep track s (s.next (s.block.setWord h (s.block.word h).releaseFailed) id none)
  | recordAccess {s id page h} (now : Option Nat)
      (task : s.tasks id = some (.read page (.guard h))) :
      PageStep track s (s.next (now.elim s.block (s.block.touch h)) id
        (some (.read page (.releaseLoad h))))
  | releaseLoad {s id page h} (task : s.tasks id = some (.read page (.releaseLoad h))) :
      PageStep track s (s.next s.block id (some (.read page (.releaseCas h (s.block.word h)))))
  | releaseAgain {s id page h old} (task : s.tasks id = some (.read page (.releaseCas h old))) :
      PageStep track s (s.next s.block id (some (.read page (.releaseCas h (s.block.word h)))))
  | released {s id page h old} (task : s.tasks id = some (.read page (.releaseCas h old)))
      (current : s.block.word h = old) :
      PageStep track s (s.next (s.block.completeRead h old.releaseRead) id none)
  | select {s id page c b}
      (free : s.tasks id = none) (selected : s.block.candidate page = some (c, b)) :
      PageStep track s (s.next b id (some (.gc c .lock)))
  | gcLock {s id c} (task : s.tasks id = some (.gc c .lock)) (unlocked : ∀ j, s.modeOf j = none) :
      PageStep track s (s.next s.block id (some (.gc c .check)))
  /-- The capacity target is met. -/
  | gcLeave {s id c} (task : s.tasks id = some (.gc c .check)) :
      PageStep track s (s.next s.block id none)
  | gcRefused {s id now c tti b}
      (task : s.tasks id = some (.gc c .check)) (refused : s.block.claim c now tti = (false, b)) :
      PageStep track s (s.next b id none)
  | gcClaim {s id now c tti b}
      (task : s.tasks id = some (.gc c .check)) (claimed : s.block.claim c now tti = (true, b)) :
      PageStep track s (s.next b id (some (.gc c .claimed)))
  | gcFinish {s id c} (task : s.tasks id = some (.gc c .claimed)) :
      PageStep track s (s.next (s.block.finish c) id (some (.gc c .finished)))
  | gcAbort {s id c} (reason : Fin 3) (task : s.tasks id = some (.gc c .claimed)) :
      PageStep track s (s.next (s.block.abort c reason) id (some (.gc c .aborted)))
  | gcEnd {s id c point}
      (task : s.tasks id = some (.gc c point)) (done : point = .finished ∨ point = .aborted) :
      PageStep track s (s.next s.block id none)
  | beginWhole {s id} (free : s.tasks id = none) :
      PageStep track s (s.next s.block id (some (.whole .lock)))
  | wholeLock {s id} (task : s.tasks id = some (.whole .lock)) (unlocked : ∀ j, s.modeOf j = none) :
      PageStep track s (s.next s.block id (some (.whole .check)))
  | wholeClaim {s id entries b handles} (task : s.tasks id = some (.whole .check))
      (listing : PartialMap.Lists entries s.block.pages)
      (claimed : s.block.closeAll [] (entries.map fun x => x.2.handle) = (b, some handles)) :
      PageStep track s (s.next b id (some (.whole (.claimed handles))))
  | wholeRefused {s id entries b} (task : s.tasks id = some (.whole .check))
      (listing : PartialMap.Lists entries s.block.pages)
      (refused : s.block.closeAll [] (entries.map fun x => x.2.handle) = (b, none)) :
      PageStep track s (s.next b id none)
  | wholeFinish {s id handles} (task : s.tasks id = some (.whole (.claimed handles))) :
      PageStep track s (s.next s.block.clear id (some (.whole (.finished handles))))
  | wholeDrop {s id handles} (task : s.tasks id = some (.whole (.claimed handles))) :
      PageStep track s (s.next s.block id (some (.whole (.reopening handles handles))))
  | wholeReopen {s id h handles rest}
      (task : s.tasks id = some (.whole (.reopening handles (h :: rest)))) :
      PageStep track s
        (s.next (s.block.reopen h) id (some (.whole (.reopening handles rest))))
  | wholeReopened {s id handles} (task : s.tasks id = some (.whole (.reopening handles []))) :
      PageStep track s (s.next s.block id (some (.whole (.reopened handles))))
  | wholeEnd {s id point} (task : s.tasks id = some (.whole point))
      (done : (∃ handles, point = .finished handles) ∨ ∃ handles, point = .reopened handles) :
      PageStep track s (s.next s.block id none)
  | beginFill {s id} (page : Nat) (access : Option Nat) (dirty : Bool)
      (mode : GateMode) (free : s.tasks id = none) :
      PageStep track s (s.next s.block id (some (.fill page access dirty mode .lock)))
  | fillLock {s id page access dirty}
      (task : s.tasks id = some (.fill page access dirty .exclusive .lock))
      (unlocked : ∀ j, s.modeOf j = none) :
      PageStep track s (s.next s.block id (some (.fill page access dirty .exclusive .register)))
  | fillLockShared {s id page access dirty}
      (task : s.tasks id = some (.fill page access dirty .shared .lock))
      (unlocked : ∀ j, s.modeOf j ≠ some .exclusive) :
      PageStep track s (s.next s.block id (some (.fill page access dirty .shared .register)))
  | fillRegister {s id page access dirty mode}
      (task : s.tasks id = some (.fill page access dirty mode .register)) :
      PageStep track s (s.next (s.block.register page access track dirty) id
        (some (.fill page access dirty mode .registered)))
  | fillEnd {s id page access dirty mode}
      (task : s.tasks id = some (.fill page access dirty mode .registered)) :
      PageStep track s (s.next s.block id none)

/-! ## What a task knows of the block -/

variable {h : Nat} {c : GcCandidate}

variable {t : PageTask} {handles : List Nat}

namespace BlockPages

structure CandidateOk (b : BlockPages) (c : GcCandidate) : Prop where
  known : c.handle < b.fresh
  home : (b.heap c.handle).page = c.page
  entry : ∀ e, b.pages c.page = some e → e.handle = c.handle → c.selection ≤ e.selection ∧
    (e.selection = c.selection → (b.view c.handle).accessed = false → b.reads c.page = c.since)

def HandleOk (b : BlockPages) (page h : Nat) : Prop := h < b.fresh ∧ (b.heap h).page = page

def ReaderOk (b : BlockPages) (page : Nat) : ReaderPoint → Prop
  | .lookup => True
  | .load h | .cas h _ | .guard h | .releaseLoad h | .releaseCas h _ => b.HandleOk page h

def GcOk (b : BlockPages) (c : GcCandidate) : GcPoint → Prop
  | .lock | .check => True
  | .claimed => b.pages c.page = some ⟨c.handle, c.selection⟩ ∧
      (b.view c.handle).closed = true ∧ b.reads c.page = c.since
  | .finished => c.handle ∈ b.removed
  | .aborted => ∃ e, b.pages c.page = some e ∧ e.handle = c.handle ∧
      (b.view c.handle).closed = false

def WholeOk (b : BlockPages) : WholePoint → Prop
  | .lock | .check => True
  | .claimed handles => (∀ h, b.InTable h → (b.view h).closed = true) ∧ ∀ h ∈ handles, b.InTable h
  | .reopening handles rest => (∀ h ∈ rest, h ∈ handles) ∧
      ∀ h ∈ handles, b.InTable h ∧ (h ∈ rest ∨ (b.view h).closed = false)
  | .reopened handles => ∀ h ∈ handles, b.InTable h ∧ (b.view h).closed = false
  | .finished handles => ∀ h ∈ handles, h ∈ b.removed

def TaskOk (b : BlockPages) : PageTask → Prop
  | .read page point => b.ReaderOk page point
  | .gc c point => b.CandidateOk c ∧ b.GcOk c point
  | .whole point => b.WholeOk point
  | .fill _ _ _ _ _ => True

section

variable {b b' : BlockPages}

variable {page : Nat}

theorem HandleOk.keeps (ok : b.HandleOk page h) (keeps : Keeps b b') : b'.HandleOk page h :=
  ⟨lt_of_lt_of_le ok.1 keeps.fresh, (keeps.page h ok.1).trans ok.2⟩

theorem ReaderOk.keeps {point : ReaderPoint} (ok : b.ReaderOk page point)
    (keeps : Keeps b b') : b'.ReaderOk page point := by
  cases point with
  | lookup => trivial
  | load | cas | guard | releaseLoad | releaseCas => exact HandleOk.keeps ok keeps

theorem CandidateOk.keeps (ok : b.CandidateOk c) (keeps : Keeps b b') : b'.CandidateOk c where
  known := lt_of_lt_of_le ok.known keeps.fresh
  home := (keeps.page _ ok.known).trans ok.home
  entry e' found same := by
    obtain new | ⟨e, before, eq, since⟩ := keeps.entry _ e' found
    · rw [same] at new
      exact absurd ok.known (not_lt.mpr new)
    · obtain ⟨le, unread⟩ := ok.entry e before (eq.trans same)
      obtain more | ⟨equal, kept⟩ := since
      · exact ⟨le_of_lt (lt_of_le_of_lt le more),
          fun again => absurd (again ▸ more) (not_lt.mpr le)⟩
      · refine ⟨equal ▸ le, fun again clear => ?_⟩
        rw [same] at kept
        obtain ⟨clear', reads⟩ := kept clear
        exact reads.trans (unread (equal.trans again) clear')

theorem TaskOk.keeps (ok : b.TaskOk t) (keeps : Keeps b b') (outside : t.mode ≠ some .exclusive) :
    b'.TaskOk t := by
  cases t with
  | read => exact ReaderOk.keeps ok keeps
  | gc c point =>
    cases point with
    | lock => exact ⟨ok.1.keeps keeps, trivial⟩
    | check | claimed | finished | aborted => exact absurd rfl outside
  | whole point =>
    cases point with
    | lock => trivial
    | check | claimed | reopening | reopened | finished => exact absurd rfl outside
  | fill => trivial

theorem TaskOk.known_of_guard (ok : b.TaskOk t) (guard : t.guards = some h) : h < b.fresh := by
  cases t with
  | read _ point =>
    cases point with
    | lookup | load | cas => cases guard
    | guard | releaseLoad | releaseCas => exact some.inj guard ▸ ok.1
  | gc | whole | fill => cases guard

theorem GcOk.calm {point : GcPoint} (ok : b.GcOk c point) (calm : Calm b b') : b'.GcOk c point := by
  cases point with
  | lock | check => trivial
  | claimed =>
    obtain ⟨entry, closed, unread⟩ := ok
    obtain ⟨entry', reads⟩ := calm.still _ _ entry closed
    exact ⟨entry', (calm.closed _).trans closed, reads.trans unread⟩
  | finished => exact calm.removed ok
  | aborted =>
    obtain ⟨e, found, same, opened⟩ := ok
    obtain ⟨e', found', same'⟩ := calm.entry_iff.mpr ⟨e, found, same⟩
    exact ⟨e', found', same', (calm.closed _).trans opened⟩

theorem WholeOk.calm {point : WholePoint} (ok : b.WholeOk point) (calm : Calm b b') :
    b'.WholeOk point := by
  cases point with
  | lock | check => trivial
  | claimed =>
    exact ⟨fun h listed => (calm.closed h).trans (ok.1 h (calm.inTable_iff.mp listed)),
      fun h mem => calm.inTable_iff.mpr (ok.2 h mem)⟩
  | reopening =>
    refine ⟨ok.1, fun h mem => ?_⟩
    obtain ⟨listed, opened⟩ := ok.2 h mem
    exact ⟨calm.inTable_iff.mpr listed, opened.imp_right (calm.closed h).trans⟩
  | reopened =>
    intro h mem
    obtain ⟨listed, opened⟩ := ok h mem
    exact ⟨calm.inTable_iff.mpr listed, (calm.closed h).trans opened⟩
  | finished => exact fun h mem => calm.removed (ok h mem)

theorem TaskOk.calm (ok : b.TaskOk t) (calm : Calm b b') : b'.TaskOk t := by
  cases t with
  | read => exact ReaderOk.keeps ok calm.toKeeps
  | gc => exact ⟨ok.1.keeps calm.toKeeps, ok.2.calm calm⟩
  | whole => exact WholeOk.calm ok calm
  | fill => trivial

end

end BlockPages

/-! ## The invariant -/

namespace PageRun

structure Ok (s : PageRun) : Prop where
  block : s.block.Ok
  tasks : ∀ id t, s.tasks id = some t → s.block.TaskOk t
  gate : ∀ i j, s.modeOf i = some .exclusive → s.modeOf j ≠ none → i = j
  counts : Holders.Counts PageTask.guards s.tasks fun h => (s.block.view h).readers
  held : ∀ h, s.block.InTable h → (s.block.view h).closed = true →
    ∃ id t, s.tasks id = some t ∧ h ∈ t.claims

variable {s : PageRun} {id : Nat} {b : BlockPages} {t : PageTask} {new : Option PageTask}

theorem modeOf_of_task (task : s.tasks id = some t) : s.modeOf id = t.mode := by
  rw [modeOf, task]
  rfl

theorem modeOf_next_self : (s.next b id new).modeOf id = new.bind PageTask.mode := by
  simp [modeOf, next]

theorem modeOf_next_of_ne {j : Nat} (other : j ≠ id) : (s.next b id new).modeOf j = s.modeOf j := by
  simp [modeOf, next, other]

theorem Ok.gate_next (ok : s.Ok)
    (mode : new.bind PageTask.mode = none ∨ new.bind PageTask.mode = s.modeOf id) :
    ∀ i j, (s.next b id new).modeOf i = some .exclusive → (s.next b id new).modeOf j ≠ none →
      i = j := by
  have before : ∀ i m, (s.next b id new).modeOf i = some m → s.modeOf i = some m := by
    intro i m now
    by_cases same : i = id
    · subst same
      rw [modeOf_next_self] at now
      obtain none | kept := mode
      · rw [none] at now
        cases now
      · rw [← kept]
        exact now
    · rw [modeOf_next_of_ne same] at now
      exact now
  intro i j first second
  obtain ⟨m, held⟩ := ne_none_iff_exists'.mp second
  exact ok.gate i j (before i _ first) (by rw [before j m held]; exact some_ne_none m)

theorem Ok.tasks_next (own : new.elim True b.TaskOk)
    (others : ∀ j u, j ≠ id → s.tasks j = some u → b.TaskOk u) :
    ∀ j u, (s.next b id new).tasks j = some u → b.TaskOk u := by
  intro j u found
  by_cases same : j = id
  · subst same
    obtain rfl : new = some u := by simpa [next] using found
    exact own
  · exact others j u same (by simpa [next, same] using found)

variable {old : Option PageTask}

theorem Ok.counts_next (ok : s.Ok) (task : s.tasks id = old)
    (guards : new.bind PageTask.guards = old.bind PageTask.guards)
    (readers : ∀ h, (b.view h).readers = (s.block.view h).readers) :
    Holders.Counts PageTask.guards (update s.tasks id new) fun h => (b.view h).readers :=
  (ok.counts.keep (task ▸ guards)).congr readers

/-- What is closed after a step was closed by the task of the step, or before it and by another
task. -/
theorem Ok.held_next (ok : s.Ok) (task : s.tasks id = old)
    (cause : ∀ h, b.InTable h → (b.view h).closed = true → h ∈ new.elim [] PageTask.claims ∨
      (s.block.InTable h ∧ (s.block.view h).closed = true ∧ h ∉ old.elim [] PageTask.claims)) :
    ∀ h, b.InTable h → (b.view h).closed = true →
      ∃ j t, (s.next b id new).tasks j = some t ∧ h ∈ t.claims := by
  intro h listed closed
  rcases cause h listed closed with mine | ⟨before, shut, other⟩
  · cases new with
    | none => cases mine
    | some t => exact ⟨id, t, update_self .., mine⟩
  · obtain ⟨j, t, found, mem⟩ := ok.held h before shut
    refine ⟨j, t, (update_of_ne ?_ ..).trans found, mem⟩
    rintro rfl
    rw [← task, found] at other
    exact other mem

theorem Ok.calm (ok : s.Ok) (task : s.tasks id = old) (calm : BlockPages.Calm s.block b)
    (block : b.Ok) (own : new.elim True b.TaskOk)
    (mode : new.bind PageTask.mode = none ∨ new.bind PageTask.mode = s.modeOf id)
    (counts : Holders.Counts PageTask.guards (update s.tasks id new) fun h => (b.view h).readers)
    (claims : old.elim [] PageTask.claims ⊆ new.elim [] PageTask.claims) :
    (s.next b id new).Ok := by
  refine ⟨block, Ok.tasks_next own fun j u _ found => (ok.tasks j u found).calm calm,
    ok.gate_next mode, counts, ok.held_next task fun h listed closed => ?_⟩
  by_cases mine : h ∈ old.elim [] PageTask.claims
  · exact .inl (claims mine)
  · exact .inr ⟨calm.inTable_iff.mp listed, (calm.closed h).symm.trans closed, mine⟩

theorem Ok.stay (ok : s.Ok) (task : s.tasks id = old) (own : new.elim True s.block.TaskOk)
    (mode : new.bind PageTask.mode = none ∨ new.bind PageTask.mode = old.bind PageTask.mode)
    (guards : new.bind PageTask.guards = old.bind PageTask.guards)
    (claims : old.elim [] PageTask.claims ⊆ new.elim [] PageTask.claims) :
    (s.next s.block id new).Ok :=
  ok.calm task (.of_eq (fun _ => rfl) (fun _ => rfl) rfl rfl rfl rfl) ok.block own
    (by rw [modeOf, task]; exact mode) (ok.counts_next task guards fun _ => rfl) claims

theorem Ok.lock (ok : s.Ok) (task : s.tasks id = old) (own : s.block.TaskOk t)
    (guards : t.guards = old.bind PageTask.guards) (unlocked : ∀ j, s.modeOf j = none)
    (claims : old.elim [] PageTask.claims = []) : (s.next s.block id (some t)).Ok := by
  refine ⟨ok.block, Ok.tasks_next own fun j u _ => ok.tasks j u, ?_,
    ok.counts_next task guards fun _ => rfl, ok.held_next task fun h listed closed =>
      .inr ⟨listed, closed, by rw [claims]; exact not_mem_nil⟩⟩
  intro i j first second
  have alone : ∀ k, (s.next s.block id (some t)).modeOf k ≠ none → k = id := by
    intro k held
    by_contra other
    exact held ((modeOf_next_of_ne other).trans (unlocked k))
  rw [alone i (first ▸ some_ne_none _), alone j second]

theorem Ok.gated (ok : s.Ok) (task : s.tasks id = some t) (exclusive : t.mode = some .exclusive)
    (keeps : BlockPages.Keeps s.block b) (block : b.Ok) (own : new.elim True b.TaskOk)
    (mode : new.bind PageTask.mode = none ∨ new.bind PageTask.mode = some .exclusive)
    (readers : ∀ h, (b.view h).readers = (s.block.view h).readers)
    (guards : new.bind PageTask.guards = none)
    (cause : ∀ h, b.InTable h → (b.view h).closed = true → h ∈ new.elim [] PageTask.claims ∨
      (s.block.InTable h ∧ (s.block.view h).closed = true ∧ h ∉ t.claims)) :
    (s.next b id new).Ok := by
  have held := (modeOf_of_task task).trans exclusive
  refine ⟨block, Ok.tasks_next own ?_, ok.gate_next (held ▸ mode), ?_, ok.held_next task cause⟩
  · intro j u other found
    apply (ok.tasks j u found).keeps keeps
    intro also
    have both : s.modeOf j ≠ none := by
      rw [modeOf_of_task found, also]
      exact some_ne_none _
    exact other (ok.gate id j held both).symm
  · refine ok.counts_next task (guards.trans ?_) readers
    cases t with
    | read => cases exclusive
    | gc | whole | fill => rfl

theorem Ok.open_of_guard (ok : s.Ok) (task : s.tasks id = some t) (guard : t.guards = some h) :
    0 < (s.block.view h).readers ∧ (s.block.view h).closed = false := by
  have counted := ok.counts.pos task guard
  refine ⟨counted, ?_⟩
  by_contra closed
  rw [Bool.not_eq_false] at closed
  rw [ok.block.idle h closed] at counted
  exact lt_irrefl 0 counted

/-! ### Readers -/

variable {page : Nat}

theorem Ok.granted (ok : s.Ok) {old w : PageWord}
    (task : s.tasks id = some (.read page (.cas h old))) (admits : old.acquire = some w)
    (current : s.block.word h = old) :
    (s.next (s.block.setWord h w) id (some (.read page (.guard h)))).Ok := by
  obtain ⟨opened, view⟩ := PageWord.acquire_some admits
  have here : s.block.view h = old.view := by rw [BlockPages.view, current]
  have closed : w.view.closed = (s.block.view h).closed := by rw [view, here]
  have calm := calm_setWord closed (by rw [view, here])
  have known : s.block.HandleOk page h := ok.tasks _ _ task
  refine ok.calm task calm (ok.block.calm calm fun j shut => ?_) (known.keeps calm.toKeeps)
    (.inl rfl) ?_
    (nil_subset _)
  · by_cases same : j = h
    · rw [same, calm.closed, here, opened] at shut
      cases shut
    · rw [view_setWord_of_ne same] at shut ⊢
      exact ok.block.idle j shut
  · have before : (s.tasks id).bind PageTask.guards = none := by
      rw [task]
      rfl
    have gained : Holders.Counts PageTask.guards
        (update s.tasks id (some (.read page (.guard h)))) _ := ok.counts.gain before rfl
    refine gained.congr fun j => ?_
    by_cases same : j = h
    · subst same
      rw [update_self, view_setWord_self, view, here]
    · rw [update_of_ne same, view_setWord_of_ne same]

theorem Ok.release (ok : s.Ok) (task : s.tasks id = some t) (guard : t.guards = some h)
    (calm : BlockPages.Calm s.block b) (count : (b.view h).readers = (s.block.view h).readers - 1)
    (rest : ∀ j, j ≠ h → b.view j = s.block.view j) (claims : t.claims = []) :
    (s.next b id none).Ok := by
  obtain ⟨_, opened⟩ := ok.open_of_guard task guard
  refine ok.calm task calm (ok.block.calm calm fun j shut => ?_) trivial (.inl rfl) ?_
    (subset_nil.mpr claims)
  · by_cases same : j = h
    · rw [same, calm.closed, opened] at shut
      cases shut
    · rw [rest j same] at shut ⊢
      exact ok.block.idle j shut
  · have before : (s.tasks id).bind PageTask.guards = some h := by
      rw [task]
      exact guard
    have lost : Holders.Counts PageTask.guards (update s.tasks id none) _ :=
      ok.counts.lose before rfl
    refine lost.congr fun j => ?_
    by_cases same : j = h
    · subst same
      rw [update_self, count]
    · rw [update_of_ne same, rest j same]

theorem Ok.releaseFailed (ok : s.Ok) (task : s.tasks id = some (.read page (.guard h))) :
    (s.next (s.block.setWord h (s.block.word h).releaseFailed) id none).Ok := by
  obtain ⟨counted, _⟩ := ok.open_of_guard task rfl
  have view := PageWord.view_releaseFailed counted
  have calm := calm_setWord (b := s.block) (h := h)
    (w := (s.block.word h).releaseFailed) (by rw [view]; rfl) (by rw [view]; rfl)
  refine ok.release task rfl calm ?_ (fun j other => view_setWord_of_ne other) rfl
  rw [view_setWord_self, view]
  rfl

theorem Ok.recordAccess (ok : s.Ok) {now : Option Nat}
    (task : s.tasks id = some (.read page (.guard h))) :
    (s.next (now.elim s.block (s.block.touch h)) id (some (.read page (.releaseLoad h)))).Ok := by
  have known : s.block.HandleOk page h := ok.tasks _ _ task
  cases now with
  | none => exact ok.stay task known (.inl rfl) rfl (nil_subset _)
  | some now =>
    have calm := calm_touch (b := s.block) h now
    have views : ∀ j, (s.block.touch h now).view j = s.block.view j :=
      fun j => congrArg _ word_touch
    rw [elim_some]
    refine ok.calm task calm (ok.block.calm calm fun j shut => ?_) (known.keeps calm.toKeeps)
      (.inl rfl)
      (ok.counts_next task rfl fun j => by rw [views]) (nil_subset _)
    rw [views] at shut ⊢
    exact ok.block.idle j shut

theorem Ok.released (ok : s.Ok) {old : PageWord}
    (task : s.tasks id = some (.read page (.releaseCas h old))) (current : s.block.word h = old) :
    (s.next (s.block.completeRead h old.releaseRead) id none).Ok := by
  obtain ⟨counted, opened⟩ := ok.open_of_guard task rfl
  have known : s.block.HandleOk page h := ok.tasks _ _ task
  have here : s.block.view h = old.view := by rw [view, current]
  rw [here] at counted
  have view := PageWord.view_releaseRead counted
  have calm := calm_completeRead ok.block (w := old.releaseRead) known.1 opened
    (by rw [view, ← here]; exact opened) (by rw [view])
  refine ok.release task rfl calm ?_ (fun j other => view_setWord_of_ne other) rfl
  refine (congrArg _ view_setWord_self).trans ?_
  rw [view, here]

/-! ### Page collection -/

theorem Ok.select (ok : s.Ok) (free : s.tasks id = none)
    (selected : s.block.candidate page = some (c, b)) : (s.next b id (some (.gc c .lock))).Ok := by
  have calm := calm_candidate ok.block selected
  obtain ⟨e, found, _, rfl, rfl⟩ := candidate_some selected
  have readers : ∀ j, ((s.block.setWord e.handle (s.block.word e.handle).takeAccessed).view
      j).readers = (s.block.view j).readers :=
    view_setWord_same PageWord.View.readers (by rw [PageWord.view_takeAccessed]; rfl)
  refine ok.calm free calm (ok.block.calm calm fun j shut => ?_) ?_ (.inl rfl)
    (ok.counts_next free rfl readers) (nil_subset _)
  · rw [calm.closed] at shut
    exact (readers j).trans (ok.block.idle j shut)
  · refine ⟨⟨ok.block.allocated _ _ found, ?_, ?_⟩, trivial⟩
    · exact page_setWord.trans (ok.block.home _ _ found)
    · intro f there _
      obtain rfl : (⟨e.handle, e.selection + 1⟩ : PageEntry) = f := by simpa using there
      exact ⟨le_refl _, fun _ _ => rfl⟩

theorem Ok.gcClaim (ok : s.Ok) {now : Nat} {tti : Option Nat}
    (task : s.tasks id = some (.gc c .check)) (claimed : s.block.claim c now tti = (true, b)) :
    (s.next b id (some (.gc c .claimed))).Ok := by
  obtain ⟨entry, view, rfl⟩ := claim_true claimed
  obtain ⟨candidate, _⟩ := ok.tasks _ _ task
  have idle : (s.block.view c.handle).readers = 0 := by rw [view]
  have unread := (candidate.entry _ entry rfl).2 rfl (by rw [view])
  have closed : ((s.block.setWord c.handle (s.block.word c.handle).close).view c.handle).closed =
      true := by
    rw [view_setWord_self, PageWord.view_close]
  refine ok.gated task rfl keeps_close (ok.block.close idle)
    ⟨candidate.keeps keeps_close, entry, closed, unread⟩ (.inr rfl) ?_ rfl fun j listed shut => ?_
  · exact view_setWord_same PageWord.View.readers (by rw [PageWord.view_close]; rfl)
  · by_cases same : j = c.handle
    · exact .inl (mem_singleton.mpr same)
    · rw [view_setWord_of_ne same] at shut
      exact .inr ⟨listed, shut, not_mem_nil⟩

theorem Ok.gcFinish (ok : s.Ok) (task : s.tasks id = some (.gc c .claimed)) :
    (s.next (s.block.finish c) id (some (.gc c .finished))).Ok := by
  obtain ⟨candidate, entry, closed, _⟩ := ok.tasks _ _ task
  refine ok.gated task rfl keeps_finish (ok.block.finish entry closed) ?_ (.inr rfl) ?_ rfl ?_
  · refine ⟨candidate.keeps keeps_finish, ?_⟩
    rw [BlockPages.GcOk, finish_eq entry closed]
    exact Or.inl rfl
  · intro j
    rw [finish_eq entry closed]
    rfl
  · rw [finish_eq entry closed]
    rintro _ ⟨p, e, found, rfl⟩ shut
    have elsewhere : p ≠ c.page := by
      rintro rfl
      simp at found
    have before : s.block.pages p = some e := by simpa [elsewhere] using found
    refine .inr ⟨⟨p, e, before, rfl⟩, shut, fun mem => elsewhere ?_⟩
    rw [← ok.block.home p e before, mem_singleton.mp mem]
    exact ok.block.home c.page _ entry

theorem Ok.gcAbort (ok : s.Ok) {reason : Fin 3} (task : s.tasks id = some (.gc c .claimed)) :
    (s.next (s.block.abort c reason) id (some (.gc c .aborted))).Ok := by
  obtain ⟨candidate, entry, _, _⟩ := ok.tasks _ _ task
  rw [show s.block.abort c reason = s.block.setWord c.handle
    ((s.block.word c.handle).abort reason) by
    simp [abort, entry]]
  refine ok.gated task rfl keeps_abort
    (ok.block.abort ⟨c.page, _, entry, rfl⟩) ?_ (.inr rfl) ?_ rfl fun j listed shut => ?_
  · refine ⟨candidate.keeps keeps_abort, _, entry, rfl, ?_⟩
    rw [view_setWord_self, PageWord.view_abort]
  · exact view_setWord_same PageWord.View.readers (by rw [PageWord.view_abort]; rfl)
  · by_cases same : j = c.handle
    · rw [same, view_setWord_self, PageWord.view_abort] at shut
      cases shut
    · rw [view_setWord_of_ne same] at shut
      exact .inr ⟨listed, shut, mem_singleton.not.mpr same⟩

/-! ### Whole-block claims -/

theorem Ok.wholeClaim (ok : s.Ok) {entries : List (Nat × PageEntry)}
    (task : s.tasks id = some (.whole .check)) (listing : PartialMap.Lists entries s.block.pages)
    (claimed : s.block.closeAll [] (entries.map fun x => x.2.handle) = (b, some handles)) :
    (s.next b id (some (.whole (.claimed handles)))).Ok := by
  obtain ⟨rfl, all⟩ := closeAll_some claimed
  have every : ∀ h, b.InTable h → h ∈ entries.map fun x => x.2.handle := by
    rintro _ ⟨p, e, found, rfl⟩
    rw [all.pages] at found
    exact mem_map.mpr ⟨(p, e), (listing.mem_iff p e).mpr found, rfl⟩
  refine ok.gated task rfl all.keeps (all.ok ok.block) ?_ (.inr rfl) all.readers rfl
    fun h listed _ => .inl (every h listed)
  refine ⟨fun h listed => all.closed h (.inl (every h listed)), fun h mem => ?_⟩
  · obtain ⟨⟨p, e⟩, listed, rfl⟩ :=
      mem_map.mp (show h ∈ entries.map fun x => x.2.handle from mem)
    exact ⟨p, e, all.pages ▸ (listing.mem_iff p e).mp listed, rfl⟩

theorem Ok.wholeFinish (ok : s.Ok) (task : s.tasks id = some (.whole (.claimed handles))) :
    (s.next s.block.clear id (some (.whole (.finished handles)))).Ok := by
  obtain ⟨closed, listed⟩ := ok.tasks _ _ task
  refine ok.gated task rfl ⟨le_rfl, fun _ _ => rfl, fun _ _ found => ?_, fun _ mem => .inl mem⟩
    (ok.block.clear closed) (fun h mem => .inr (listed h mem)) (.inr rfl) (fun _ => rfl) rfl
    fun h listed _ => absurd listed not_inTable_clear
  cases found

theorem Ok.wholeReopen (ok : s.Ok) {rest : List Nat}
    (task : s.tasks id = some (.whole (.reopening handles (h :: rest)))) :
    (s.next (s.block.reopen h) id (some (.whole (.reopening handles rest)))).Ok := by
  obtain ⟨inside, known⟩ := ok.tasks _ _ task
  have listed := (known h (inside h mem_cons_self)).1
  have view : (s.block.reopen h).view h = { s.block.view h with closed := false } := by
    rw [reopen, view_setWord_self, PageWord.view_reopen]
    rfl
  have rest_view : ∀ j, j ≠ h → (s.block.reopen h).view j = s.block.view j :=
    fun j other => view_setWord_of_ne other
  refine ok.gated task rfl keeps_reopen (ok.block.reopen listed) ?_ (.inr rfl) ?_ rfl ?_
  · refine ⟨fun j mem => inside j (mem_cons_of_mem _ mem), fun j mem => ?_⟩
    obtain ⟨there, opened⟩ := known j mem
    refine ⟨there, ?_⟩
    by_cases same : j = h
    · exact .inr (by rw [same, view])
    · rw [rest_view j same]
      exact opened.imp_left fun mem => (mem_cons.mp mem).resolve_left same
  · exact view_setWord_same PageWord.View.readers (by rw [PageWord.view_reopen]; rfl)
  · intro j there shut
    have other : j ≠ h := by
      rintro rfl
      rw [view] at shut
      cases shut
    rw [rest_view j other] at shut
    by_cases left : j ∈ rest
    · exact .inl left
    · exact .inr ⟨there, shut, fun mem => (mem_cons.mp mem).elim other left⟩

/-! ### Admissions -/

variable {access : Option Nat}

theorem Ok.lockShared (ok : s.Ok) {dirty : Bool}
    (task : s.tasks id = some (.fill page access dirty .shared .lock))
    (unlocked : ∀ j, s.modeOf j ≠ some .exclusive) :
    (s.next s.block id (some (.fill page access dirty .shared .register))).Ok := by
  refine ⟨ok.block, Ok.tasks_next trivial fun j u _ => ok.tasks j u, ?_,
    ok.counts_next task rfl fun _ => rfl,
    ok.held_next task fun h listed closed => .inr ⟨listed, closed, not_mem_nil⟩⟩
  intro i j exclusive
  by_cases same : i = id
  · subst same
    rw [modeOf_next_self] at exclusive
    cases exclusive
  · rw [modeOf_next_of_ne same] at exclusive
    exact absurd exclusive (unlocked i)

theorem Ok.fillRegister (ok : s.Ok) {track dirty : Bool} {mode : GateMode}
    (task : s.tasks id = some (.fill page access dirty mode .register)) :
    (s.next (s.block.register page access track dirty) id
      (some (.fill page access dirty mode .registered))).Ok := by
  have admits := admits_register s.block page access track dirty
  have held := modeOf_of_task task
  -- no task has a handle that is not made yet
  have unused : (s.block.view s.block.fresh).readers = 0 := by
    by_contra counted
    obtain ⟨j, u, found, guard⟩ := ok.counts.exists_of_pos (pos_of_ne_zero counted)
    exact lt_irrefl _ ((ok.tasks j u found).known_of_guard guard)
  refine ⟨admits.ok ok.block, Ok.tasks_next trivial ?_, ok.gate_next (.inr held.symm),
    ok.counts_next task rfl fun h => ?_, ok.held_next task fun h listed closed =>
      .inr ⟨(admits.shut h listed closed).1, (admits.shut h listed closed).2, not_mem_nil⟩⟩
  · intro j u other found
    apply (ok.tasks j u found).keeps admits.keeps
    intro exclusive
    have alone := ok.gate j id ((modeOf_of_task found).trans exclusive)
      (held ▸ some_ne_none _)
    exact other alone
  · by_cases new : h = s.block.fresh
    · rw [new]
      obtain zero | same := admits.fresh
      · exact zero.trans unused.symm
      · exact same
    · exact admits.readers h new

theorem Initial.ok (initial : s.Initial) : s.Ok where
  block := by
    have absent : ∀ h, s.block.view h = ⟨0, false, false⟩ := by
      intro h
      rw [view, initial.words, PageWord.view_zero]
    refine ⟨fun p e found => ?_, fun p e found => ?_, fun h known => ?_, fun h closed => ?_,
      fun h mem => ?_⟩
    · rw [initial.pages] at found
      cases found
    · rw [initial.pages] at found
      cases found
    · rw [initial.fresh] at known
      exact absurd known (not_lt_zero h)
    · rw [absent] at closed
      cases closed
    · rw [initial.removed] at mem
      cases mem
  tasks id t found := by
    rw [initial.tasks] at found
    cases found
  gate i j held := by
    rw [modeOf, initial.tasks] at held
    cases held
  counts := by
    refine ⟨fun _ => ∅, fun h id => ?_, fun h => ?_⟩
    · rw [initial.tasks]
      simp
    · show (s.block.view h).readers = 0
      rw [view, initial.words, PageWord.view_zero]
  held := by
    rintro _ ⟨p, e, found, -⟩
    rw [initial.pages] at found
    cases found

end PageRun

/-- Every step of a task keeps the counts and the closed pages of the block. -/
theorem PageStep.keeps_ok {track : Bool} {s s' : PageRun} (step : PageStep track s s') (ok : s.Ok) :
    s'.Ok := by
  cases step with
  | beginRead _ free | beginWhole free => exact ok.stay free trivial (.inl rfl) rfl (nil_subset _)
  | @lookup _ page e task found =>
    have known : s.block.HandleOk page e.handle :=
      ⟨ok.block.allocated _ _ found, ok.block.home _ _ found⟩
    exact ok.stay task known (.inl rfl) rfl (nil_subset _)
  | lookupMiss task | refused task | gcLeave task | fillEnd task =>
    exact ok.stay task trivial (.inl rfl) rfl (nil_subset _)
  | granted task admits current => exact ok.granted task admits current
  | load task | acquireAgain task | releaseLoad task | releaseAgain task =>
    have known := ok.tasks _ _ task
    exact ok.stay task known (.inl rfl) rfl (nil_subset _)
  | releaseFailed task => exact ok.releaseFailed task
  | recordAccess _ task => exact ok.recordAccess task
  | released task current => exact ok.released task current
  | select free selected => exact ok.select free selected
  | gcLock task unlocked =>
    have known := ok.tasks _ _ task
    exact ok.lock task known rfl unlocked rfl
  | gcRefused task refused =>
    rw [claim_false refused]
    exact ok.stay task trivial (.inl rfl) rfl (nil_subset _)
  | gcClaim task claimed => exact ok.gcClaim task claimed
  | gcFinish task => exact ok.gcFinish task
  | gcAbort _ task => exact ok.gcAbort task
  | gcEnd task done =>
    obtain rfl | rfl := done <;> exact ok.stay task trivial (.inl rfl) rfl (nil_subset _)
  | wholeLock task unlocked | fillLock task unlocked => exact ok.lock task trivial rfl unlocked rfl
  | wholeClaim task listing claimed => exact ok.wholeClaim task listing claimed
  | wholeRefused task _ refused =>
    have none_closed : BlockPages.Closing s.block [] s.block := rfl
    rw [closeAll_none none_closed refused]
    exact ok.stay task trivial (.inl rfl) rfl (nil_subset _)
  | wholeFinish task => exact ok.wholeFinish task
  | @wholeDrop _ handles task =>
    obtain ⟨_, listed⟩ := ok.tasks _ _ task
    have known : s.block.WholeOk (.reopening handles handles) :=
      ⟨fun _ mem => mem, fun h mem => ⟨listed h mem, .inl mem⟩⟩
    exact ok.stay task known (.inr rfl) rfl (List.Subset.refl _)
  | wholeReopen task => exact ok.wholeReopen task
  | @wholeReopened _ handles task =>
    obtain ⟨_, known⟩ := ok.tasks _ _ task
    have opened : s.block.WholeOk (.reopened handles) := fun h mem =>
      ⟨(known h mem).1, (known h mem).2.resolve_left (not_mem_nil)⟩
    exact ok.stay task opened (.inr rfl) rfl (nil_subset _)
  | wholeEnd task done =>
    obtain ⟨_, rfl⟩ | ⟨_, rfl⟩ := done <;> exact ok.stay task trivial (.inl rfl) rfl (nil_subset _)
  | beginFill _ _ _ _ free =>
    exact ok.stay free trivial (.inl rfl) rfl (nil_subset _)
  | fillLockShared task unlocked => exact ok.lockShared task unlocked
  | fillRegister task => exact ok.fillRegister task

/-! ## Arbitration -/

namespace PageRun

def Unguarded (s : PageRun) (h : Nat) : Prop :=
  ∀ id t, s.tasks id = some t → t.guards ≠ some h

/-- Reads and deletions of the pages exclude each other. -/
structure Arbitrated (s : PageRun) : Prop where
  /-- A page is never claimed while a guard on it is held. -/
  guarded : ∀ h, (s.block.view h).closed = true → s.Unguarded h
  /-- Between a successful claim and its end the page stays closed, and no read of the page has
  completed since the candidate was selected. -/
  claimed : ∀ id c, s.tasks id = some (.gc c .claimed) →
    (s.block.view c.handle).closed = true ∧ s.Unguarded c.handle ∧ s.block.reads c.page = c.since
  /-- Between a whole-block claim and its end no page of the block grants a guard. -/
  whole : ∀ id handles, s.tasks id = some (.whole (.claimed handles)) →
    ∀ h, s.block.InTable h → (s.block.view h).closed = true ∧ s.Unguarded h
  /-- A removed handle stays closed. -/
  removed : ∀ h ∈ s.block.removed, (s.block.view h).closed = true ∧ s.Unguarded h
  finished : ∀ id c, s.tasks id = some (.gc c .finished) → c.handle ∈ s.block.removed
  wholeFinished : ∀ id handles, s.tasks id = some (.whole (.finished handles)) →
    ∀ h ∈ handles, h ∈ s.block.removed
  /-- An aborted claim leaves its page readable. -/
  aborted : ∀ id c, s.tasks id = some (.gc c .aborted) →
    ∃ e, s.block.pages c.page = some e ∧ e.handle = c.handle ∧
    (s.block.view c.handle).closed = false
  /-- A dropped claim leaves every page it closed readable. -/
  dropped : ∀ id handles, s.tasks id = some (.whole (.reopened handles)) →
    ∀ h ∈ handles, s.block.InTable h ∧ (s.block.view h).closed = false
  /-- Only a claim in progress keeps a page of the block closed: one that was refused, at a busy
  page or by the access time, leaves every page it closed readable too. -/
  held : ∀ h, s.block.InTable h → (s.block.view h).closed = true →
    ∃ id t, s.tasks id = some t ∧ h ∈ t.claims

theorem Ok.arbitrated {s : PageRun} (ok : s.Ok) : s.Arbitrated := by
  have guarded : ∀ h, (s.block.view h).closed = true → s.Unguarded h := by
    intro h closed id t found guard
    obtain ⟨_, opened⟩ := ok.open_of_guard found guard
    rw [closed] at opened
    cases opened
  refine ⟨guarded, fun id c found => ?_, fun id handles found h listed => ?_, fun h mem => ?_,
    fun id c found => (ok.tasks _ _ found).2, fun id handles found => ok.tasks _ _ found,
    fun id c found => (ok.tasks _ _ found).2, fun id handles found => ok.tasks _ _ found, ok.held⟩
  · obtain ⟨_, _, closed, unread⟩ := ok.tasks _ _ found
    exact ⟨closed, guarded _ closed, unread⟩
  · have closed := (ok.tasks _ _ found).1 h listed
    exact ⟨closed, guarded h closed⟩
  · obtain ⟨known, absent⟩ := ok.block.removed h mem
    have closed := ok.block.gone h known absent
    exact ⟨closed, guarded h closed⟩

end PageRun

/-- Whatever the interleaving, reads and deletions exclude each other. -/
theorem arbitrated_of_run {track : Bool} {s t : PageRun} (initial : s.Initial)
    (run : ReflTransGen (PageStep track) s t) : t.Arbitrated := by
  have ok : t.Ok := Transition.kept_by_run (fun _ _ step => step.keeps_ok) initial.ok run
  exact ok.arbitrated

def emptyRun : PageRun where
  block := ⟨fun _ => ⟨0#64, none, 0⟩, 0, fun _ => none, fun _ => 0, ∅⟩
  tasks _ := none

theorem emptyRun_initial : emptyRun.Initial :=
  ⟨fun _ => rfl, fun _ => rfl, rfl, fun _ => rfl, rfl⟩

/-- A page is admitted, selected and claimed, and a reader that comes then is refused. -/
theorem arbitrated_after_claim :
    ∃ t : PageRun, ReflTransGen (PageStep true) emptyRun t ∧
      t.tasks 0 = some (.gc ⟨0, 0, 1, 0⟩ .claimed) ∧ t.tasks 1 = none ∧ t.Arbitrated := by
  have admitted := (((ReflTransGen.refl.tail
    (@PageStep.beginFill true emptyRun 0 0 (some 5) true .exclusive rfl)).tail
    (@PageStep.fillLock _ _ 0 0 (some 5) true rfl fun j => by cases j <;> rfl)).tail
    (@PageStep.fillRegister _ _ 0 0 (some 5) true .exclusive rfl)).tail
    (@PageStep.fillEnd _ _ 0 0 (some 5) true .exclusive rfl)
  have claimed := ((admitted.tail
    (@PageStep.select _ _ 0 0 ⟨0, 0, 1, 0⟩ _ rfl rfl)).tail
    (@PageStep.gcLock _ _ 0 ⟨0, 0, 1, 0⟩ rfl fun j => by cases j <;> rfl)).tail
    (@PageStep.gcClaim _ _ 0 9 ⟨0, 0, 1, 0⟩ (some 3) _ rfl rfl)
  have refused := (((claimed.tail
    (@PageStep.beginRead _ _ 1 0 rfl)).tail
    (@PageStep.lookup _ _ 1 0 ⟨0, 1⟩ rfl rfl)).tail
    (@PageStep.load _ _ 1 0 0 rfl)).tail
    (@PageStep.refused _ _ 1 0 0 _ rfl rfl)
  exact ⟨_, refused, rfl, rfl, arbitrated_of_run emptyRun_initial refused⟩

end Talon.Worker
