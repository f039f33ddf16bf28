import Mathlib.Algebra.BigOperators.Group.List.Basic
import Talon.Lib.Fallible
import Talon.Lib.Transition

/-!
# Jobs worked on out of order and taken in order

A caller reads jobs from a source and hands them to workers in turn, each through a channel that
holds one job; the workers finish in any order, and the caller takes the results in the order of the
jobs.  It reads ahead while few enough jobs are under way and their weight is below a limit.

Whatever the workers' timing, the caller returns success exactly if it does when it works on each
job itself, with the same final state (`returned_iff`); it is never stuck (`progress`), and every
step brings it nearer to its return (`Step.effort_lt`), so that every run settles (`settles`).
-/

set_option autoImplicit false

namespace OrderedPool

open Relation List Function Nat

/-- A source of jobs, what is computed of a job, and how the caller uses a result. -/
structure Plan (Src Job Out σ E : Type) where
  next : Src → Except E (Src × Option Job)
  work : Job → Out
  take : σ → Job → Out → Except E σ
  weight : Job → Nat
  /-- So many jobs may be under way. -/
  ahead : Nat
  /-- No further job is read while those under way weigh more. -/
  limit : Nat
  workers : Nat
  remaining : Src → Nat
  shrinks : ∀ {a b job}, next a = .ok (b, some job) → remaining b < remaining a
  some_ahead : 0 < ahead
  some_worker : 0 < workers

variable {Src Job Out σ E : Type} (plan : Plan Src Job Out σ E)

def sequential (a : Src) (s : σ) : Except E (Src × σ) :=
  match _read : plan.next a with
  | .error e => .error e
  | .ok (b, none) => .ok (b, s)
  | .ok (b, some job) =>
    match plan.take s job (plan.work job) with
    | .error e => .error e
    | .ok s => sequential b s
termination_by plan.remaining a
decreasing_by exact plan.shrinks _read

/-- A job in a channel, with the number of the channel its result goes to. -/
structure Ticket (Job : Type) where
  job : Job
  number : Nat

structure State (Src Job Out σ E : Type) where
  source : Src
  pending : List (Ticket Job) := []
  queued : Nat := 0
  sent : Nat := 0
  eof : Bool := false
  state : σ
  inbox : Nat → Option (Ticket Job) := fun _ => none
  busy : Nat → Option (Ticket Job) := fun _ => none
  results : Nat → Option Out := fun _ => none
  returned : Option (Except E σ) := none

namespace State

def Reading (p : State Src Job Out σ E) : Prop :=
  p.eof = false ∧ p.pending.length < plan.ahead ∧ p.queued ≤ plan.limit

def withReturn (p : State Src Job Out σ E) (r : Except E σ) : State Src Job Out σ E :=
  { p with returned := some r }

def send (p : State Src Job Out σ E) (b : Src) (job : Job) : State Src Job Out σ E :=
  { p with
    source := b
    pending := p.pending ++ [⟨job, p.sent⟩]
    queued := p.queued + plan.weight job
    sent := p.sent + 1
    inbox := update p.inbox (p.sent % plan.workers) (some ⟨job, p.sent⟩) }

def receive (p : State Src Job Out σ E) (ticket : Ticket Job) (rest : List (Ticket Job)) (s : σ) :
    State Src Job Out σ E :=
  { p with pending := rest, queued := p.queued - plan.weight ticket.job, state := s }

def accept (p : State Src Job Out σ E) (w : Nat) (ticket : Ticket Job) : State Src Job Out σ E :=
  { p with inbox := update p.inbox w none, busy := update p.busy w (some ticket) }

def answer (p : State Src Job Out σ E) (w : Nat) (ticket : Ticket Job) : State Src Job Out σ E :=
  { p with
    busy := update p.busy w none
    results := update p.results ticket.number (some (plan.work ticket.job)) }

end State

inductive Step : State Src Job Out σ E → State Src Job Out σ E → Prop
  | readFailed {p e} (runs : p.returned = none) (reading : p.Reading plan)
      (read : plan.next p.source = .error e) : Step p (p.withReturn (.error e))
  | eof {p b} (runs : p.returned = none) (reading : p.Reading plan)
      (read : plan.next p.source = .ok (b, none)) : Step p { p with source := b, eof := true }
  /-- The workers are served in turn; a full channel makes the caller wait. -/
  | send {p b job} (runs : p.returned = none) (reading : p.Reading plan)
      (read : plan.next p.source = .ok (b, some job))
      (room : p.inbox (p.sent % plan.workers) = none) :
      Step p (p.send plan b job)
  | receive {p ticket rest out s} (runs : p.returned = none) (full : ¬ p.Reading plan)
      (first : p.pending = ticket :: rest) (done : p.results ticket.number = some out)
      (taken : plan.take p.state ticket.job out = .ok s) :
      Step p (p.receive plan ticket rest s)
  | takeFailed {p ticket rest out e} (runs : p.returned = none) (full : ¬ p.Reading plan)
      (first : p.pending = ticket :: rest) (done : p.results ticket.number = some out)
      (taken : plan.take p.state ticket.job out = .error e) : Step p (p.withReturn (.error e))
  | finish {p} (runs : p.returned = none) (ended : p.eof = true) (none_ : p.pending = []) :
      Step p (p.withReturn (.ok p.state))
  | accept {p ticket} (w : Nat) (worker : w < plan.workers) (waits : p.inbox w = some ticket)
      (idle : p.busy w = none) : Step p (p.accept w ticket)
  | answer {p ticket} (w : Nat) (worker : w < plan.workers) (works : p.busy w = some ticket) :
      Step p (p.answer plan w ticket)

/-! ## The result -/

variable {a : Src} {t : Ticket Job}

section Result

variable {plan}

theorem sequential_error {e : E} (read : plan.next a = .error e) (s : σ) :
    sequential plan a s = .error e := by
  rw [sequential]
  split
  · rename_i failed
    exact congrArg _ (Except.error.inj (failed.symm.trans read))
  · rename_i ended
    cases ended.symm.trans read
  · rename_i more
    cases more.symm.trans read

variable {b : Src}

theorem sequential_none (read : plan.next a = .ok (b, none)) (s : σ) :
    sequential plan a s = .ok (b, s) := by
  rw [sequential]
  split
  · rename_i failed
    cases failed.symm.trans read
  · rename_i ended
    cases ended.symm.trans read
    rfl
  · rename_i more
    cases more.symm.trans read

theorem sequential_some {job : Job} (read : plan.next a = .ok (b, some job)) (s : σ) :
    sequential plan a s = plan.take s job (plan.work job) >>= fun s => sequential plan b s := by
  rw [sequential]
  split
  · rename_i failed
    cases failed.symm.trans read
  · rename_i ended
    cases ended.symm.trans read
  · rename_i more
    cases more.symm.trans read
    cases plan.take s job (plan.work job) <;> rfl

variable (plan) in
/-- What becomes of the state once the jobs under way are taken. -/
def drain (jobs : List (Ticket Job)) (s : σ) : Except E σ :=
  jobs.foldlM (fun s t => plan.take s t.job (plan.work t.job)) s

/-- What the caller is going to return, if the workers compute what they should. -/
def State.outcome (plan : Plan Src Job Out σ E) (p : State Src Job Out σ E) (s : σ) : Prop :=
  ∃ t, drain plan p.pending p.state = .ok t ∧
    if p.eof then t = s else ∃ b, sequential plan p.source t = .ok (b, s)

def State.Placed (p : State Src Job Out σ E) (workers : Nat) (t : Ticket Job) : Prop :=
  (∃ w < workers, p.inbox w = some t ∨ p.busy w = some t) ∨ ∃ out, p.results t.number = some out

/-- `meant` is the result to be returned. -/
structure State.Sound (plan : Plan Src Job Out σ E) (meant : σ → Prop) (p : State Src Job Out σ E) :
    Prop where
  jobs : ∃ job : Nat → Option Job,
    (∀ w t, p.inbox w = some t ∨ p.busy w = some t → job t.number = some t.job) ∧
    (∀ t ∈ p.pending, job t.number = some t.job) ∧
    (∀ n out, p.results n = some out → ∃ j, job n = some j ∧ out = plan.work j) ∧
    ∀ n, p.sent ≤ n → job n = none
  placed : ∀ t ∈ p.pending, p.Placed plan.workers t
  queued : p.queued = (p.pending.map fun t => plan.weight t.job).sum
  returned : ∀ r, p.returned = some r → ∀ s, r = .ok s ↔ meant s
  outcome : p.returned = none → ∀ s, p.outcome plan s ↔ meant s

theorem drain_append (jobs : List (Ticket Job)) (t : Ticket Job) (s : σ) :
    drain plan (jobs ++ [t]) s =
      drain plan jobs s >>= fun s => plan.take s t.job (plan.work t.job) := by
  unfold drain
  rw [foldlM_append]
  congr 1
  funext s
  change (plan.take s t.job (plan.work t.job) >>= fun s => .ok s) = _
  cases plan.take s t.job (plan.work t.job) <;> rfl

variable {p q : State Src Job Out σ E} {meant : σ → Prop}

theorem State.Sound.start (a : Src) (s : σ) :
    State.Sound plan (fun t => ∃ b, sequential plan a s = .ok (b, t))
      { source := a, state := s } := by
  refine ⟨⟨fun _ => none, ?_, ?_, ?_, fun _ _ => rfl⟩, nofun, rfl, nofun, fun _ t => ?_⟩
  · rintro w t (h | h) <;> cases h
  · nofun
  · nofun
  · constructor
    · rintro ⟨u, drained, rest⟩
      cases drained
      exact rest
    · exact fun rest => ⟨s, rfl, rest⟩

theorem State.Sound.read (h : p.Sound plan meant) (runs : p.returned = none) (more : p.eof = false)
    {job : Job} (read : plan.next p.source = .ok (b, some job)) (t : σ) :
    (∃ u, drain plan (p.pending ++ [⟨job, p.sent⟩]) p.state = .ok u ∧
      ∃ c, sequential plan b u = .ok (c, t)) ↔ meant t := by
  rw [← h.outcome runs t]
  unfold State.outcome
  rw [more]
  constructor
  · rintro ⟨u, drained, rest⟩
    rw [drain_append] at drained
    obtain ⟨v, first, last⟩ := Fallible.bind_ok drained
    refine ⟨v, first, ?_⟩
    rw [if_neg Bool.false_ne_true]
    obtain ⟨c, rest⟩ := rest
    exact ⟨c, by rw [sequential_some read, last]; exact rest⟩
  · rintro ⟨v, first, rest⟩
    rw [if_neg Bool.false_ne_true] at rest
    obtain ⟨c, rest⟩ := rest
    rw [sequential_some read] at rest
    obtain ⟨u, last, rest⟩ := Fallible.bind_ok rest
    exact ⟨u, by rw [drain_append, first]; exact last, c, rest⟩

theorem State.Placed.mono {workers : Nat} (h : p.Placed workers t)
    (inbox : ∀ w < workers, p.inbox w = some t → q.Placed workers t)
    (busy : ∀ w < workers, p.busy w = some t → q.Placed workers t)
    (results : ∀ n out, p.results n = some out → ∃ out', q.results n = some out') :
    q.Placed workers t := by
  rcases h with ⟨w, worker, waits | works⟩ | ⟨out, done⟩
  · exact inbox w worker waits
  · exact busy w worker works
  · exact .inr (results _ out done)

theorem of_update {α β : Type} [DecidableEq α] {f : α → Option β} {k j : α} {v : Option β} {x : β}
    (h : update f k v j = some x) : (j = k ∧ v = some x) ∨ f j = some x := by
  rcases eq_or_ne j k with rfl | ne
  · rw [update_self] at h
    exact .inl ⟨rfl, h⟩
  · rw [update_of_ne ne] at h
    exact .inr h

section Steps

variable (h : p.Sound plan meant)
include h

theorem State.Sound.fail (never : ∀ s, ¬ meant s) (e : E) :
    (p.withReturn (.error e)).Sound plan meant := by
  refine ⟨h.jobs, h.placed, h.queued, ?_, nofun⟩
  rintro r same s
  cases same
  exact ⟨nofun, fun means => absurd means (never s)⟩

theorem State.Sound.atEnd {b : Src} (more : p.eof = false)
    (read : plan.next p.source = .ok (b, none)) :
    ({ p with source := b, eof := true } : State Src Job Out σ E).Sound plan meant := by
  refine ⟨h.jobs, h.placed, h.queued, h.returned, fun runs s => ?_⟩
  rw [← h.outcome runs s]
  unfold State.outcome
  rw [more]
  refine exists_congr fun t => and_congr_right fun _ => ?_
  rw [if_pos rfl, if_neg Bool.false_ne_true]
  constructor
  · rintro rfl
    exact ⟨b, sequential_none read t⟩
  · rintro ⟨c, rest⟩
    rw [sequential_none read] at rest
    cases rest
    rfl

/-- The new job has a number of its own and waits in the channel of its worker. -/
theorem State.Sound.send {b : Src} {j : Job} (more : p.eof = false)
    (read : plan.next p.source = .ok (b, some j)) (room : p.inbox (p.sent % plan.workers) = none) :
    (p.send plan b j).Sound plan meant := by
  obtain ⟨job, workersHave, pendingHave, resultsHave, fresh⟩ := h.jobs
  have old {n : Nat} {x : Job} (known : job n = some x) :
      update job p.sent (some j) n = some x := by
    have ne : n ≠ p.sent := by
      rintro rfl
      rw [fresh _ (le_refl _)] at known
      cases known
    rw [update_of_ne ne]
    exact known
  refine ⟨⟨update job p.sent (some j), fun w t => ?_, fun t mem => ?_, fun n out done => ?_,
    fun n beyond => ?_⟩, fun t mem => ?_, ?_, h.returned, fun runs t => ?_⟩
  · rintro (waits | works)
    · obtain ⟨-, same⟩ | waits := of_update waits
      · cases same
        rw [update_self]
      · exact old (workersHave w t (.inl waits))
    · exact old (workersHave w t (.inr works))
  · rcases mem_append.mp mem with earlier | new
    · exact old (pendingHave t earlier)
    · rw [mem_singleton.mp new, update_self]
  · obtain ⟨x, known, same⟩ := resultsHave n out done
    exact ⟨x, old known, same⟩
  · change p.sent + 1 ≤ n at beyond
    rw [update_of_ne (by omega)]
    exact fresh n (by omega)
  · rcases mem_append.mp mem with earlier | new
    · refine (h.placed t earlier).mono (fun w worker waits => ?_) (fun w worker works => ?_)
        fun n out done => ⟨out, done⟩
      · have ne : w ≠ p.sent % plan.workers := by
          rintro rfl
          rw [room] at waits
          cases waits
        exact .inl ⟨w, worker, .inl (by rw [← waits]; exact update_of_ne ne _ _)⟩
      · exact .inl ⟨w, worker, .inr works⟩
    · rw [mem_singleton.mp new]
      exact .inl ⟨_, mod_lt _ plan.some_worker, .inl (update_self ..)⟩
  · rw [State.send, h.queued, map_append, List.sum_append]
    simp
  · rw [← h.read runs more read t, State.outcome, State.send, more]
    rfl

variable {ticket : Ticket Job} {rest : List (Ticket Job)}

/-- The result that the caller waits for is that of its first job. -/
theorem State.Sound.first {out : Out} (first : p.pending = ticket :: rest)
    (done : p.results ticket.number = some out) : out = plan.work ticket.job := by
  obtain ⟨job, -, pendingHave, resultsHave, -⟩ := h.jobs
  have mine := pendingHave ticket (by rw [first]; exact mem_cons_self)
  obtain ⟨x, known, same⟩ := resultsHave _ out done
  cases mine.symm.trans known
  exact same

theorem State.Sound.receive {s : σ} (first : p.pending = ticket :: rest)
    (taken : plan.take p.state ticket.job (plan.work ticket.job) = .ok s) :
    (p.receive plan ticket rest s).Sound plan meant := by
  obtain ⟨job, workersHave, pendingHave, resultsHave, fresh⟩ := h.jobs
  refine ⟨⟨job, workersHave, fun t mem => pendingHave t ?_, resultsHave, fresh⟩,
    fun t mem => h.placed t ?_, ?_, h.returned, fun runs t => ?_⟩
  · rw [first]
    exact mem_cons_of_mem _ mem
  · rw [first]
    exact mem_cons_of_mem _ mem
  · rw [State.receive, h.queued, first, map_cons, sum_cons, Nat.add_sub_cancel_left]
  · rw [← h.outcome runs t]
    unfold State.outcome
    rw [first]
    change (∃ u, drain plan rest s = .ok u ∧ _) ↔
      ∃ u, (plan.take p.state ticket.job _ >>= fun s => drain plan rest s) = .ok u ∧ _
    rw [taken]
    rfl

theorem State.Sound.finish (runs : p.returned = none) (ended : p.eof = true)
    (none_ : p.pending = []) : (p.withReturn (.ok p.state)).Sound plan meant := by
  refine ⟨h.jobs, h.placed, h.queued, ?_, nofun⟩
  rintro r same t
  cases same
  rw [← h.outcome runs t]
  unfold State.outcome
  rw [none_, ended]
  constructor
  · intro same
    cases same
    exact ⟨p.state, rfl, rfl⟩
  · rintro ⟨u, drained, same⟩
    cases drained
    rw [if_pos rfl] at same
    rw [same]

theorem State.Sound.accept {w : Nat} (worker : w < plan.workers) (waits : p.inbox w = some ticket)
    (idle : p.busy w = none) : (p.accept w ticket).Sound plan meant := by
  obtain ⟨job, workersHave, pendingHave, resultsHave, fresh⟩ := h.jobs
  refine ⟨⟨job, fun v t => ?_, pendingHave, resultsHave, fresh⟩, fun t mem => ?_,
    h.queued, h.returned, h.outcome⟩
  · rintro (waits' | works')
    · obtain ⟨-, same⟩ | waits' := of_update waits'
      · cases same
      · exact workersHave v t (.inl waits')
    · obtain ⟨rfl, same⟩ | works' := of_update works'
      · cases same
        exact workersHave v ticket (.inl waits)
      · exact workersHave v t (.inr works')
  · refine (h.placed t mem).mono (fun v there waits' => ?_) (fun v there works' => ?_)
      fun n out done => ⟨out, done⟩
    · rcases eq_or_ne v w with rfl | ne
      · cases waits.symm.trans waits'
        exact .inl ⟨v, worker, .inr (update_self ..)⟩
      · exact .inl ⟨v, there, .inl (by rw [← waits']; exact update_of_ne ne _ _)⟩
    · have ne : v ≠ w := by
        rintro rfl
        rw [idle] at works'
        cases works'
      exact .inl ⟨v, there, .inr (by rw [← works']; exact update_of_ne ne _ _)⟩

theorem State.Sound.answer {w : Nat} (works : p.busy w = some ticket) :
    (p.answer plan w ticket).Sound plan meant := by
  obtain ⟨job, workersHave, pendingHave, resultsHave, fresh⟩ := h.jobs
  have mine := workersHave w ticket (.inr works)
  refine ⟨⟨job, fun v t => ?_, pendingHave, fun n out done => ?_, fresh⟩, fun t mem => ?_, h.queued,
    h.returned, h.outcome⟩
  · rintro (waits' | works')
    · exact workersHave v t (.inl waits')
    · obtain ⟨-, same⟩ | works' := of_update works'
      · cases same
      · exact workersHave v t (.inr works')
  · obtain ⟨rfl, same⟩ | done := of_update done
    · cases same
      exact ⟨ticket.job, mine, rfl⟩
    · exact resultsHave n out done
  · refine (h.placed t mem).mono (fun v there waits' => .inl ⟨v, there, .inl waits'⟩)
      (fun v there works' => ?_) fun n out done => ?_
    · rcases eq_or_ne v w with rfl | ne
      · cases works.symm.trans works'
        exact .inr ⟨_, update_self ..⟩
      · exact .inl ⟨v, there, .inr (by rw [← works']; exact update_of_ne ne _ _)⟩
    · rcases eq_or_ne n ticket.number with rfl | ne
      · exact ⟨_, update_self ..⟩
      · exact ⟨out, by rw [← done]; exact update_of_ne ne _ _⟩

/-- Every step of the caller or a worker keeps what is going to be returned. -/
theorem State.Sound.step (step : Step plan p q) : q.Sound plan meant := by
  cases step with
  | readFailed runs reading read =>
    refine h.fail (fun s means => ?_) _
    obtain ⟨t, -, rest⟩ := (h.outcome runs s).mpr means
    rw [reading.1, if_neg Bool.false_ne_true] at rest
    obtain ⟨b, rest⟩ := rest
    rw [sequential_error read] at rest
    cases rest
  | eof _ reading read => exact h.atEnd reading.1 read
  | send _ reading read room => exact h.send reading.1 read room
  | receive _ _ first done taken =>
    rw [h.first first done] at taken
    exact h.receive first taken
  | @takeFailed ticket rest _ _ runs _ first done taken =>
    rw [h.first first done] at taken
    refine h.fail (fun t means => ?_) _
    obtain ⟨u, drained, -⟩ := (h.outcome runs t).mpr means
    rw [first] at drained
    change (plan.take p.state ticket.job _ >>= fun s => drain plan rest s) = .ok u at drained
    rw [taken] at drained
    cases drained
  | finish runs ended none_ => exact h.finish runs ended none_
  | accept w worker waits idle => exact h.accept worker waits idle
  | answer w _ works => exact h.answer works

end Steps

/-- Whatever the interleaving, the pool returns what a sequential run of the plan does. -/
theorem State.Sound.run {s : σ} (run : ReflTransGen (Step plan) { source := a, state := s } p) :
    p.Sound plan fun t => ∃ b, sequential plan a s = .ok (b, t) := by
  refine Transition.kept_by_run (fun _ _ step sound => State.Sound.step sound step) ?_ run
  exact State.Sound.start a s

theorem returned_iff {s : σ} (run : ReflTransGen (Step plan) { source := a, state := s } p)
    {r : Except E σ} (done : p.returned = some r) (t : σ) :
    r = .ok t ↔ ∃ b, sequential plan a s = .ok (b, t) :=
  (State.Sound.run run).returned r done t

end Result

/-! ## The return -/

section Return

variable {plan} {p q : State Src Job Out σ E} {meant : σ → Prop}

theorem busy_step {w : Nat} (worker : w < plan.workers)
    (with_ : p.inbox w = some t ∨ p.busy w = some t) : ∃ q, Step plan p q := by
  rcases with_ with waits | works
  · cases busy : p.busy w with
    | none => exact ⟨_, .accept w worker waits busy⟩
    | some => exact ⟨_, .answer w worker busy⟩
  · exact ⟨_, .answer w worker works⟩

theorem progress (h : p.Sound plan meant) (runs : p.returned = none) : ∃ q, Step plan p q := by
  by_cases reading : p.Reading plan
  · cases read : plan.next p.source with
    | error => exact ⟨_, .readFailed runs reading read⟩
    | ok found =>
      obtain ⟨b, _ | job⟩ := found
      · exact ⟨_, .eof runs reading read⟩
      · cases channel : p.inbox (p.sent % plan.workers) with
        | none => exact ⟨_, .send runs reading read channel⟩
        | some => exact busy_step (mod_lt _ plan.some_worker) (.inl channel)
  · cases waiting : p.pending with
    | nil =>
      have empty : p.queued = 0 := by rw [h.queued, waiting]; rfl
      have ended : p.eof = true := by
        by_contra more
        refine reading ⟨Bool.eq_false_iff.mpr more, ?_, ?_⟩
        · rw [waiting]
          exact plan.some_ahead
        · rw [empty]
          exact zero_le _
      exact ⟨_, .finish runs ended waiting⟩
    | cons t =>
      rcases h.placed t (by rw [waiting]; exact mem_cons_self) with ⟨w, worker, with_⟩ | ⟨out, done⟩
      · exact busy_step worker with_
      · cases taken : plan.take p.state t.job out with
        | error => exact ⟨_, .takeFailed runs reading waiting done taken⟩
        | ok => exact ⟨_, .receive runs reading waiting done taken⟩

def held (f : Nat → Option (Ticket Job)) : Nat → Nat
  | 0 => 0
  | n + 1 => held f n + if (f n).isSome then 1 else 0

variable {f : Nat → Option (Ticket Job)}

theorem held_update_of_le {w n : Nat} (outside : n ≤ w) (x : Option (Ticket Job)) :
    held (update f w x) n = held f n := by
  induction n with
  | zero => rfl
  | succ n ih => rw [held, held, ih (by omega), update_of_ne (by omega)]

theorem held_put {w n : Nat} (inside : w < n) (free : f w = none) (t : Ticket Job) :
    held (update f w (some t)) n = held f n + 1 := by
  induction n with
  | zero => omega
  | succ n ih =>
    rw [held, held]
    rcases lt_or_ge w n with below | _
    · rw [ih below, update_of_ne (by omega)]
      omega
    · obtain rfl : w = n := by omega
      rw [held_update_of_le (le_refl _), update_self, free]
      rfl

theorem held_remove {w n : Nat} (inside : w < n) (there : f w = some t) :
    held (update f w none) n + 1 = held f n := by
  have back := held_put inside (update_self w none f) t
  rw [update_idem, ← there, update_eq_self] at back
  exact back.symm

variable (plan) in
def State.effort (p : State Src Job Out σ E) : Nat :=
  (if p.returned.isSome then 0
    else 1 + (if p.eof then 0 else 4 * plan.remaining p.source + 1) + p.pending.length) +
    (2 * held p.inbox plan.workers + held p.busy plan.workers)

theorem Step.effort_lt (step : Step plan p q) : q.effort plan < p.effort plan := by
  cases step with
  | readFailed runs | takeFailed runs | finish runs =>
    unfold State.effort State.withReturn
    rw [runs]
    simp only [Option.isSome_some, Option.isSome_none, if_true, Bool.false_eq_true, if_false]
    omega
  | eof runs reading =>
    unfold State.effort
    rw [runs, reading.1]
    simp
  | send runs reading read room =>
    have shorter := plan.shrinks read
    have more := held_put (mod_lt p.sent plan.some_worker) room
    unfold State.effort State.send
    simp only [runs, reading.1, length_append, more]
    simp
    omega
  | receive runs _ first =>
    unfold State.effort State.receive
    simp only [runs, first, length_cons]
    simp
  | accept w worker waits idle =>
    have more := held_put worker idle
    have less := held_remove worker waits
    unfold State.effort State.accept
    simp only [more]
    omega
  | answer w worker works =>
    have less := held_remove worker works
    unfold State.effort State.answer
    simp only
    omega

variable (plan) in
theorem returns (a : Src) (s : σ) :
    ∃ p r, ReflTransGen (Step plan) { source := a, state := s } p ∧ p.returned = some r := by
  have go : ∀ n p, p.effort plan = n →
    p.Sound plan (fun t => ∃ b, sequential plan a s = .ok (b, t)) →
      ∃ q r, ReflTransGen (Step plan) p q ∧ q.returned = some r := by
    intro n
    induction n using Nat.strongRecOn with
    | _ n ih =>
      intro p same sound
      cases ended : p.returned with
      | some r => exact ⟨p, r, .refl, ended⟩
      | none =>
        obtain ⟨q, step⟩ := progress sound ended
        obtain ⟨q', r, run, done⟩ := ih _ (same ▸ step.effort_lt) q rfl (sound.step step)
        exact ⟨q', r, .head step run, done⟩
  exact go _ _ rfl (State.Sound.start a s)

variable (plan) in
/-- A run without a further step has returned, and no run goes on for ever. -/
def Settles (start : State Src Job Out σ E) : Prop :=
  (∀ p, ReflTransGen (Step plan) start p → (∀ q, ¬ Step plan p q) → p.returned.isSome = true) ∧
    ∀ f : Nat → State Src Job Out σ E, f 0 = start → ¬ ∀ i, Step plan (f i) (f (i + 1))

variable (plan) in
theorem settles (a : Src) (s : σ) : Settles plan { source := a, state := s } := by
  refine ⟨fun p run stuck => ?_, fun f _ steps => ?_⟩
  · by_contra ended
    obtain ⟨q, step⟩ := progress (State.Sound.run run) (Option.not_isSome_iff_eq_none.mp ended)
    exact stuck q step
  have falls : ∀ i, (f i).effort plan + i ≤ (f 0).effort plan := by
    intro i
    induction i with
    | zero => exact le_refl _
    | succ i =>
      have less := (steps i).effort_lt
      omega
  have last := falls ((f 0).effort plan + 1)
  omega

end Return

end OrderedPool
