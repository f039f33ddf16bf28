import Talon.Lib.PartialMap

/-!
# Resources behind gates

Each resource has a gate that at most one task holds.  A task that holds the gate may leave the
resource in any shape its own progress allows; without a holder the resource is settled.  A task
that holds no gate may still touch a resource, if the change keeps what the holder relies on.
-/

set_option autoImplicit false

namespace Gate

open Option

variable {κ ι τ σ : Type*} [DecidableEq κ] [DecidableEq ι]

/-- The resources, the owner of each gate and the running tasks. -/
structure Guarded (κ ι τ σ : Type*) where
  slots : κ → σ
  owner : κ → Option ι
  tasks : ι → Option τ

namespace Guarded

def setSlot (s : Guarded κ ι τ σ) (k : κ) (r : σ) : Guarded κ ι τ σ :=
  { s with slots := Function.update s.slots k r }

def setTask (s : Guarded κ ι τ σ) (id : ι) (t : Option τ) : Guarded κ ι τ σ :=
  { s with tasks := Function.update s.tasks id t }

def setOwner (s : Guarded κ ι τ σ) (k : κ) (id : Option ι) : Guarded κ ι τ σ :=
  { s with owner := Function.update s.owner k id }

end Guarded

/-- The gate a task holds, what it has made of the resource behind it, and what a resource is
without a holder. -/
structure Discipline (κ τ σ : Type*) where
  holds : τ → Option κ
  Stage : τ → σ → Prop
  Settled : σ → Prop

structure Inv (D : Discipline κ τ σ) (s : Guarded κ ι τ σ) : Prop where
  holders : ∀ id t k, s.tasks id = some t → D.holds t = some k → s.owner k = some id
  owned : ∀ k id, s.owner k = some id →
    ∃ t, s.tasks id = some t ∧ D.holds t = some k ∧ D.Stage t (s.slots k)
  free : ∀ k, s.owner k = none → D.Settled (s.slots k)

def Idle (D : Discipline κ τ σ) (t : Option τ) : Prop := ∀ u, t = some u → D.holds u = none

variable {D : Discipline κ τ σ} {s : Guarded κ ι τ σ} {id : ι} {k : κ} {r : σ} {t u : τ}

omit [DecidableEq κ] [DecidableEq ι] in
theorem idle_none : Idle D none := fun _ found => nomatch found

omit [DecidableEq κ] [DecidableEq ι] in
theorem idle_some (nothing : D.holds t = none) : Idle D (some t) :=
  fun _ found => some.inj found ▸ nothing

omit [DecidableEq κ] [DecidableEq ι] in
theorem Inv.stage (inv : Inv D s) (found : s.tasks id = some t) (held : D.holds t = some k) :
    D.Stage t (s.slots k) := by
  obtain ⟨u, there, _, stage⟩ := inv.owned k id (inv.holders id t k found held)
  rw [found] at there
  exact some.inj there ▸ stage

variable {next : Option τ}

omit [DecidableEq κ] in
theorem Inv.setTask (inv : Inv D s) (before : Idle D (s.tasks id))
    (after : Idle D next) : Inv D (s.setTask id next) := by
  refine ⟨?_, ?_, inv.free⟩
  · intro j t k found holds
    by_cases same : j = id
    · subst same
      have here : next = some t := by simpa [Guarded.setTask] using found
      rw [after t here] at holds
      cases holds
    · exact inv.holders j t k (by simpa [Guarded.setTask, same] using found) holds
  · intro k j own
    obtain ⟨t, found, holds, stage⟩ := inv.owned k j own
    have other : j ≠ id := by
      intro same
      rw [before t (same ▸ found)] at holds
      cases holds
    exact ⟨t, by simpa [Guarded.setTask, other] using found, holds, stage⟩

omit [DecidableEq ι] in
theorem Inv.setSlot (inv : Inv D s) (stages : ∀ t, D.Stage t (s.slots k) → D.Stage t r)
    (settled : D.Settled (s.slots k) → D.Settled r) : Inv D (s.setSlot k r) := by
  refine ⟨inv.holders, ?_, ?_⟩
  · intro j id own
    obtain ⟨t, found, holds, stage⟩ := inv.owned j id own
    refine ⟨t, found, holds, ?_⟩
    by_cases same : j = k
    · subst same
      simpa [Guarded.setSlot] using stages t stage
    · simpa [Guarded.setSlot, same] using stage
  · intro j own
    by_cases same : j = k
    · subst same
      simpa [Guarded.setSlot] using settled (inv.free j own)
    · simpa [Guarded.setSlot, same] using inv.free j own

/-- A task and a gate that have to do with no others: the task holds the gate, or it holds none and
the gate is free. -/
def Paired (D : Discipline κ τ σ) (s : Guarded κ ι τ σ) (id : ι) (k : κ) : Prop :=
  (∃ u, s.tasks id = some u ∧ D.holds u = some k ∧ s.owner k = some id ∧ D.Stage u (s.slots k)) ∨
    (Idle D (s.tasks id) ∧ s.owner k = none ∧ D.Settled (s.slots k))

omit [DecidableEq κ] [DecidableEq ι] in
theorem Inv.paired (inv : Inv D s) (found : s.tasks id = some t) (held : D.holds t = some k) :
    Paired D s id k :=
  .inl ⟨t, found, held, inv.holders id t k found held, inv.stage found held⟩

theorem Inv.replace (inv : Inv D s) (before : Paired D s id k) {s' : Guarded κ ι τ σ}
    (tasks : ∀ j, j ≠ id → s'.tasks j = s.tasks j) (owner : ∀ l, l ≠ k → s'.owner l = s.owner l)
    (slots : ∀ l, l ≠ k → s'.slots l = s.slots l) (after : Paired D s' id k) : Inv D s' := by
  have apart : ∀ l j, s.owner l = some j → (j = id ↔ l = k) := by
    intro l j own
    obtain ⟨t, found, holding, -⟩ := inv.owned l j own
    obtain ⟨u, there, held, mine, -⟩ | ⟨idle, free, -⟩ := before
    · grind
    · have elsewhere : j ≠ id := by
        rintro rfl
        rw [idle t found] at holding
        cases holding
      grind
  refine ⟨?_, ?_, ?_⟩
  · intro j t l found holding
    by_cases same : j = id
    · subst same
      obtain ⟨u, there, held, mine, -⟩ | ⟨idle, -⟩ := after
      · grind
      · rw [idle t found] at holding
        cases holding
    · have own := inv.holders j t l (tasks j same ▸ found) holding
      rw [owner l fun eq => same ((apart l j own).mpr eq), own]
  · intro l j own
    by_cases same : l = k
    · subst same
      obtain ⟨u, there, held, mine, stage⟩ | ⟨-, free, -⟩ := after
      · obtain rfl : id = j := some.inj (mine.symm.trans own)
        exact ⟨u, there, held, stage⟩
      · rw [free] at own
        cases own
    · rw [owner l same] at own
      obtain ⟨t, found, holding, stage⟩ := inv.owned l j own
      exact ⟨t, tasks j (fun eq => same ((apart l j own).mp eq)) ▸ found, holding,
        slots l same ▸ stage⟩
  · intro l own
    by_cases same : l = k
    · subst same
      obtain ⟨u, -, -, mine, -⟩ | ⟨-, -, settled⟩ := after
      · rw [mine] at own
        cases own
      · exact settled
    · exact slots l same ▸ inv.free l (owner l same ▸ own)

theorem Inv.lock (inv : Inv D s) (unlocked : s.owner k = none) (before : Idle D (s.tasks id))
    (holds : D.holds u = some k) (stage : D.Settled (s.slots k) → D.Stage u (s.slots k)) :
    Inv D ((s.setTask id (some u)).setOwner k (some id)) := by
  have settled := inv.free k unlocked
  refine inv.replace (.inr ⟨before, unlocked, settled⟩) ?_ ?_ ?_
    (.inl ⟨u, ?_, holds, ?_, stage settled⟩)
  all_goals simp +contextual [Guarded.setTask, Guarded.setOwner]

theorem Inv.move (inv : Inv D s) (found : s.tasks id = some t) (held : D.holds t = some k)
    (holds : D.holds u = some k) (stage : D.Stage u r) :
    Inv D ((s.setSlot k r).setTask id (some u)) := by
  refine inv.replace (inv.paired found held) ?_ ?_ ?_
    (.inl ⟨u, ?_, holds, inv.holders id t k found held, ?_⟩)
  all_goals simp +contextual [Guarded.setTask, Guarded.setSlot, stage]

theorem Inv.release (inv : Inv D s) (found : s.tasks id = some t) (held : D.holds t = some k)
    (after : Idle D next) (settled : D.Settled r) :
    Inv D (((s.setSlot k r).setTask id next).setOwner k none) := by
  refine inv.replace (inv.paired found held) ?_ ?_ ?_ (.inr ⟨?_, ?_, ?_⟩)
  all_goals simp +contextual [Guarded.setTask, Guarded.setSlot, Guarded.setOwner, after, settled]

omit [DecidableEq κ] [DecidableEq ι] in
theorem Inv.settled (inv : Inv D s) (quiet : ∀ id, s.tasks id = none) (k : κ) :
    D.Settled (s.slots k) := by
  cases own : s.owner k with
  | none => exact inv.free k own
  | some id =>
    obtain ⟨t, found, _⟩ := inv.owned k id own
    rw [quiet id] at found
    cases found

end Gate
